/-! # Class names

A class is known by its internal name, whose parts are divided by slashes. -/

namespace Classwright.Name

def object : String := "java/lang/Object"

def string : String := "java/lang/String"

/-- The class of class objects. -/
def klass : String := "java/lang/Class"

def runtimeException : String := "java/lang/RuntimeException"

/-- What constructors are called in a class file. -/
def init : String := "<init>"

/-- What constructors are called in source. -/
def constructorKeyword : String := "constructor"

/-- The receiver's name. -/
def this : String := "this"

/-- The part after the last slash. -/
def short (name : String) : String :=
  String.ofList (name.toList.reverse.takeWhile (· != '/')).reverse

/-- The internal form of a dotted name. -/
def ofDotted (name : String) : String := name.map fun c => if c == '.' then '/' else c

/-- The dotted form of an internal name. -/
def toDotted (name : String) : String := name.map fun c => if c == '/' then '.' else c

/-- A file name without its extension. A dot at the start of the name starts no extension. -/
def stem (file : List Char) : List Char :=
  match file.reverse.dropWhile (· != '.') with
  | '.' :: before => if before.isEmpty then file else before.reverse
  | _ => file

/-- The parts of a name as a path, without empty ones and without dots alone at either end. -/
def pathParts (name : String) : List (List Char) :=
  let parts := (name.toList.splitOn '/').filter fun part => !part.isEmpty
  ((parts.dropWhile (· == ['.'])).reverse.dropWhile (· == ['.'])).reverse

/-- The name of a class's file, `part` being the last part of the name of the class. What follows its last dot gives
    way to the extension. -/
def fileName (part : List Char) : List Char :=
  if part == ['.', '.'] then part else stem part ++ ".class".toList

/-- The path of a class's file below a directory; it is empty where the name has no parts. -/
def filePath (name : String) : String :=
  match (pathParts name).reverse with
  | [] => ""
  | last :: before => String.ofList (['/'].intercalate (before.reverse ++ [fileName last]))

end Classwright.Name
