import Classwright.ClassFile.Parsed
import Classwright.Classes.FileTree
import Classwright.Error

/-! # Class providers

Where classes come from that do not stand in source. -/

namespace Classwright

/-- Says of a name which class it is, or that there is none. An error is for a class that cannot be read. -/
abbrev Provider := String → Except CompileError (Option ClassSig)

namespace Provider

/-- Knows no class. -/
def none : Provider := fun _ => .ok Option.none

/-- Knows the classes of a list. -/
def ofSignatures (classes : List ClassSig) : Provider := fun name => .ok (classes.find? (·.name == name))

/-- The signature of a class from its class file. -/
def introspect (bytes : Bytes) : Except CompileError ClassSig :=
  match ParsedClass.parse bytes with
  | .ok c => .ok c.signature
  | .error e => .error (.ofFormat e)

/-- The class in a file, if there is one. -/
def ofFile? : Option Bytes → Except CompileError (Option ClassSig)
  | Option.none => .ok Option.none
  | some bytes => (introspect bytes).map some

/-- The class files below a directory. No path has a null character in it; what gives way to the extension does not
    count. -/
def directory (files : FileTree) : Provider := fun name =>
  let path := Name.filePath name
  if path.toList.contains '\x00' then .error (.classFormat (.badFileName name)) else ofFile? (files.read? path)

/-- The class files in an archive, each under the name of its class. -/
def archive (entries : List (String × Bytes)) : Provider := fun name => ofFile? (entries.lookup (name ++ ".class"))

/-- Asks one provider after another until one knows the class or fails. -/
def chain : List Provider → Provider
  | [], _ => .ok Option.none
  | p :: rest, name =>
    match p name with
    | .ok Option.none => chain rest name
    | answer => answer

end Provider

end Classwright
