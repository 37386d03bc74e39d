import Classwright.Classes.Provider

/-! # Classes of the platform

A model of the platform classes that programs use most, so that they can be compiled without the platform at hand. -/

namespace Classwright

namespace Platform

def bool : Ty := .prim .bool

def byte : Ty := .prim .byte

def char : Ty := .prim .char

def method (name : String) (params : List Ty) (returns : Ty) : MethodSig :=
  { name, isStatic := false, isNative := false, isAbstract := false, returns, params := MethodSig.unnamedParams params }

def constructor (params : List Ty) : MethodSig := method Name.init params .void

def staticMethod (name : String) (params : List Ty) (returns : Ty) : MethodSig :=
  { method name params returns with isStatic := true }

def nativeMethod (name : String) (params : List Ty) (returns : Ty) : MethodSig :=
  { method name params returns with isNative := true }

def staticNativeMethod (name : String) (params : List Ty) (returns : Ty) : MethodSig :=
  { method name params returns with isStatic := true, isNative := true }

def abstractMethod (name : String) (params : List Ty) (returns : Ty) : MethodSig :=
  { method name params returns with isAbstract := true }

def object : ClassSig where
  name := Name.object
  base := none
  methods := [
    constructor [],
    nativeMethod "hashCode" [] .int,
    method "equals" [.object Name.object] bool,
    method "toString" [] .string,
    nativeMethod "getClass" [] .klass]

def string : ClassSig where
  name := Name.string
  interfaces := ["java/lang/Comparable"]
  methods := [
    constructor [],
    constructor [.string],
    constructor [byte.arrayOf],
    constructor [char.arrayOf],
    method "length" [] .int,
    method "isEmpty" [] bool,
    method "charAt" [.int] char,
    method "concat" [.string] .string,
    method "equals" [.object Name.object] bool,
    method "hashCode" [] .int,
    method "compareTo" [.string] .int,
    method "compareTo" [.object Name.object] .int,
    method "indexOf" [.string] .int,
    method "substring" [.int] .string,
    method "substring" [.int, .int] .string,
    method "toUpperCase" [] .string,
    method "toLowerCase" [] .string,
    method "trim" [] .string,
    method "toString" [] .string,
    method "toCharArray" [] char.arrayOf,
    method "getBytes" [] byte.arrayOf,
    staticMethod "valueOf" [.int] .string,
    staticMethod "valueOf" [.long] .string,
    staticMethod "valueOf" [.float] .string,
    staticMethod "valueOf" [.double] .string,
    staticMethod "valueOf" [.object Name.object] .string]

def stringBuilder : ClassSig where
  name := "java/lang/StringBuilder"
  methods := [
    constructor [],
    constructor [.string],
    method "append" [.int] (.object "java/lang/StringBuilder"),
    method "append" [.long] (.object "java/lang/StringBuilder"),
    method "append" [.float] (.object "java/lang/StringBuilder"),
    method "append" [.double] (.object "java/lang/StringBuilder"),
    method "append" [char] (.object "java/lang/StringBuilder"),
    method "append" [.string] (.object "java/lang/StringBuilder"),
    method "append" [.object Name.object] (.object "java/lang/StringBuilder"),
    method "length" [] .int,
    method "reverse" [] (.object "java/lang/StringBuilder"),
    method "toString" [] .string]

def system : ClassSig where
  name := "java/lang/System"
  fields := [⟨"out", true, .object "java/io/PrintStream"⟩, ⟨"err", true, .object "java/io/PrintStream"⟩]
  methods := [
    staticNativeMethod "currentTimeMillis" [] .long,
    staticNativeMethod "nanoTime" [] .long,
    staticMethod "exit" [.int] .void,
    staticMethod "lineSeparator" [] .string,
    staticNativeMethod "arraycopy" [.object Name.object, .int, .object Name.object, .int, .int] .void]

def math : ClassSig where
  name := "java/lang/Math"
  fields := [⟨"PI", true, .double⟩, ⟨"E", true, .double⟩]
  methods := [
    staticMethod "abs" [.int] .int,
    staticMethod "abs" [.long] .long,
    staticMethod "abs" [.float] .float,
    staticMethod "abs" [.double] .double,
    staticMethod "max" [.int, .int] .int,
    staticMethod "max" [.long, .long] .long,
    staticMethod "max" [.double, .double] .double,
    staticMethod "min" [.int, .int] .int,
    staticMethod "min" [.long, .long] .long,
    staticMethod "min" [.double, .double] .double,
    staticMethod "sqrt" [.double] .double,
    staticMethod "pow" [.double, .double] .double,
    staticMethod "floor" [.double] .double,
    staticMethod "ceil" [.double] .double,
    staticMethod "random" [] .double]

def number : ClassSig where
  name := "java/lang/Number"
  methods := [
    constructor [],
    abstractMethod "intValue" [] .int,
    abstractMethod "longValue" [] .long,
    abstractMethod "floatValue" [] .float,
    abstractMethod "doubleValue" [] .double]

def integer : ClassSig where
  name := "java/lang/Integer"
  base := some "java/lang/Number"
  interfaces := ["java/lang/Comparable"]
  fields := [⟨"MAX_VALUE", true, .int⟩, ⟨"MIN_VALUE", true, .int⟩]
  methods := [
    constructor [.int],
    method "intValue" [] .int,
    method "longValue" [] .long,
    method "floatValue" [] .float,
    method "doubleValue" [] .double,
    staticMethod "parseInt" [.string] .int,
    staticMethod "valueOf" [.int] (.object "java/lang/Integer"),
    staticMethod "toString" [.int] .string,
    staticMethod "toHexString" [.int] .string,
    staticMethod "toBinaryString" [.int] .string,
    staticMethod "compare" [.int, .int] .int,
    method "compareTo" [.object Name.object] .int]

def long : ClassSig where
  name := "java/lang/Long"
  base := some "java/lang/Number"
  interfaces := ["java/lang/Comparable"]
  fields := [⟨"MAX_VALUE", true, .long⟩, ⟨"MIN_VALUE", true, .long⟩]
  methods := [
    constructor [.long],
    method "intValue" [] .int,
    method "longValue" [] .long,
    method "floatValue" [] .float,
    method "doubleValue" [] .double,
    staticMethod "parseLong" [.string] .long,
    staticMethod "valueOf" [.long] (.object "java/lang/Long"),
    staticMethod "toString" [.long] .string,
    staticMethod "compare" [.long, .long] .int,
    method "compareTo" [.object Name.object] .int]

def klass : ClassSig where
  name := Name.klass
  methods := [
    method "getName" [] .string,
    method "getSimpleName" [] .string,
    nativeMethod "isInterface" [] bool]

def throwable : ClassSig where
  name := "java/lang/Throwable"
  methods := [
    constructor [],
    constructor [.string],
    method "getMessage" [] .string,
    method "printStackTrace" [] .void,
    method "toString" [] .string]

def exception : ClassSig where
  name := "java/lang/Exception"
  base := some "java/lang/Throwable"
  methods := [
    constructor [],
    constructor [.string]]

def runtimeException : ClassSig where
  name := Name.runtimeException
  base := some "java/lang/Exception"
  methods := [
    constructor [],
    constructor [.string]]

def autoCloseable : ClassSig where
  name := "java/lang/AutoCloseable"
  isInterface := true
  methods := [
    abstractMethod "close" [] .void]

def runnable : ClassSig where
  name := "java/lang/Runnable"
  isInterface := true
  methods := [
    abstractMethod "run" [] .void]

def comparable : ClassSig where
  name := "java/lang/Comparable"
  isInterface := true
  methods := [
    abstractMethod "compareTo" [.object Name.object] .int]

def printStream : ClassSig where
  name := "java/io/PrintStream"
  methods := [
    method "println" [] .void,
    method "println" [bool] .void,
    method "println" [char] .void,
    method "println" [.int] .void,
    method "println" [.long] .void,
    method "println" [.float] .void,
    method "println" [.double] .void,
    method "println" [.string] .void,
    method "println" [.object Name.object] .void,
    method "print" [.int] .void,
    method "print" [.long] .void,
    method "print" [.float] .void,
    method "print" [.double] .void,
    method "print" [.string] .void,
    method "print" [.object Name.object] .void,
    method "flush" [] .void]

def annotation : ClassSig where
  name := "java/lang/annotation/Annotation"
  isInterface := true
  methods := [
    abstractMethod "annotationType" [] .klass]

def deprecated : ClassSig where
  name := "java/lang/Deprecated"
  isInterface := true
  interfaces := ["java/lang/annotation/Annotation"]
  methods := [
    abstractMethod "since" [] .string,
    abstractMethod "forRemoval" [] bool]

def functionalInterface : ClassSig where
  name := "java/lang/FunctionalInterface"
  isInterface := true
  interfaces := ["java/lang/annotation/Annotation"]

def suppressWarnings : ClassSig where
  name := "java/lang/SuppressWarnings"
  isInterface := true
  interfaces := ["java/lang/annotation/Annotation"]
  methods := [
    abstractMethod "value" [] Ty.string.arrayOf]

/-- All classes of the model. -/
def classes : List ClassSig :=
  [object, string, stringBuilder, system, math, number, integer, long, klass, throwable, exception,
   runtimeException, autoCloseable, runnable, comparable, printStream, annotation, deprecated,
   functionalInterface, suppressWarnings]

end Platform

/-- The provider of the platform's classes. -/
def Provider.platform : Provider := .ofSignatures Platform.classes

end Classwright
