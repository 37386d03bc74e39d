import Classwright.Error

/-! # Targets and dialects

The release that class files are written for, and the dialect of the source. -/

namespace Classwright

/-- A release of the virtual machine that class files can be written for. -/
structure Target where
  release : Nat
  least : 5 ≤ release
  most : release ≤ 22
deriving DecidableEq, Repr

namespace Target

instance : Inhabited Target := ⟨⟨17, by decide, by decide⟩⟩

def ofRelease (release : Nat) : Except CompileError Target :=
  if h : 5 ≤ release ∧ release ≤ 22 then .ok ⟨release, h.1, h.2⟩ else .error (.unsupportedTarget release)

/-- The major version of the class files. -/
def major (t : Target) : UInt16 := (t.release + 44).toUInt16

def usesStackMaps (t : Target) : Bool := 50 ≤ t.major

/-- Interfaces may have static methods with code. -/
def allowsStaticInterfaceMethods (t : Target) : Bool := 52 ≤ t.major

end Target

inductive Dialect where
  /-- The earlier dialect: fields are public, class files are for release 5, and there are neither interfaces nor
      annotations. -/
  | forward
  /-- The current dialect. -/
  | current
deriving DecidableEq, Repr

namespace Dialect

instance : Inhabited Dialect := ⟨.current⟩

def name : Dialect → String
  | .forward => "Forward"
  | .current => "Sylect"

/-- The dialect of a name in letters of either case. -/
def ofName (name : String) : Except Unsupported Dialect :=
  match name.toLower with
  | "forward" => .ok .forward
  | "sylect" => .ok .current
  | other => .error (.unknownDialect other)

/-- The target that is written, where `configured` was asked for. -/
def target (d : Dialect) (configured : Target) : Target :=
  match d with
  | .forward => ⟨5, by decide, by decide⟩
  | .current => configured

def hasPublicFields (d : Dialect) : Bool := d == .forward

def hasAnnotations (d : Dialect) : Bool := d == .current

def hasInterfaces (d : Dialect) : Bool := d == .current

end Dialect

end Classwright
