import Classwright.Number.Reading
import Classwright.Target
import Classwright.Text.Blank

/-! # Options

How a compiler is set up, by its caller or from settings that have names and texts. -/

namespace Classwright

structure Options where
  target : Target := default
  dialect : Dialect := default
  /-- How many steps a lookup may go up a hierarchy. -/
  maxDepth : Nat := 64
  /-- How many units of a batch may be compiled at once. Without a number that is for the machine to say; no result
      depends on it. -/
  workers : Option Nat := none
deriving DecidableEq, Repr, Inhabited

namespace Options

def targetSetting : String := "SYLECT_TARGET"

def dialectSetting : String := "SYLECT_DIALECT"

def workersSetting : String := "SYLECT_WORKERS"

/-- The target that class files are written for. -/
def effectiveTarget (o : Options) : Target := o.dialect.target o.target

/-- A batch needs at least one worker. -/
def withWorkers (o : Options) (count : Nat) : Options := { o with workers := some (max count 1) }

/-- The target of a setting, `fallback` where there is none. -/
def readTarget (fallback : Target) : Option String → Except CompileError Target
  | none => .ok fallback
  | some text =>
    match Reading.natUpTo? 4294967295 (Text.strip text) with
    | none => .error (.unsupported (.settingNotRelease targetSetting text) {})
    | some release => Target.ofRelease release

/-- The dialect of a setting, `fallback` where there is none. -/
def readDialect (fallback : Dialect) : Option String → Except CompileError Dialect
  | none => .ok fallback
  | some text =>
    match Dialect.ofName (Text.strip text) with
    | .ok dialect => .ok dialect
    | .error what => .error (.unsupported what {})

/-- The options that settings give. The first bad one counts, in the order target, dialect, workers. -/
def ofSettings (setting : String → Option String) : Except CompileError Options := do
  let o : Options := {}
  let target ← readTarget o.target (setting targetSetting)
  let dialect ← readDialect o.dialect (setting dialectSetting)
  let o := { o with target, dialect }
  match setting workersSetting with
  | none => return o
  | some text =>
    match Reading.natUpTo? 18446744073709551615 (Text.strip text) with
    | none => throw (.unsupported (.settingNotCount workersSetting text) {})
    | some count => return o.withWorkers count

end Options

end Classwright
