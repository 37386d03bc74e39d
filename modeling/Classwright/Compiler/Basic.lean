import Classwright.Classes.Platform
import Classwright.Classes.Table
import Classwright.Compiler.Unit

/-! # Compilers

A compiler has a class table, so what it has compiled can be used by what it compiles later. The units of a batch are
all registered before the first is compiled and so can use one another in any order. -/

namespace Classwright

open Source (CompilationUnit)

structure Compiler where
  table : ClassTable
  options : Options

/-- A unit whose class is in the table. -/
structure RegisteredUnit where
  unit : CompilationUnit
  registration : Registration
  imports : Imports

/-- Why a unit of a batch failed. -/
structure UnitFailure where
  /-- The unit's place in the batch. -/
  index : Nat
  className : String
  error : CompileError
deriving DecidableEq, Repr

/-- All units that failed in the pass that ended a batch. -/
structure BatchError where
  failures : List UnitFailure
deriving DecidableEq, Repr

def BatchError.message (e : BatchError) : String :=
  s!"{e.failures.length} of the batch's units failed to compile"

namespace Compiler

variable {α : Type}

/-- A compiler that knows no sources yet. -/
def ofProvider (provider : Provider) (options : Options) : Compiler :=
  ⟨{ provider, maxDepth := options.maxDepth }, options⟩

instance : Inhabited Compiler := ⟨ofProvider .platform {}⟩

/-- Runs a lookup in the classes that the compiler sees. -/
def lookup (k : Compiler) (x : ClassView → Lookup α) : Except CompileError α × Compiler :=
  let (result, table) := k.table.run (x k.table.view)
  (result, { k with table })

/-- Puts a class into the table. -/
def register (k : Compiler) (sig : ClassSig) : Except CompileError Registration × Compiler :=
  match k.table.register sig with
  | .ok (r, table) => (.ok r, { k with table })
  | .error e => (.error e, k)

def unregister (k : Compiler) (r : Registration) : Compiler := { k with table := k.table.unregister r }

/-- Puts the class that a unit declares into the table. -/
def registerUnit (k : Compiler) (u : CompilationUnit) : Except CompileError RegisteredUnit × Compiler :=
  match k.options.declare u with
  | .error e => (.error e, k)
  | .ok (sig, imports) =>
    let (result, k) := k.register sig
    (result.map fun registration => ⟨u, registration, imports⟩, k)

/-- Compiles a unit whose class is in the table. -/
def compileRegistered (k : Compiler) (r : RegisteredUnit) : Except CompileError CompiledClass × Compiler :=
  k.lookup fun classes => Context.compile ⟨classes, r.imports, r.registration.sig, k.options⟩ r.unit

/-- Compiles one unit. Its class stays in the table only if that succeeds. -/
def compile (k : Compiler) (u : CompilationUnit) : Except CompileError CompiledClass × Compiler :=
  match k.registerUnit u with
  | (.error e, k) => (.error e, k)
  | (.ok r, k) =>
    match k.compileRegistered r with
    | (.ok c, k) => (.ok c, k)
    | (.error e, k) => (.error e, k.unregister r.registration)

/-! ### Batches -/

/-- Does the same with each item, one after another. -/
def each {β : Type} (step : Compiler → α → Except CompileError β × Compiler) (k : Compiler) :
    List α → List (Except CompileError β) × Compiler
  | [] => ([], k)
  | x :: rest =>
    let (result, k) := step k x
    let (results, k) := each step k rest
    (result :: results, k)

/-- The results that are no failures. -/
def successes (results : List (Except CompileError α)) : List α := results.filterMap (·.toOption)

/-- The failures among the results for some units. -/
def failures (units : List CompilationUnit) (results : List (Except CompileError α)) : List UnitFailure :=
  (units.zip results).zipIdx.filterMap fun ((u, result), index) =>
    match result with
    | .ok _ => none
    | .error error => some ⟨index, u.decl.name.name, error⟩

def unregisterAll (k : Compiler) (units : List RegisteredUnit) : Compiler :=
  units.foldl (fun k r => k.unregister r.registration) k

/-- Compiles all units or none: after a failure the table is as it was. -/
def compileAll (k : Compiler) (units : List CompilationUnit) : Except BatchError (List CompiledClass) × Compiler :=
  let (registered, k) := each registerUnit k units
  match failures units registered with
  | f :: fs => (.error ⟨f :: fs⟩, k.unregisterAll (successes registered))
  | [] =>
    let (compiled, k) := each compileRegistered k (successes registered)
    match failures units compiled with
    | f :: fs => (.error ⟨f :: fs⟩, k.unregisterAll (successes registered))
    | [] => (.ok (successes compiled), k)

end Compiler

/-- The files of some classes below a directory. -/
def CompiledClass.files (classes : List CompiledClass) : FileTree :=
  .ofFiles (classes.map fun c => (Name.filePath c.name, c.bytes))

end Classwright
