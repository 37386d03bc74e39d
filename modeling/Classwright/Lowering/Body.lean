import Classwright.Lowering.Stmt

/-! # Method bodies

A constructor that does not begin with a call of another one first calls the base class's. At its end a method returns
if it has nothing to return; otherwise whoever gets there is told so. -/

namespace Classwright

open Source (Stmt)

structure MethodBody where
  code : Code
  /-- All locals, in the order of their slots. -/
  locals : List Local

/-- Whether a body begins with a call of a constructor, of its class or of the base class. -/
def beginsWithConstructor : List Stmt → Bool
  | .expr e :: _ =>
    match e.math? with
    | some ⟨⟨[], .chain [.call call] _, _⟩, [], _⟩ => call.name.name == Name.constructorKeyword
    | some ⟨⟨[], .chain [.super _, .call call] _, _⟩, [], _⟩ => call.name.name == Name.constructorKeyword
    | _ => false
  | _ => false

/-- Calls the constructor without parameters that the base class itself has. -/
def lowerBaseConstructor (c : Context) (site : Span) : EmitM Unit := do
  match c.own.base with
  | none => throw (.invalidAccess (.noSuperclassToInitialize c.own.name) site)
  | some name =>
    let base ← c.resolveClass name site
    match base.method? Name.init [] with
    | none => throw (.unknownMethod Name.init "" base.name site)
    | some m => EmitM.emitAll [.this, .invoke .invokespecial ⟨base.name, Name.init, m.descriptor, false⟩]

/-- The code of a method that stands at `site`. -/
def lowerMethod (c : Context) (method : MethodSig) (body : List Stmt) (site : Span) : Lookup MethodBody := do
  let scope ← Lookup.ofExcept (Scope.ofMethod c.own method site)
  let work : BodyM Unit := do
    if method.isConstructor && !beginsWithConstructor body then
      BodyM.emitting fun _ => lowerBaseConstructor c site
    lowerBlock c body
    BodyM.emitAll (if method.returns.isVoid then [method.returns.returnCode] else Instr.missingReturn)
  let (_, ⟨scope, emitter⟩) ← work.run { scope }
  match emitter.finish with
  | .ok code => return ⟨code, scope.locals.toList⟩
  | .error fault => .fail (.invalidControlFlow (.unclosed fault) site)

end Classwright
