import Classwright.Lowering.Literal
import Classwright.Lowering.Scope

/-! # Chains and calls

A chain such as `a.b(x).c` is gone through link by link. At each point it stands for a class or for the value on the
stack. A call first says which class is searched and puts a receiver on the stack, then come its arguments, and then
the method is chosen by their exact types. -/

namespace Classwright

open Source (Ident)

/-- What the links before a point of a chain have come to. -/
inductive ChainState where
  | start
  /-- The word `super`, with the receiver on the stack. -/
  | super (site : Span)
  /-- A class; nothing of it is on the stack. -/
  | cls (c : ClassSig)
  /-- A value of this type is on the stack. -/
  | value (t : Ty)

/-- Where a method is searched and what is on the stack for it. -/
structure CallTarget where
  /-- The class that is searched, and the owner of the method in the code. -/
  cls : ClassSig
  /-- Constructors and methods of the base class are called as they are, not as the receiver has them. -/
  special : Bool := false
  /-- The call makes an instance of the class, which is its value. -/
  isNew : Bool := false
  receiverPushed : Bool := false
  staticOnly : Bool := false

inductive CallKind where
  | static | virtual | interface | special
deriving DecidableEq, Repr

namespace CallKind

def of (target : CallTarget) (m : MethodSig) : CallKind :=
  if m.isStatic then .static
  else if target.special then .special
  else if target.cls.isInterface then .interface
  else .virtual

def opcode : CallKind → Opcode
  | .static => .invokestatic
  | .virtual => .invokevirtual
  | .interface => .invokeinterface
  | .special => .invokespecial

end CallKind

/-! ### Names -/

/-- The class whose members a value has. -/
def memberOwner (t : Ty) (member : Ident) : Lookup String :=
  match t.className? with
  | some name => pure name
  | none => .fail (.invalidAccess (.noMembers member.name t) member.span)

/-- The first name of a chain: a local, then a field of the class itself, then a class. -/
def lowerName (c : Context) (s : Scope) (ident : Ident) : EmitM ChainState := do
  match s.get? ident.name with
  | some v =>
    EmitM.emitAll (v.type.loadCode v.slot)
    return .value v.type
  | none =>
    match ← c.ownField? ident.name ident.span with
    | some f =>
      if !f.isStatic && s.method.isStatic then throw (.invalidAccess (.fieldUsed ident.name) ident.span)
      EmitM.emitAll (if f.isStatic then [] else [.this])
      EmitM.emit (f.getCode c.own.name)
      return .value f.type
    | none =>
      match ← c.class? ident.name with
      | some cls => return .cls cls
      | none => throw (.unknownSymbol ident.name ident.span)

/-- The field of a name in a class or above it. -/
def requireField (c : Context) (owner : ClassSig) (ident : Ident) : Lookup FieldSig := do
  match ← c.field? owner.name ident.name ident.span with
  | some f => return f
  | none => .fail (.unknownField ident.name owner.name ident.span)

/-- A field of a class, which must be static. -/
def lowerStaticField (c : Context) (owner : ClassSig) (ident : Ident) : EmitM ChainState := do
  let f ← requireField c owner ident
  if !f.isStatic then throw (.notStatic ident.name owner.name ident.span)
  EmitM.emit (f.getCode owner.name)
  return .value f.type

/-- A field of the value on the stack. If it is static the value is not needed. -/
def lowerValueField (c : Context) (t : Ty) (ident : Ident) : EmitM ChainState := do
  let name ← memberOwner t ident
  let owner ← c.resolveClass name ident.span
  let f ← requireField c owner ident
  EmitM.emitAll (if f.isStatic then [.op .pop] else [])
  EmitM.emit (f.getCode owner.name)
  return .value f.type

/-! ### Calls -/

def requireConstructor (s : Scope) (site : Span) : Lookup Unit :=
  if s.method.isConstructor then pure () else .fail (.invalidAccess .constructorCall site)

/-- A call at the start of a chain: another constructor of the class, a new instance, or a method of the class. -/
def startCall (c : Context) (s : Scope) (name : Ident) (site : Span) : EmitM (CallTarget × String) := do
  if name.name = Name.constructorKeyword then
    requireConstructor s site
    EmitM.emit .this
    return ({ cls := c.own, special := true }, Name.init)
  match ← c.class? name.name with
  | some cls =>
    if cls.isInterface then throw (.invalidAccess (.interfaceInstance cls.name) site)
    EmitM.emitAll [.type .new cls.name, .op .dup]
    return ({ cls, special := true, isNew := true }, Name.init)
  | none =>
    let isStatic := s.method.isStatic
    EmitM.emitAll (if isStatic then [] else [.this])
    return ({ cls := c.own, receiverPushed := !isStatic, staticOnly := isStatic }, name.name)

/-- A call of what the base class has. -/
def superCall (c : Context) (s : Scope) (name : Ident) (site : Span) : EmitM (CallTarget × String) := do
  match c.own.base with
  | none => throw (.invalidAccess (.noSuperclass c.own.name) site)
  | some base =>
    let cls ← c.resolveClass base site
    let target : CallTarget := { cls, special := true, receiverPushed := true }
    if name.name = Name.constructorKeyword then
      requireConstructor s site
      return (target, Name.init)
    else return (target, name.name)

/-- The target and the method of a call, with a receiver on the stack if it takes one. -/
def callTarget (c : Context) (s : Scope) (state : ChainState) (name : Ident) (site : Span) :
    EmitM (CallTarget × String) := do
  match state with
  | .start => startCall c s name site
  | .super _ => superCall c s name site
  | .cls cls => return ({ cls, staticOnly := true }, name.name)
  | .value t =>
    let owner ← memberOwner t name
    let cls ← c.resolveClass owner site
    return ({ cls, receiverPushed := true }, name.name)

/-- Drops the receiver that lies under the result of a static method. -/
def dropReceiver (result : Ty) : List Instr :=
  match result.width with
  | 0 => [.op .pop]
  | 1 => [.op .swap, .op .pop]
  | _ => [.op .dup2X1, .op .pop2, .op .pop]

/-- Calls a method whose arguments are on the stack. -/
def lowerInvoke (c : Context) (target : CallTarget) (name : String) (args : List Ty) (site : Span) : EmitM Ty := do
  match ← c.method? target.cls.name name args site with
  | none => throw (.unknownMethod name (", ".intercalate (args.map (·.text))) target.cls.name site)
  | some m =>
    if target.staticOnly && !m.isStatic then throw (.notStatic name target.cls.name site)
    let kind := CallKind.of target m
    let interface := target.cls.isInterface && kind != .special
    EmitM.emit (.invoke kind.opcode ⟨target.cls.name, m.name, m.descriptor, interface⟩)
    EmitM.emitAll (if m.isStatic && target.receiverPushed then dropReceiver m.returns else [])
    return if target.isNew then target.cls.type else m.returns

/-- What a whole chain stands for. A class is pushed as an object. -/
def finishChain (site : Span) : ChainState → EmitM Ty
  | .start => throw (.unsupported .emptyChain site)
  | .super superSite => throw (.unsupported .bareSuper superSite)
  | .cls c => do
    EmitM.emit (.cls c.name)
    return .klass
  | .value t => return t

/-- A link that is no call. -/
def lowerLink (c : Context) (s : Scope) (state : ChainState) (link : Source.Link) : EmitM ChainState := do
  match state, link with
  | .start, .text l => return .value (← lowerLiteral l)
  | .start, .super site =>
    if s.method.isStatic then throw (.invalidAccess .superInStatic site)
    EmitM.emit .this
    return .super site
  | .start, .name ident => lowerName c s ident
  | .super site, _ => throw (.unsupported .bareSuper site)
  | .cls owner, .name ident => lowerStaticField c owner ident
  | .value t, .name ident => lowerValueField c t ident
  | _, link => throw (.unsupported .chainStart link.span)

end Classwright
