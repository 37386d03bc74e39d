import Classwright.Verify.Frame

/-! # What instructions do to a frame -/

namespace Classwright

/-- The method that code belongs to, as far as typing it depends on it. -/
structure MethodHead where
  owner : String
  name : String
  descriptor : String
  isStatic : Bool
deriving DecidableEq, Repr

namespace MethodHead

def isConstructor (m : MethodHead) : Bool := m.name == Name.init

/-- The slots of one parameter. -/
def paramSlots (m : MethodHead) (d : List Char) : Except FrameFault (List VType) :=
  match VType.ofDescriptor? d with
  | none => .error (.badDescriptor (String.ofList d))
  | some none => .error (.badDescriptor m.descriptor)
  | some (some t) => .ok (if t.width = 2 then [t, .top] else [t])

/-- The slots of the parameters, in front of those in `acc` reversed. -/
def slotsOf (m : MethodHead) (acc : List VType) : List (List Char) → Except FrameFault (List VType)
  | [] => .ok acc.reverse
  | d :: rest => do
    let slots ← m.paramSlots d
    m.slotsOf (slots.reverse ++ acc) rest

/-- The frame that the first instruction starts from: the receiver, if there is one, and the parameters. -/
def entryFrame (m : MethodHead) : Except FrameFault Frame :=
  let receiver :=
    if m.isStatic then []
    else if m.isConstructor then [.uninitializedThis]
    else [.object m.owner]
  match Descriptor.split? m.descriptor with
  | none => .error (.badDescriptor m.descriptor)
  | some (params, _) => do
    let slots ← m.slotsOf receiver params
    .ok { locals := slots }

end MethodHead

namespace Opcode

/-- What an operation pops, from the top down, and pushes, for operations that treat all values of a type alike. -/
def effect? : Opcode → Option (List VType × List VType)
  | .nop => some ([], [])
  | .aconstNull => some ([], [.null])
  | .iconstM1 | .iconst0 | .iconst1 | .iconst2 | .iconst3 | .iconst4 | .iconst5 => some ([], [.integer])
  | .lconst0 | .lconst1 => some ([], [.long])
  | .fconst0 | .fconst1 | .fconst2 => some ([], [.float])
  | .dconst0 | .dconst1 => some ([], [.double])
  | .iadd | .isub | .imul | .idiv | .irem | .iand | .ior | .ixor | .ishl | .ishr | .iushr =>
    some ([.integer, .integer], [.integer])
  | .ladd | .lsub | .lmul | .ldiv | .lrem | .land | .lor | .lxor => some ([.long, .long], [.long])
  | .lshl | .lshr | .lushr => some ([.integer, .long], [.long])
  | .fadd | .fsub | .fmul | .fdiv | .frem => some ([.float, .float], [.float])
  | .dadd | .dsub | .dmul | .ddiv | .drem => some ([.double, .double], [.double])
  | .ineg | .i2b | .i2c | .i2s => some ([.integer], [.integer])
  | .lneg => some ([.long], [.long])
  | .fneg => some ([.float], [.float])
  | .dneg => some ([.double], [.double])
  | .i2l => some ([.integer], [.long])
  | .i2f => some ([.integer], [.float])
  | .i2d => some ([.integer], [.double])
  | .l2i => some ([.long], [.integer])
  | .l2f => some ([.long], [.float])
  | .l2d => some ([.long], [.double])
  | .f2i => some ([.float], [.integer])
  | .f2l => some ([.float], [.long])
  | .f2d => some ([.float], [.double])
  | .d2i => some ([.double], [.integer])
  | .d2l => some ([.double], [.long])
  | .d2f => some ([.double], [.float])
  | .lcmp => some ([.long, .long], [.integer])
  | .fcmpl | .fcmpg => some ([.float, .float], [.integer])
  | .dcmpl | .dcmpg => some ([.double, .double], [.integer])
  | .ireturn => some ([.integer], [])
  | .lreturn => some ([.long], [])
  | .freturn => some ([.float], [])
  | .dreturn => some ([.double], [])
  | _ => none

/-- The integers that a branch pops. -/
def jumpIntegers : Opcode → List VType
  | .goto => []
  | .ifIcmpeq | .ifIcmpne | .ifIcmplt | .ifIcmpge | .ifIcmpgt | .ifIcmple => [.integer, .integer]
  | _ => [.integer]

end Opcode

namespace Frame

/-- Operations without an operand of their own. -/
def applyOp (m : MethodHead) (f : Frame) (op : Opcode) : Except FrameFault Frame :=
  match op.effect? with
  | some (pops, pushes) => do
    let f ← f.popAll pops
    .ok (f.pushAll pushes)
  | none =>
    match op with
    | .pop => do
      let (_, f) ← f.popWord
      .ok f
    | .pop2 => do
      let (a, f) ← f.pop
      if a.width = 1 then
        let (_, f) ← f.popWord
        .ok f
      else .ok f
    | .dup => do
      let (a, f) ← f.popWord
      .ok (f.pushAll [a, a])
    | .dupX1 => do
      let (a, f) ← f.popWord
      let (b, f) ← f.popWord
      .ok (f.pushAll [a, b, a])
    | .dup2 => do
      let (a, f) ← f.pop
      if a.width = 2 then .ok (f.pushAll [a, a])
      else
        let (b, f) ← f.popWord
        .ok (f.pushAll [b, a, b, a])
    | .dup2X1 => do
      let (a, f) ← f.pop
      let (b, f) ← f.popWord
      if a.width = 2 then .ok (f.pushAll [a, b, a])
      else
        let (c, f) ← f.popWord
        .ok (f.pushAll [b, a, c, b, a])
    | .swap => do
      let (a, f) ← f.popWord
      let (b, f) ← f.popWord
      .ok (f.pushAll [a, b])
    | .areturn | .athrow => do
      let (_, f) ← f.popKind .ref
      .ok f
    | .returnVoid =>
      if m.isConstructor ∧ f.locals.head? = some .uninitializedThis then .error .returnsUninitialized else .ok f
    | _ => .error (.missingOperand op)

def applyJump (f : Frame) (op : Opcode) : Except FrameFault Frame :=
  match op with
  | .ifAcmpeq | .ifAcmpne => do
    let (_, f) ← f.popKind .ref
    let (_, f) ← f.popKind .ref
    .ok f
  | .ifnull | .ifnonnull => do
    let (_, f) ← f.popKind .ref
    .ok f
  | _ => f.popAll op.jumpIntegers

def applyField (f : Frame) (op : Opcode) (member : MemberRef) : Except FrameFault Frame :=
  match VType.ofDescriptor? member.descriptor.toList with
  | none | some none => .error (.badDescriptor member.descriptor)
  | some (some t) =>
    match op with
    | .getstatic => .ok (f.push t)
    | .putstatic => f.popExpect t
    | .getfield => do
      let (_, f) ← f.popKind .ref
      .ok (f.push t)
    | .putfield => do
      let f ← f.popExpect t
      let (_, f) ← f.popKind .ref
      .ok f
    | _ => .error (.notFieldAccess op)

/-- Pops one argument. -/
def popArg (f : Frame) (d : List Char) : Except FrameFault Frame :=
  match VType.ofDescriptor? d with
  | none => .error (.badDescriptor (String.ofList d))
  | some none => .ok f
  | some (some t) => f.popExpect t

/-- Pops arguments, given from the last one on. -/
def popArgs (f : Frame) : List (List Char) → Except FrameFault Frame
  | [] => .ok f
  | d :: rest => do
    let f ← f.popArg d
    f.popArgs rest

def pushResult (f : Frame) (d : List Char) : Except FrameFault Frame :=
  match VType.ofDescriptor? d with
  | none => .error (.badDescriptor (String.ofList d))
  | some none => .ok f
  | some (some t) => .ok (f.push t)

/-- What a constructor call makes of its receiver. -/
def initializedType (m : MethodHead) (code : Array Instr) : VType → Except FrameFault VType
  | .uninitializedThis => .ok (.object m.owner)
  | .uninitialized site =>
    match code[site]? with
    | some (.type .new name) => .ok (.object name)
    | _ => .error .danglingSite
  | t => .error (.alreadyInitialized t)

/-- Pops the receiver of a call. A constructor call initializes all copies of it. -/
def popReceiver (m : MethodHead) (code : Array Instr) (f : Frame) (member : MemberRef) : Except FrameFault Frame := do
  let (receiver, f) ← f.popKind .ref
  if member.name = Name.init then
    let after ← initializedType m code receiver
    .ok (f.markInitialized receiver after)
  else .ok f

def applyInvoke (m : MethodHead) (code : Array Instr) (f : Frame) (op : Opcode) (member : MemberRef) :
    Except FrameFault Frame :=
  match Descriptor.split? member.descriptor with
  | none => .error (.badDescriptor member.descriptor)
  | some (params, result) => do
    let f ← f.popArgs params.reverse
    let f ← if op = .invokestatic then .ok f else popReceiver m code f member
    f.pushResult result

/-- The frame after the instruction at `index`. -/
def apply (m : MethodHead) (code : Array Instr) (index : Nat) (f : Frame) : Instr → Except FrameFault Frame
  | .mark _ => .ok f
  | .int _ => .ok (f.push .integer)
  | .long _ => .ok (f.push .long)
  | .float _ => .ok (f.push .float)
  | .double _ => .ok (f.push .double)
  | .str _ => .ok (f.push (.object Name.string))
  | .cls _ => .ok (f.push (.object Name.klass))
  | .load kind slot =>
    let t := f.getLocal slot.toNat
    if t.hasKind kind then .ok (f.push t) else .error (.wrongLocal slot t kind)
  | .store kind slot => do
    let (t, f) ← f.popKind kind
    .ok (f.setLocal slot.toNat t)
  | .jump op _ => f.applyJump op
  | .field op member => f.applyField op member
  | .invoke op member => applyInvoke m code f op member
  | .type op name =>
    match op with
    | .new => .ok (f.push (.uninitialized index))
    | .checkcast => do
      let (_, f) ← f.popKind .ref
      .ok (f.push (.object name))
    | _ => .error (.noClassOperand op)
  | .op op => f.applyOp m op

end Frame

end Classwright
