import Classwright.ClassFile.Error
import Classwright.Source.Operator
import Classwright.Source.Span

/-! # What can be wrong with a program

Every error is the cause of a failure, with the place in the source where there is one. The texts are made here and
nowhere else. A front end may report faults of its own in its own words. -/

namespace Classwright

/-- Control-flow blocks that are opened and closed in pairs. -/
inductive BlockKind where
  | conditional | loop | elseBranch
deriving DecidableEq, Repr

def BlockKind.text : BlockKind → String
  | .conditional => "conditional"
  | .loop => "loop"
  | .elseBranch => "else branch"

/-- Misuse of the blocks of an emitter. -/
inductive BlockFault where
  | notInLoop
  | noneOpen (kind : BlockKind)
  | leftOpen (count : Nat)
deriving DecidableEq, Repr

def BlockFault.message : BlockFault → String
  | .notInLoop => "break or continue outside of a loop"
  | .noneOpen kind => "no open " ++ kind.text ++ " to close"
  | .leftOpen count => s!"{count} control-flow frame(s) left open"

/-- Why types do not fit. -/
inductive TypeFault where
  | condition (found : Ty)
  | operands (op : Source.BinaryOp) (left right : Ty)
  | badLiteral (text kind : String)
  | unknownEscape (c : Char)
  | openEscape
  | notNegatable (found : Ty)
  | assignment (name : String) (target value : Ty)
  | initializer (name : String) (target value : Ty)
  | returned (expected found : Ty)
  | voidVariable (name : String)
  | voidField (name : String)
  | voidParameter (name : String)
  | voidElement
  | valueCount (name : String) (expected : Ty) (count : Nat)
  | annotationValue (expected found : Ty)
  | nestedType (expected : Ty) (name : String)
  | stated (message : String)
deriving DecidableEq, Repr

def TypeFault.message : TypeFault → String
  | .condition found => "condition must be int, found " ++ found.text
  | .operands op left right =>
    "operator '" ++ op.symbol ++ "' cannot be applied to " ++ left.text ++ " and " ++ right.text
  | .badLiteral text kind => "'" ++ text ++ "' is not a valid " ++ kind ++ " literal"
  | .unknownEscape c => "unknown escape sequence '\\" ++ c.toString ++ "'"
  | .openEscape => "string literal ends inside an escape sequence"
  | .notNegatable found => "cannot negate " ++ found.text
  | .assignment name target value =>
    "cannot assign " ++ value.text ++ " to '" ++ name ++ "' of type " ++ target.text
  | .initializer name target value =>
    "cannot initialize '" ++ name ++ "' of type " ++ target.text ++ " with " ++ value.text
  | .returned expected found => "method returns " ++ expected.text ++ ", found " ++ found.text
  | .voidVariable name => "variable '" ++ name ++ "' cannot be void"
  | .voidField name => "field '" ++ name ++ "' cannot be void"
  | .voidParameter name => "parameter '" ++ name ++ "' cannot be void"
  | .voidElement => "void cannot be an array element"
  | .valueCount name expected count =>
    "'" ++ name ++ "' takes exactly one value of type " ++ expected.text ++ s!", found {count}"
  | .annotationValue expected found => "expected " ++ expected.text ++ ", found " ++ found.text
  | .nestedType expected name => "expected " ++ expected.text ++ ", found annotation " ++ name
  | .stated message => message

/-- Why a member cannot be declared or used in this way. -/
inductive AccessFault where
  | staticAbstract (name : String)
  | constructorShape
  | superInStatic
  | interfaceInstance (name : String)
  | noSuperclass (name : String)
  | noSuperclassToInitialize (name : String)
  | constructorCall
  | fieldUsed (name : String)
  | fieldAssigned (name : String)
  | noMembers (member : String) (type : Ty)
  | stated (message : String)
deriving DecidableEq, Repr

def AccessFault.message : AccessFault → String
  | .staticAbstract name => "static method '" ++ name ++ "' cannot be abstract"
  | .constructorShape => "constructor must be a non-static void method"
  | .superInStatic => "super is not available in a static method"
  | .interfaceInstance name => "cannot instantiate interface " ++ name
  | .noSuperclass name => name ++ " has no superclass"
  | .noSuperclassToInitialize name => name ++ " has no superclass to initialize"
  | .constructorCall => "constructor calls are only allowed inside a constructor"
  | .fieldUsed name => "instance field '" ++ name ++ "' used from a static method"
  | .fieldAssigned name => "instance field '" ++ name ++ "' assigned from a static method"
  | .noMembers member type => "cannot access '" ++ member ++ "' on " ++ type.text
  | .stated message => message

/-- Why control flow is not well nested. -/
inductive FlowFault where
  | outsideLoop (what : String)
  | misnested (what : String) (fault : BlockFault)
  | unclosed (fault : BlockFault)
  | stated (message : String)
deriving DecidableEq, Repr

def FlowFault.message : FlowFault → String
  | .outsideLoop what => what ++ " outside of a loop"
  | .misnested what fault => what ++ ": " ++ fault.message
  | .unclosed fault => fault.message
  | .stated message => message

/-- What a statement does with a fault of the emitter's blocks. -/
def FlowFault.ofBlock (what : String) : BlockFault → FlowFault
  | .notInLoop => .outsideLoop what
  | fault => .misnested what fault

/-- What the language, the dialect or the target does not have. -/
inductive Unsupported where
  | constructorBody
  | interfaceBase (name : String)
  | interfaceField (name field : String)
  | interfaceConstructor (name : String)
  | interfaceNative (name method : String)
  | interfaceBody (name method : String)
  | tooManyLocals
  | opaqueType
  | emptyExpression
  | missingOperand (op : Source.BinaryOp)
  | emptyChain
  | bareSuper
  | chainStart
  | interfaces (dialect : String)
  | annotations (dialect : String)
  | staticInterfaceMethod (name : String) (release : Nat)
  | duplicateField (name : String)
  | duplicateMethod (method : String)
  | nativeBody (name : String)
  | parameterSlots (name : String) (slots limit : Nat)
  | settingNotRelease (setting text : String)
  | settingNotCount (setting text : String)
  | unknownDialect (name : String)
  | stated (message : String)
deriving DecidableEq, Repr

def Unsupported.message : Unsupported → String
  | .constructorBody => "constructor must have a body and cannot be native"
  | .interfaceBase name => "interface " ++ name ++ " cannot extend a class"
  | .interfaceField name field => "interface " ++ name ++ " cannot contain field '" ++ field ++ "'"
  | .interfaceConstructor name => "interface " ++ name ++ " cannot declare a constructor"
  | .interfaceNative name method => "interface " ++ name ++ " cannot declare native method '" ++ method ++ "'"
  | .interfaceBody name method => "interface " ++ name ++ " cannot implement instance method '" ++ method ++ "'"
  | .tooManyLocals => "too many local variables"
  | .opaqueType => "arrays, bools, bytes, chars and shorts have only black-box support"
  | .emptyExpression => "empty expression"
  | .missingOperand op => "operator '" ++ op.symbol ++ "' is missing an operand"
  | .emptyChain => "empty access chain"
  | .bareSuper => "super must be followed by a method call"
  | .chainStart => "string literals and super may only start a chain"
  | .interfaces dialect => "interfaces are not supported in the " ++ dialect ++ " dialect"
  | .annotations dialect => "annotations are not supported in the " ++ dialect ++ " dialect"
  | .staticInterfaceMethod name release =>
    "static interface method '" ++ name ++ s!"' needs target 8 or later, not {release}"
  | .duplicateField name => "duplicate field '" ++ name ++ "'"
  | .duplicateMethod method => "duplicate method " ++ method
  | .nativeBody name => "native method '" ++ name ++ "' cannot have a body"
  | .parameterSlots name slots limit =>
    "method '" ++ name ++ s!"' takes {slots} parameter slots, more than {limit}"
  | .settingNotRelease setting text => setting ++ " must be a release number, got '" ++ text ++ "'"
  | .settingNotCount setting text => setting ++ " must be a thread count, got '" ++ text ++ "'"
  | .unknownDialect name => "unknown dialect '" ++ name ++ "'"
  | .stated message => message

/-- Why the supertypes of a class are no hierarchy. -/
inductive HierarchyFault where
  | ownSupertype
  | tooDeep (limit : Nat)
  | cycle (name : String)
  | stated (message : String)
deriving DecidableEq, Repr

def HierarchyFault.message : HierarchyFault → String
  | .ownSupertype => "a class cannot be its own supertype"
  | .tooDeep limit => s!"deeper than {limit} levels"
  | .cycle name => name ++ " inherits from itself"
  | .stated message => message

/-- Why a class file could not be made or read. -/
inductive ClassFault where
  | format (error : FormatError)
  | notAnArchive
  | badFileName (name : String)
  | stated (message : String)
deriving DecidableEq, Repr

def ClassFault.message : ClassFault → String
  | .format error => error.message
  | .notAnArchive => "opening jar: invalid Zip archive: Invalid zip header"
  | .badFileName name => "reading " ++ name ++ ": file name contained an unexpected NUL byte"
  | .stated message => message

inductive CompileError where
  | unknownSymbol (name : String) (span : Span)
  | unknownClass (name : String) (span : Span)
  | unknownField (name owner : String) (span : Span)
  | unknownMethod (name params owner : String) (span : Span)
  | typeMismatch (fault : TypeFault) (span : Span)
  | invalidConversion (source target : String) (span : Span)
  | invalidAccess (fault : AccessFault) (span : Span)
  | notStatic (member owner : String) (span : Span)
  | duplicateLocal (name : String) (span : Span)
  | invalidControlFlow (fault : FlowFault) (span : Span)
  | unsupported (what : Unsupported) (span : Span)
  | duplicateClass (name : String)
  | ambiguousImport (short first second : String) (span : Span)
  | malformedHierarchy (name : String) (fault : HierarchyFault)
  | unsupportedTarget (release : Nat)
  | classFormat (fault : ClassFault)
  | badSource (message : String) (span : Span)
deriving DecidableEq, Repr

namespace CompileError

/-- Where the error is, if it has a place. -/
def span? : CompileError → Option Span
  | .unknownSymbol _ s | .unknownClass _ s | .unknownField _ _ s | .unknownMethod _ _ _ s | .typeMismatch _ s
  | .invalidConversion _ _ s | .invalidAccess _ s | .notStatic _ _ s | .duplicateLocal _ s
  | .invalidControlFlow _ s | .unsupported _ s | .ambiguousImport _ _ _ s | .badSource _ s => some s
  | .duplicateClass _ | .malformedHierarchy _ _ | .unsupportedTarget _ | .classFormat _ => none

/-- The text without the place. -/
def detail : CompileError → String
  | .unknownSymbol name _ => "unknown symbol '" ++ name ++ "'"
  | .unknownClass name _ => "unknown class '" ++ name ++ "'"
  | .unknownField name owner _ => "unknown field '" ++ name ++ "' in " ++ owner
  | .unknownMethod name params owner _ => "unknown method '" ++ name ++ "(" ++ params ++ ")' in " ++ owner
  | .typeMismatch fault _ => fault.message
  | .invalidConversion source target _ => "could not convert " ++ source ++ " to " ++ target
  | .invalidAccess fault _ => fault.message
  | .notStatic member owner _ => member ++ " is not static in " ++ owner
  | .duplicateLocal name _ => "variable '" ++ name ++ "' already declared"
  | .invalidControlFlow fault _ => fault.message
  | .unsupported what _ => "unsupported: " ++ what.message
  | .duplicateClass name => "duplicate class '" ++ name ++ "' in source set"
  | .ambiguousImport short first second _ => "'" ++ short ++ "' imported as both " ++ first ++ " and " ++ second
  | .malformedHierarchy name fault => "malformed hierarchy for '" ++ name ++ "': " ++ fault.message
  | .unsupportedTarget release => s!"unsupported target: {release}"
  | .classFormat fault => "class format: " ++ fault.message
  | .badSource message _ => "syntax error: " ++ message

def message (e : CompileError) : String :=
  match e.span? with
  | some s => "at " ++ s.text ++ ": " ++ e.detail
  | none => e.detail

/-- Puts a failed lookup that has no place in the source at `site`. -/
def locate (e : CompileError) (site : Span) : CompileError :=
  match e with
  | .unknownClass name s => if s.isSynthetic then .unknownClass name site else e
  | .unknownSymbol name s => if s.isSynthetic then .unknownSymbol name site else e
  | e => e

def ofFormat (e : FormatError) : CompileError := .classFormat (.format e)

end CompileError

end Classwright
