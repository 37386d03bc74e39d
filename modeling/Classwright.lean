import Classwright.Bytecode.Instr
import Classwright.Bytecode.Opcode
import Classwright.Bytecode.Placement
import Classwright.ClassFile.Access
import Classwright.ClassFile.Annotation
import Classwright.ClassFile.Assembly
import Classwright.ClassFile.Basic
import Classwright.ClassFile.Bytes
import Classwright.ClassFile.Constant
import Classwright.ClassFile.ConstantPool
import Classwright.ClassFile.Encoding
import Classwright.ClassFile.Error
import Classwright.ClassFile.Parsed
import Classwright.ClassFile.StackMap
import Classwright.Classes.FileTree
import Classwright.Classes.Hierarchy
import Classwright.Classes.Imports
import Classwright.Classes.Lookup
import Classwright.Classes.Platform
import Classwright.Classes.Provider
import Classwright.Classes.Table
import Classwright.Compiler.Basic
import Classwright.Compiler.Declared
import Classwright.Compiler.Unit
import Classwright.Error
import Classwright.Lowering.Annotation
import Classwright.Lowering.Body
import Classwright.Lowering.Call
import Classwright.Lowering.Context
import Classwright.Lowering.Conversion
import Classwright.Lowering.Emitter
import Classwright.Lowering.Expr
import Classwright.Lowering.Literal
import Classwright.Lowering.Operator
import Classwright.Lowering.Scope
import Classwright.Lowering.Stmt
import Classwright.Name
import Classwright.Number.Binary
import Classwright.Number.Reading
import Classwright.Number.Rendering
import Classwright.Number.Shortest
import Classwright.Options
import Classwright.Proofs.ClassFile.Disassembly
import Classwright.Proofs.Frames.Paths
import Classwright.Proofs.Simulation.Method
import Classwright.Signature.Basic
import Classwright.Signature.Rules
import Classwright.Source.Declaration
import Classwright.Source.Expr
import Classwright.Source.Operator
import Classwright.Source.Span
import Classwright.Source.Stmt
import Classwright.Target
import Classwright.Text.Blank
import Classwright.Text.ModifiedUtf8
import Classwright.Text.Printed
import Classwright.Text.Quoted
import Classwright.Ty.Basic
import Classwright.Ty.Descriptor
import Classwright.Verify.Dataflow
import Classwright.Verify.Frame
import Classwright.Verify.Transfer
import Classwright.Verify.VType
import Classwright.Proofs.Typing.Call
import Classwright.Proofs.Typing.Entry
import Classwright.Proofs.Typing.Expr
import Classwright.Proofs.Typing.Method
import Classwright.Proofs.Frames.Receiver
import Classwright.Proofs.Lowering.Constructors
import Classwright.Proofs.Lowering.Members
import Classwright.Proofs.Lowering.Nesting
import Classwright.Proofs.Typing.Initialization
import Classwright.Proofs.ClassFile.MapDecoder
import Classwright.Proofs.ClassFile.MapEntries
import Classwright.Proofs.ClassFile.Spelling
import Classwright.Proofs.ClassFile.StackMap
import Classwright.Proofs.Compiler.Ledger
import Classwright.Proofs.Compiler.Schedules
import Classwright.Proofs.Text.ModifiedUtf8
import Classwright.Proofs.ClassFile.Sequential
import Classwright.Proofs.ClassFile.RoundTrip
import Classwright.Proofs.Compiler.Declared
import Classwright.Proofs.Compiler.Introspection
import Classwright.Proofs.Frames.Once
import Classwright.Proofs.Typing.FirstCall
import Classwright.Proofs.Lowering.Precedence
import Classwright.Proofs.Compiler.Rules
import Classwright.Proofs.Frames.Limits
import Classwright.Proofs.Lowering.Accesses
import Classwright.Proofs.Compiler.Variables
import Classwright.Proofs.Classes.Cycles
import Classwright.Proofs.Frames.Joins
import Classwright.Proofs.Frames.Least
import Classwright.Proofs.Effects.Instr
import Classwright.Proofs.Effects.Stretch
import Classwright.Proofs.Effects.Expr
import Classwright.Proofs.ClassFile.PoolInvariant
import Classwright.Proofs.Classes.Depth
import Classwright.Proofs.ClassFile.Truncation
import Classwright.Proofs.Frames.Parameters
import Classwright.Proofs.Lowering.Annotations
import Classwright.Proofs.Classes.Asking
import Classwright.Proofs.Classes.Stack
import Classwright.Proofs.Frames.Termination
import Classwright.Proofs.ClassFile.Counts
import Classwright.Proofs.Frames.Pairs
import Classwright.Proofs.Frames.Sites
