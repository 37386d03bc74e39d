/-! # Operation codes

The instructions of the virtual machine that compiled code uses, with the forms that the assembler picks by itself. -/

namespace Classwright

inductive Opcode where
  | nop | aconstNull | iconstM1 | iconst0 | iconst1 | iconst2 | iconst3 | iconst4 | iconst5 | lconst0 | lconst1
  | fconst0 | fconst1 | fconst2 | dconst0 | dconst1 | bipush | sipush | ldc | ldcW | ldc2W | iload | lload | fload
  | dload | aload | iload0 | lload0 | fload0 | dload0 | aload0 | istore | lstore | fstore | dstore | astore
  | istore0 | lstore0 | fstore0 | dstore0 | astore0 | pop | pop2 | dup | dupX1 | dup2 | dup2X1 | swap | iadd | ladd
  | fadd | dadd | isub | lsub | fsub | dsub | imul | lmul | fmul | dmul | idiv | ldiv | fdiv | ddiv | irem | lrem
  | frem | drem | ineg | lneg | fneg | dneg | ishl | lshl | ishr | lshr | iushr | lushr | iand | land | ior | lor
  | ixor | lxor | i2l | i2f | i2d | l2i | l2f | l2d | f2i | f2l | f2d | d2i | d2l | d2f | i2b | i2c | i2s | lcmp
  | fcmpl | fcmpg | dcmpl | dcmpg | ifeq | ifne | iflt | ifge | ifgt | ifle | ifIcmpeq | ifIcmpne | ifIcmplt
  | ifIcmpge | ifIcmpgt | ifIcmple | ifAcmpeq | ifAcmpne | goto | ireturn | lreturn | freturn | dreturn | areturn
  | returnVoid | getstatic | putstatic | getfield | putfield | invokevirtual | invokespecial | invokestatic
  | invokeinterface | new | athrow | checkcast | wide | ifnull | ifnonnull
deriving DecidableEq, Hashable, Repr, Inhabited

namespace Opcode

def all : List Opcode :=
  [.nop, .aconstNull, .iconstM1, .iconst0, .iconst1, .iconst2, .iconst3, .iconst4, .iconst5, .lconst0, .lconst1,
  .fconst0, .fconst1, .fconst2, .dconst0, .dconst1, .bipush, .sipush, .ldc, .ldcW, .ldc2W, .iload, .lload, .fload,
  .dload, .aload, .iload0, .lload0, .fload0, .dload0, .aload0, .istore, .lstore, .fstore, .dstore, .astore,
  .istore0, .lstore0, .fstore0, .dstore0, .astore0, .pop, .pop2, .dup, .dupX1, .dup2, .dup2X1, .swap, .iadd, .ladd,
  .fadd, .dadd, .isub, .lsub, .fsub, .dsub, .imul, .lmul, .fmul, .dmul, .idiv, .ldiv, .fdiv, .ddiv, .irem, .lrem,
  .frem, .drem, .ineg, .lneg, .fneg, .dneg, .ishl, .lshl, .ishr, .lshr, .iushr, .lushr, .iand, .land, .ior, .lor,
  .ixor, .lxor, .i2l, .i2f, .i2d, .l2i, .l2f, .l2d, .f2i, .f2l, .f2d, .d2i, .d2l, .d2f, .i2b, .i2c, .i2s, .lcmp,
  .fcmpl, .fcmpg, .dcmpl, .dcmpg, .ifeq, .ifne, .iflt, .ifge, .ifgt, .ifle, .ifIcmpeq, .ifIcmpne, .ifIcmplt,
  .ifIcmpge, .ifIcmpgt, .ifIcmple, .ifAcmpeq, .ifAcmpne, .goto, .ireturn, .lreturn, .freturn, .dreturn, .areturn,
  .returnVoid, .getstatic, .putstatic, .getfield, .putfield, .invokevirtual, .invokespecial, .invokestatic,
  .invokeinterface, .new, .athrow, .checkcast, .wide, .ifnull, .ifnonnull]

/-- The operation code as it stands in the code array. -/
def byte : Opcode → UInt8
  | .nop => 0x00
  | .aconstNull => 0x01
  | .iconstM1 => 0x02
  | .iconst0 => 0x03
  | .iconst1 => 0x04
  | .iconst2 => 0x05
  | .iconst3 => 0x06
  | .iconst4 => 0x07
  | .iconst5 => 0x08
  | .lconst0 => 0x09
  | .lconst1 => 0x0a
  | .fconst0 => 0x0b
  | .fconst1 => 0x0c
  | .fconst2 => 0x0d
  | .dconst0 => 0x0e
  | .dconst1 => 0x0f
  | .bipush => 0x10
  | .sipush => 0x11
  | .ldc => 0x12
  | .ldcW => 0x13
  | .ldc2W => 0x14
  | .iload => 0x15
  | .lload => 0x16
  | .fload => 0x17
  | .dload => 0x18
  | .aload => 0x19
  | .iload0 => 0x1a
  | .lload0 => 0x1e
  | .fload0 => 0x22
  | .dload0 => 0x26
  | .aload0 => 0x2a
  | .istore => 0x36
  | .lstore => 0x37
  | .fstore => 0x38
  | .dstore => 0x39
  | .astore => 0x3a
  | .istore0 => 0x3b
  | .lstore0 => 0x3f
  | .fstore0 => 0x43
  | .dstore0 => 0x47
  | .astore0 => 0x4b
  | .pop => 0x57
  | .pop2 => 0x58
  | .dup => 0x59
  | .dupX1 => 0x5a
  | .dup2 => 0x5c
  | .dup2X1 => 0x5d
  | .swap => 0x5f
  | .iadd => 0x60
  | .ladd => 0x61
  | .fadd => 0x62
  | .dadd => 0x63
  | .isub => 0x64
  | .lsub => 0x65
  | .fsub => 0x66
  | .dsub => 0x67
  | .imul => 0x68
  | .lmul => 0x69
  | .fmul => 0x6a
  | .dmul => 0x6b
  | .idiv => 0x6c
  | .ldiv => 0x6d
  | .fdiv => 0x6e
  | .ddiv => 0x6f
  | .irem => 0x70
  | .lrem => 0x71
  | .frem => 0x72
  | .drem => 0x73
  | .ineg => 0x74
  | .lneg => 0x75
  | .fneg => 0x76
  | .dneg => 0x77
  | .ishl => 0x78
  | .lshl => 0x79
  | .ishr => 0x7a
  | .lshr => 0x7b
  | .iushr => 0x7c
  | .lushr => 0x7d
  | .iand => 0x7e
  | .land => 0x7f
  | .ior => 0x80
  | .lor => 0x81
  | .ixor => 0x82
  | .lxor => 0x83
  | .i2l => 0x85
  | .i2f => 0x86
  | .i2d => 0x87
  | .l2i => 0x88
  | .l2f => 0x89
  | .l2d => 0x8a
  | .f2i => 0x8b
  | .f2l => 0x8c
  | .f2d => 0x8d
  | .d2i => 0x8e
  | .d2l => 0x8f
  | .d2f => 0x90
  | .i2b => 0x91
  | .i2c => 0x92
  | .i2s => 0x93
  | .lcmp => 0x94
  | .fcmpl => 0x95
  | .fcmpg => 0x96
  | .dcmpl => 0x97
  | .dcmpg => 0x98
  | .ifeq => 0x99
  | .ifne => 0x9a
  | .iflt => 0x9b
  | .ifge => 0x9c
  | .ifgt => 0x9d
  | .ifle => 0x9e
  | .ifIcmpeq => 0x9f
  | .ifIcmpne => 0xa0
  | .ifIcmplt => 0xa1
  | .ifIcmpge => 0xa2
  | .ifIcmpgt => 0xa3
  | .ifIcmple => 0xa4
  | .ifAcmpeq => 0xa5
  | .ifAcmpne => 0xa6
  | .goto => 0xa7
  | .ireturn => 0xac
  | .lreturn => 0xad
  | .freturn => 0xae
  | .dreturn => 0xaf
  | .areturn => 0xb0
  | .returnVoid => 0xb1
  | .getstatic => 0xb2
  | .putstatic => 0xb3
  | .getfield => 0xb4
  | .putfield => 0xb5
  | .invokevirtual => 0xb6
  | .invokespecial => 0xb7
  | .invokestatic => 0xb8
  | .invokeinterface => 0xb9
  | .new => 0xbb
  | .athrow => 0xbf
  | .checkcast => 0xc0
  | .wide => 0xc4
  | .ifnull => 0xc6
  | .ifnonnull => 0xc7

def ofByte? (b : UInt8) : Option Opcode := all.find? (·.byte == b)

/-- The name as messages show it. -/
def name : Opcode → String
  | .nop => "Nop"
  | .aconstNull => "AconstNull"
  | .iconstM1 => "IconstM1"
  | .iconst0 => "Iconst0"
  | .iconst1 => "Iconst1"
  | .iconst2 => "Iconst2"
  | .iconst3 => "Iconst3"
  | .iconst4 => "Iconst4"
  | .iconst5 => "Iconst5"
  | .lconst0 => "Lconst0"
  | .lconst1 => "Lconst1"
  | .fconst0 => "Fconst0"
  | .fconst1 => "Fconst1"
  | .fconst2 => "Fconst2"
  | .dconst0 => "Dconst0"
  | .dconst1 => "Dconst1"
  | .bipush => "Bipush"
  | .sipush => "Sipush"
  | .ldc => "Ldc"
  | .ldcW => "LdcW"
  | .ldc2W => "Ldc2W"
  | .iload => "Iload"
  | .lload => "Lload"
  | .fload => "Fload"
  | .dload => "Dload"
  | .aload => "Aload"
  | .iload0 => "Iload0"
  | .lload0 => "Lload0"
  | .fload0 => "Fload0"
  | .dload0 => "Dload0"
  | .aload0 => "Aload0"
  | .istore => "Istore"
  | .lstore => "Lstore"
  | .fstore => "Fstore"
  | .dstore => "Dstore"
  | .astore => "Astore"
  | .istore0 => "Istore0"
  | .lstore0 => "Lstore0"
  | .fstore0 => "Fstore0"
  | .dstore0 => "Dstore0"
  | .astore0 => "Astore0"
  | .pop => "Pop"
  | .pop2 => "Pop2"
  | .dup => "Dup"
  | .dupX1 => "DupX1"
  | .dup2 => "Dup2"
  | .dup2X1 => "Dup2X1"
  | .swap => "Swap"
  | .iadd => "Iadd"
  | .ladd => "Ladd"
  | .fadd => "Fadd"
  | .dadd => "Dadd"
  | .isub => "Isub"
  | .lsub => "Lsub"
  | .fsub => "Fsub"
  | .dsub => "Dsub"
  | .imul => "Imul"
  | .lmul => "Lmul"
  | .fmul => "Fmul"
  | .dmul => "Dmul"
  | .idiv => "Idiv"
  | .ldiv => "Ldiv"
  | .fdiv => "Fdiv"
  | .ddiv => "Ddiv"
  | .irem => "Irem"
  | .lrem => "Lrem"
  | .frem => "Frem"
  | .drem => "Drem"
  | .ineg => "Ineg"
  | .lneg => "Lneg"
  | .fneg => "Fneg"
  | .dneg => "Dneg"
  | .ishl => "Ishl"
  | .lshl => "Lshl"
  | .ishr => "Ishr"
  | .lshr => "Lshr"
  | .iushr => "Iushr"
  | .lushr => "Lushr"
  | .iand => "Iand"
  | .land => "Land"
  | .ior => "Ior"
  | .lor => "Lor"
  | .ixor => "Ixor"
  | .lxor => "Lxor"
  | .i2l => "I2l"
  | .i2f => "I2f"
  | .i2d => "I2d"
  | .l2i => "L2i"
  | .l2f => "L2f"
  | .l2d => "L2d"
  | .f2i => "F2i"
  | .f2l => "F2l"
  | .f2d => "F2d"
  | .d2i => "D2i"
  | .d2l => "D2l"
  | .d2f => "D2f"
  | .i2b => "I2b"
  | .i2c => "I2c"
  | .i2s => "I2s"
  | .lcmp => "Lcmp"
  | .fcmpl => "Fcmpl"
  | .fcmpg => "Fcmpg"
  | .dcmpl => "Dcmpl"
  | .dcmpg => "Dcmpg"
  | .ifeq => "Ifeq"
  | .ifne => "Ifne"
  | .iflt => "Iflt"
  | .ifge => "Ifge"
  | .ifgt => "Ifgt"
  | .ifle => "Ifle"
  | .ifIcmpeq => "IfIcmpeq"
  | .ifIcmpne => "IfIcmpne"
  | .ifIcmplt => "IfIcmplt"
  | .ifIcmpge => "IfIcmpge"
  | .ifIcmpgt => "IfIcmpgt"
  | .ifIcmple => "IfIcmple"
  | .ifAcmpeq => "IfAcmpeq"
  | .ifAcmpne => "IfAcmpne"
  | .goto => "Goto"
  | .ireturn => "Ireturn"
  | .lreturn => "Lreturn"
  | .freturn => "Freturn"
  | .dreturn => "Dreturn"
  | .areturn => "Areturn"
  | .returnVoid => "Return"
  | .getstatic => "Getstatic"
  | .putstatic => "Putstatic"
  | .getfield => "Getfield"
  | .putfield => "Putfield"
  | .invokevirtual => "Invokevirtual"
  | .invokespecial => "Invokespecial"
  | .invokestatic => "Invokestatic"
  | .invokeinterface => "Invokeinterface"
  | .new => "New"
  | .athrow => "Athrow"
  | .checkcast => "Checkcast"
  | .wide => "Wide"
  | .ifnull => "Ifnull"
  | .ifnonnull => "Ifnonnull"

/-- The name in lower case, with an underscore before every capital but the first. -/
def mnemonic (op : Opcode) : String :=
  match op.name.toList with
  | [] => ""
  | c :: rest => String.ofList (c.toLower :: rest.flatMap fun c => if c.isUpper then ['_', c.toLower] else [c])

/-- A branch with a 16-bit offset. -/
def isJump : Opcode → Bool
  | .ifeq | .ifne | .iflt | .ifge | .ifgt | .ifle | .ifIcmpeq | .ifIcmpne | .ifIcmplt | .ifIcmpge | .ifIcmpgt
  | .ifIcmple | .ifAcmpeq | .ifAcmpne | .goto | .ifnull | .ifnonnull => true
  | _ => false

/-- Control never reaches the next instruction. -/
def endsBlock : Opcode → Bool
  | .goto | .ireturn | .lreturn | .freturn | .dreturn | .areturn | .returnVoid | .athrow => true
  | _ => false

end Opcode

end Classwright
