import ScriptKit.Bytes.LittleEndian

namespace ScriptKit

/-- What follows an opcode in a script. -/
inductive OperandRule where
  /-- Nothing. -/
  | none
  /-- Exactly so many bytes. -/
  | fixed (width : Nat)
  /-- A little-endian length of so many bytes, then that many bytes. -/
  | counted (width : Nat)
deriving DecidableEq, Repr

namespace OperandRule

/-- The number of operand bytes that the rule fixes. -/
def fixedLength : OperandRule → Nat
  | fixed width => width
  | _ => 0

/-- The longest payload whose length fits the length field. -/
def maxPayload : OperandRule → Nat
  | counted width => LittleEndian.count width - 1
  | _ => 0

end OperandRule

/-- The instruction set, in the order of the opcode bytes. -/
inductive Opcode where
  -- constants
  | pushInt8 | pushInt16 | pushInt32 | pushInt64 | pushInt128 | pushInt256 | pushT | pushF | pushA
  | pushNull | pushData1 | pushData2 | pushData4 | pushM1 | push0 | push1 | push2 | push3 | push4
  | push5 | push6 | push7 | push8 | push9 | push10 | push11 | push12 | push13 | push14 | push15
  | push16
  -- flow control
  | nop | jmp | jmpL | jmpIf | jmpIfL | jmpIfNot | jmpIfNotL | jmpEq | jmpEqL | jmpNe | jmpNeL
  | jmpGt | jmpGtL | jmpGe | jmpGeL | jmpLt | jmpLtL | jmpLe | jmpLeL | call | callL | callA
  | callT | abort | assert | throw | tryOp | tryOpL | endTry | endTryL | endFinally | ret | syscall
  -- stack
  | depth | drop | nip | xdrop | clear | dup | overOp | pick | tuck | swap | rot | roll | reverse3
  | reverse4 | reverseN
  -- slot
  | initStaticSlot | initSlot | loadStatic0 | loadStatic1 | loadStatic2 | loadStatic3 | loadStatic4
  | loadStatic5 | loadStatic6 | loadStatic | storeStatic0 | storeStatic1 | storeStatic2
  | storeStatic3 | storeStatic4 | storeStatic5 | storeStatic6 | storeStatic | loadLocal0
  | loadLocal1 | loadLocal2 | loadLocal3 | loadLocal4 | loadLocal5 | loadLocal6 | loadLocal
  | storeLocal0 | storeLocal1 | storeLocal2 | storeLocal3 | storeLocal4 | storeLocal5 | storeLocal6
  | storeLocal | loadArg0 | loadArg1 | loadArg2 | loadArg3 | loadArg4 | loadArg5 | loadArg6
  | loadArg | storeArg0 | storeArg1 | storeArg2 | storeArg3 | storeArg4 | storeArg5 | storeArg6
  | storeArg
  -- splice
  | newBuffer | memCpy | cat | substr | left | right
  -- bitwise logic
  | invert | and | or | xor | equal | notEqual
  -- arithmetic
  | sign | abs | negate | inc | dec | add | sub | mul | div | mod | pow | sqrt | modMul | modPow
  | shl | shr | not | boolAnd | boolOr | nz | numEqual | numNotEqual | lt | le | gt | ge | min
  | max | within
  -- compound types
  | packMap | packStruct | pack | unpack | newArray0 | newArray | newArrayT | newStruct0
  | newStruct | newMap | size | hasKey | keys | values | pickItem | append | setItem | reverseItems
  | remove | clearItems | popItem
  -- types
  | isNull | isType | convert
  -- extensions
  | abortMsg | assertMsg
deriving DecidableEq, Inhabited

namespace Opcode

/-- The row of an opcode in the table of the instruction set. -/
structure Entry where
  code : UInt8
  mnemonic : String
  price : Nat
  operand : OperandRule

/-- The table of the instruction set. -/
def entry : Opcode → Entry
  | pushInt8 => ⟨0x00, "PUSHINT8", 1, .fixed 1⟩
  | pushInt16 => ⟨0x01, "PUSHINT16", 1, .fixed 2⟩
  | pushInt32 => ⟨0x02, "PUSHINT32", 1, .fixed 4⟩
  | pushInt64 => ⟨0x03, "PUSHINT64", 1, .fixed 8⟩
  | pushInt128 => ⟨0x04, "PUSHINT128", 4, .fixed 16⟩
  | pushInt256 => ⟨0x05, "PUSHINT256", 4, .fixed 32⟩
  | pushT => ⟨0x08, "PUSHT", 1, .none⟩
  | pushF => ⟨0x09, "PUSHF", 1, .none⟩
  | pushA => ⟨0x0a, "PUSHA", 4, .fixed 4⟩
  | pushNull => ⟨0x0b, "PUSHNULL", 1, .none⟩
  | pushData1 => ⟨0x0c, "PUSHDATA1", 8, .counted 1⟩
  | pushData2 => ⟨0x0d, "PUSHDATA2", 512, .counted 2⟩
  | pushData4 => ⟨0x0e, "PUSHDATA4", 4096, .counted 4⟩
  | pushM1 => ⟨0x0f, "PUSHM1", 1, .none⟩
  | push0 => ⟨0x10, "PUSH0", 1, .none⟩
  | push1 => ⟨0x11, "PUSH1", 1, .none⟩
  | push2 => ⟨0x12, "PUSH2", 1, .none⟩
  | push3 => ⟨0x13, "PUSH3", 1, .none⟩
  | push4 => ⟨0x14, "PUSH4", 1, .none⟩
  | push5 => ⟨0x15, "PUSH5", 1, .none⟩
  | push6 => ⟨0x16, "PUSH6", 1, .none⟩
  | push7 => ⟨0x17, "PUSH7", 1, .none⟩
  | push8 => ⟨0x18, "PUSH8", 1, .none⟩
  | push9 => ⟨0x19, "PUSH9", 1, .none⟩
  | push10 => ⟨0x1a, "PUSH10", 1, .none⟩
  | push11 => ⟨0x1b, "PUSH11", 1, .none⟩
  | push12 => ⟨0x1c, "PUSH12", 1, .none⟩
  | push13 => ⟨0x1d, "PUSH13", 1, .none⟩
  | push14 => ⟨0x1e, "PUSH14", 1, .none⟩
  | push15 => ⟨0x1f, "PUSH15", 1, .none⟩
  | push16 => ⟨0x20, "PUSH16", 1, .none⟩
  | nop => ⟨0x21, "NOP", 1, .none⟩
  | jmp => ⟨0x22, "JMP", 2, .fixed 1⟩
  | jmpL => ⟨0x23, "JMP_L", 2, .fixed 4⟩
  | jmpIf => ⟨0x24, "JMPIF", 2, .fixed 1⟩
  | jmpIfL => ⟨0x25, "JMPIF_L", 2, .fixed 4⟩
  | jmpIfNot => ⟨0x26, "JMPIFNOT", 2, .fixed 1⟩
  | jmpIfNotL => ⟨0x27, "JMPIFNOT_L", 2, .fixed 4⟩
  | jmpEq => ⟨0x28, "JMPEQ", 2, .fixed 1⟩
  | jmpEqL => ⟨0x29, "JMPEQ_L", 2, .fixed 4⟩
  | jmpNe => ⟨0x2a, "JMPNE", 2, .fixed 1⟩
  | jmpNeL => ⟨0x2b, "JMPNE_L", 2, .fixed 4⟩
  | jmpGt => ⟨0x2c, "JMPGT", 2, .fixed 1⟩
  | jmpGtL => ⟨0x2d, "JMPGT_L", 2, .fixed 4⟩
  | jmpGe => ⟨0x2e, "JMPGE", 2, .fixed 1⟩
  | jmpGeL => ⟨0x2f, "JMPGE_L", 2, .fixed 4⟩
  | jmpLt => ⟨0x30, "JMPLT", 2, .fixed 1⟩
  | jmpLtL => ⟨0x31, "JMPLT_L", 2, .fixed 4⟩
  | jmpLe => ⟨0x32, "JMPLE", 2, .fixed 1⟩
  | jmpLeL => ⟨0x33, "JMPLE_L", 2, .fixed 4⟩
  | call => ⟨0x34, "CALL", 512, .fixed 1⟩
  | callL => ⟨0x35, "CALL_L", 512, .fixed 4⟩
  | callA => ⟨0x36, "CALLA", 512, .none⟩
  | callT => ⟨0x37, "CALLT", 32768, .fixed 2⟩
  | abort => ⟨0x38, "ABORT", 0, .none⟩
  | assert => ⟨0x39, "ASSERT", 1, .none⟩
  | throw => ⟨0x3a, "THROW", 512, .none⟩
  | tryOp => ⟨0x3b, "TRY", 4, .fixed 2⟩
  | tryOpL => ⟨0x3c, "TRY_L", 4, .fixed 8⟩
  | endTry => ⟨0x3d, "ENDTRY", 4, .fixed 1⟩
  | endTryL => ⟨0x3e, "ENDTRY_L", 4, .fixed 4⟩
  | endFinally => ⟨0x3f, "ENDFINALLY", 4, .none⟩
  | ret => ⟨0x40, "RET", 0, .none⟩
  | syscall => ⟨0x41, "SYSCALL", 0, .fixed 4⟩
  | depth => ⟨0x43, "DEPTH", 2, .none⟩
  | drop => ⟨0x45, "DROP", 2, .none⟩
  | nip => ⟨0x46, "NIP", 2, .none⟩
  | xdrop => ⟨0x48, "XDROP", 16, .none⟩
  | clear => ⟨0x49, "CLEAR", 16, .none⟩
  | dup => ⟨0x4a, "DUP", 2, .none⟩
  | overOp => ⟨0x4b, "OVER", 2, .none⟩
  | pick => ⟨0x4d, "PICK", 2, .none⟩
  | tuck => ⟨0x4e, "TUCK", 2, .none⟩
  | swap => ⟨0x50, "SWAP", 2, .none⟩
  | rot => ⟨0x51, "ROT", 2, .none⟩
  | roll => ⟨0x52, "ROLL", 16, .none⟩
  | reverse3 => ⟨0x53, "REVERSE3", 2, .none⟩
  | reverse4 => ⟨0x54, "REVERSE4", 2, .none⟩
  | reverseN => ⟨0x55, "REVERSEN", 16, .none⟩
  | initStaticSlot => ⟨0x56, "INITSSLOT", 16, .fixed 1⟩
  | initSlot => ⟨0x57, "INITSLOT", 64, .fixed 2⟩
  | loadStatic0 => ⟨0x58, "LDSFLD0", 2, .none⟩
  | loadStatic1 => ⟨0x59, "LDSFLD1", 2, .none⟩
  | loadStatic2 => ⟨0x5a, "LDSFLD2", 2, .none⟩
  | loadStatic3 => ⟨0x5b, "LDSFLD3", 2, .none⟩
  | loadStatic4 => ⟨0x5c, "LDSFLD4", 2, .none⟩
  | loadStatic5 => ⟨0x5d, "LDSFLD5", 2, .none⟩
  | loadStatic6 => ⟨0x5e, "LDSFLD6", 2, .none⟩
  | loadStatic => ⟨0x5f, "LDSFLD", 2, .fixed 1⟩
  | storeStatic0 => ⟨0x60, "STSFLD0", 2, .none⟩
  | storeStatic1 => ⟨0x61, "STSFLD1", 2, .none⟩
  | storeStatic2 => ⟨0x62, "STSFLD2", 2, .none⟩
  | storeStatic3 => ⟨0x63, "STSFLD3", 2, .none⟩
  | storeStatic4 => ⟨0x64, "STSFLD4", 2, .none⟩
  | storeStatic5 => ⟨0x65, "STSFLD5", 2, .none⟩
  | storeStatic6 => ⟨0x66, "STSFLD6", 2, .none⟩
  | storeStatic => ⟨0x67, "STSFLD", 2, .fixed 1⟩
  | loadLocal0 => ⟨0x68, "LDLOC0", 2, .none⟩
  | loadLocal1 => ⟨0x69, "LDLOC1", 2, .none⟩
  | loadLocal2 => ⟨0x6a, "LDLOC2", 2, .none⟩
  | loadLocal3 => ⟨0x6b, "LDLOC3", 2, .none⟩
  | loadLocal4 => ⟨0x6c, "LDLOC4", 2, .none⟩
  | loadLocal5 => ⟨0x6d, "LDLOC5", 2, .none⟩
  | loadLocal6 => ⟨0x6e, "LDLOC6", 2, .none⟩
  | loadLocal => ⟨0x6f, "LDLOC", 2, .fixed 1⟩
  | storeLocal0 => ⟨0x70, "STLOC0", 2, .none⟩
  | storeLocal1 => ⟨0x71, "STLOC1", 2, .none⟩
  | storeLocal2 => ⟨0x72, "STLOC2", 2, .none⟩
  | storeLocal3 => ⟨0x73, "STLOC3", 2, .none⟩
  | storeLocal4 => ⟨0x74, "STLOC4", 2, .none⟩
  | storeLocal5 => ⟨0x75, "STLOC5", 2, .none⟩
  | storeLocal6 => ⟨0x76, "STLOC6", 2, .none⟩
  | storeLocal => ⟨0x77, "STLOC", 2, .fixed 1⟩
  | loadArg0 => ⟨0x78, "LDARG0", 2, .none⟩
  | loadArg1 => ⟨0x79, "LDARG1", 2, .none⟩
  | loadArg2 => ⟨0x7a, "LDARG2", 2, .none⟩
  | loadArg3 => ⟨0x7b, "LDARG3", 2, .none⟩
  | loadArg4 => ⟨0x7c, "LDARG4", 2, .none⟩
  | loadArg5 => ⟨0x7d, "LDARG5", 2, .none⟩
  | loadArg6 => ⟨0x7e, "LDARG6", 2, .none⟩
  | loadArg => ⟨0x7f, "LDARG", 2, .fixed 1⟩
  | storeArg0 => ⟨0x80, "STARG0", 2, .none⟩
  | storeArg1 => ⟨0x81, "STARG1", 2, .none⟩
  | storeArg2 => ⟨0x82, "STARG2", 2, .none⟩
  | storeArg3 => ⟨0x83, "STARG3", 2, .none⟩
  | storeArg4 => ⟨0x84, "STARG4", 2, .none⟩
  | storeArg5 => ⟨0x85, "STARG5", 2, .none⟩
  | storeArg6 => ⟨0x86, "STARG6", 2, .none⟩
  | storeArg => ⟨0x87, "STARG", 2, .fixed 1⟩
  | newBuffer => ⟨0x88, "NEWBUFFER", 256, .none⟩
  | memCpy => ⟨0x89, "MEMCPY", 2048, .none⟩
  | cat => ⟨0x8b, "CAT", 2048, .none⟩
  | substr => ⟨0x8c, "SUBSTR", 2048, .none⟩
  | left => ⟨0x8d, "LEFT", 2048, .none⟩
  | right => ⟨0x8e, "RIGHT", 2048, .none⟩
  | invert => ⟨0x90, "INVERT", 4, .none⟩
  | and => ⟨0x91, "AND", 8, .none⟩
  | or => ⟨0x92, "OR", 8, .none⟩
  | xor => ⟨0x93, "XOR", 8, .none⟩
  | equal => ⟨0x97, "EQUAL", 32, .none⟩
  | notEqual => ⟨0x98, "NOTEQUAL", 32, .none⟩
  | sign => ⟨0x99, "SIGN", 4, .none⟩
  | abs => ⟨0x9a, "ABS", 4, .none⟩
  | negate => ⟨0x9b, "NEGATE", 4, .none⟩
  | inc => ⟨0x9c, "INC", 4, .none⟩
  | dec => ⟨0x9d, "DEC", 4, .none⟩
  | add => ⟨0x9e, "ADD", 8, .none⟩
  | sub => ⟨0x9f, "SUB", 8, .none⟩
  | mul => ⟨0xa0, "MUL", 8, .none⟩
  | div => ⟨0xa1, "DIV", 8, .none⟩
  | mod => ⟨0xa2, "MOD", 8, .none⟩
  | pow => ⟨0xa3, "POW", 64, .none⟩
  | sqrt => ⟨0xa4, "SQRT", 64, .none⟩
  | modMul => ⟨0xa5, "MODMUL", 32, .none⟩
  | modPow => ⟨0xa6, "MODPOW", 2048, .none⟩
  | shl => ⟨0xa8, "SHL", 8, .none⟩
  | shr => ⟨0xa9, "SHR", 8, .none⟩
  | not => ⟨0xaa, "NOT", 4, .none⟩
  | boolAnd => ⟨0xab, "BOOLAND", 8, .none⟩
  | boolOr => ⟨0xac, "BOOLOR", 8, .none⟩
  | nz => ⟨0xb1, "NZ", 4, .none⟩
  | numEqual => ⟨0xb3, "NUMEQUAL", 8, .none⟩
  | numNotEqual => ⟨0xb4, "NUMNOTEQUAL", 8, .none⟩
  | lt => ⟨0xb5, "LT", 8, .none⟩
  | le => ⟨0xb6, "LE", 8, .none⟩
  | gt => ⟨0xb7, "GT", 8, .none⟩
  | ge => ⟨0xb8, "GE", 8, .none⟩
  | min => ⟨0xb9, "MIN", 8, .none⟩
  | max => ⟨0xba, "MAX", 8, .none⟩
  | within => ⟨0xbb, "WITHIN", 8, .none⟩
  | packMap => ⟨0xbe, "PACKMAP", 2048, .none⟩
  | packStruct => ⟨0xbf, "PACKSTRUCT", 2048, .none⟩
  | pack => ⟨0xc0, "PACK", 2048, .none⟩
  | unpack => ⟨0xc1, "UNPACK", 2048, .none⟩
  | newArray0 => ⟨0xc2, "NEWARRAY0", 16, .none⟩
  | newArray => ⟨0xc3, "NEWARRAY", 512, .none⟩
  | newArrayT => ⟨0xc4, "NEWARRAY_T", 512, .fixed 1⟩
  | newStruct0 => ⟨0xc5, "NEWSTRUCT0", 16, .none⟩
  | newStruct => ⟨0xc6, "NEWSTRUCT", 512, .none⟩
  | newMap => ⟨0xc8, "NEWMAP", 8, .none⟩
  | size => ⟨0xca, "SIZE", 4, .none⟩
  | hasKey => ⟨0xcb, "HASKEY", 64, .none⟩
  | keys => ⟨0xcc, "KEYS", 16, .none⟩
  | values => ⟨0xcd, "VALUES", 8192, .none⟩
  | pickItem => ⟨0xce, "PICKITEM", 64, .none⟩
  | append => ⟨0xcf, "APPEND", 8192, .none⟩
  | setItem => ⟨0xd0, "SETITEM", 8192, .none⟩
  | reverseItems => ⟨0xd1, "REVERSEITEMS", 8192, .none⟩
  | remove => ⟨0xd2, "REMOVE", 16, .none⟩
  | clearItems => ⟨0xd3, "CLEARITEMS", 16, .none⟩
  | popItem => ⟨0xd4, "POPITEM", 16, .none⟩
  | isNull => ⟨0xd8, "ISNULL", 2, .none⟩
  | isType => ⟨0xd9, "ISTYPE", 2, .fixed 1⟩
  | convert => ⟨0xdb, "CONVERT", 8192, .fixed 1⟩
  | abortMsg => ⟨0xe0, "ABORTMSG", 0, .none⟩
  | assertMsg => ⟨0xe1, "ASSERTMSG", 1, .none⟩

/-- All opcodes, in ascending order of their bytes. -/
def all : List Opcode :=
  [.pushInt8, .pushInt16, .pushInt32, .pushInt64, .pushInt128, .pushInt256, .pushT, .pushF, .pushA,
   .pushNull, .pushData1, .pushData2, .pushData4, .pushM1, .push0, .push1, .push2, .push3, .push4,
   .push5, .push6, .push7, .push8, .push9, .push10, .push11, .push12, .push13, .push14, .push15,
   .push16, .nop, .jmp, .jmpL, .jmpIf, .jmpIfL, .jmpIfNot, .jmpIfNotL, .jmpEq, .jmpEqL, .jmpNe,
   .jmpNeL, .jmpGt, .jmpGtL, .jmpGe, .jmpGeL, .jmpLt, .jmpLtL, .jmpLe, .jmpLeL, .call, .callL,
   .callA, .callT, .abort, .assert, .throw, .tryOp, .tryOpL, .endTry, .endTryL, .endFinally, .ret,
   .syscall, .depth, .drop, .nip, .xdrop, .clear, .dup, .overOp, .pick, .tuck, .swap, .rot, .roll,
   .reverse3, .reverse4, .reverseN, .initStaticSlot, .initSlot, .loadStatic0, .loadStatic1,
   .loadStatic2, .loadStatic3, .loadStatic4, .loadStatic5, .loadStatic6, .loadStatic,
   .storeStatic0, .storeStatic1, .storeStatic2, .storeStatic3, .storeStatic4, .storeStatic5,
   .storeStatic6, .storeStatic, .loadLocal0, .loadLocal1, .loadLocal2, .loadLocal3, .loadLocal4,
   .loadLocal5, .loadLocal6, .loadLocal, .storeLocal0, .storeLocal1, .storeLocal2, .storeLocal3,
   .storeLocal4, .storeLocal5, .storeLocal6, .storeLocal, .loadArg0, .loadArg1, .loadArg2,
   .loadArg3, .loadArg4, .loadArg5, .loadArg6, .loadArg, .storeArg0, .storeArg1, .storeArg2,
   .storeArg3, .storeArg4, .storeArg5, .storeArg6, .storeArg, .newBuffer, .memCpy, .cat, .substr,
   .left, .right, .invert, .and, .or, .xor, .equal, .notEqual, .sign, .abs, .negate, .inc, .dec,
   .add, .sub, .mul, .div, .mod, .pow, .sqrt, .modMul, .modPow, .shl, .shr, .not, .boolAnd,
   .boolOr, .nz, .numEqual, .numNotEqual, .lt, .le, .gt, .ge, .min, .max, .within, .packMap,
   .packStruct, .pack, .unpack, .newArray0, .newArray, .newArrayT, .newStruct0, .newStruct,
   .newMap, .size, .hasKey, .keys, .values, .pickItem, .append, .setItem, .reverseItems, .remove,
   .clearItems, .popItem, .isNull, .isType, .convert, .abortMsg, .assertMsg]

/-- The byte that stands for the opcode in a script. -/
def code (op : Opcode) : UInt8 := op.entry.code

/-- The name of the opcode in listings. -/
def mnemonic (op : Opcode) : String := op.entry.mnemonic

/-- The price of the instruction before the fee factor is applied. -/
def price (op : Opcode) : Nat := op.entry.price

/-- What follows the opcode in a script. -/
def operand (op : Opcode) : OperandRule := op.entry.operand

def ofCode? (byte : UInt8) : Option Opcode := all.find? (·.code == byte)

def ofMnemonic? (name : String) : Option Opcode := all.find? (·.mnemonic == name)

/-- The integer that the one-byte pushes from `PUSHM1` to `PUSH16` push. -/
def smallInt? (op : Opcode) : Option Int :=
  if Opcode.pushM1.code ≤ op.code ∧ op.code ≤ Opcode.push16.code then
    some ((op.code.toNat : Int) - Opcode.push0.code.toNat)
  else
    none

/-- The one-byte push of an integer, which exists from -1 to 16. -/
def ofSmallInt? (value : Int) : Option Opcode :=
  if -1 ≤ value ∧ value ≤ 16 then
    ofCode? (UInt8.ofNat (value + Opcode.push0.code.toNat).toNat)
  else
    none

/-- Whether the operand is a signed number: integer pushes and jump distances. -/
def hasSignedOperand (op : Opcode) : Bool :=
  match op with
  | pushInt8 | pushInt16 | pushInt32 | pushInt64 | pushInt128 | pushInt256 | pushA
  | call | callL | tryOp | tryOpL | endTry | endTryL => true
  | _ => Opcode.jmp.code ≤ op.code && op.code ≤ Opcode.jmpLeL.code

/-- The integer pushes with an operand, narrowest first, each with its width in bytes. -/
def intPushes : List (Nat × Opcode) :=
  [(1, .pushInt8), (2, .pushInt16), (4, .pushInt32), (8, .pushInt64), (16, .pushInt128),
   (32, .pushInt256)]

/-- Whether the opcode pushes an integer that its operand holds. -/
def isIntPush (op : Opcode) : Bool := intPushes.any (·.2 == op)

end Opcode

end ScriptKit
