import SpendScript.Text

/-! # Opcodes

Every operation of a script starts with a byte, its opcode. This file holds the names of the opcodes, the
values that the rest of the library refers to, and the groups that are told apart by range or by list. -/

namespace SpendScript

/-- The first byte of an operation. -/
abbrev Opcode := UInt8

namespace Opcode

/-! ### Names -/

/-- The named opcodes in the order of their values. `OP_FALSE` and `OP_TRUE` are second names. -/
def table : List (String × Opcode) :=
  [("OP_0", 0x00), ("OP_FALSE", 0x00), ("OP_PUSHDATA1", 0x4c), ("OP_PUSHDATA2", 0x4d),
   ("OP_PUSHDATA4", 0x4e), ("OP_1NEGATE", 0x4f), ("OP_RESERVED", 0x50), ("OP_1", 0x51),
   ("OP_TRUE", 0x51), ("OP_2", 0x52), ("OP_3", 0x53), ("OP_4", 0x54), ("OP_5", 0x55), ("OP_6", 0x56),
   ("OP_7", 0x57), ("OP_8", 0x58), ("OP_9", 0x59), ("OP_10", 0x5a), ("OP_11", 0x5b), ("OP_12", 0x5c),
   ("OP_13", 0x5d), ("OP_14", 0x5e), ("OP_15", 0x5f), ("OP_16", 0x60), ("OP_NOP", 0x61),
   ("OP_VER", 0x62), ("OP_IF", 0x63), ("OP_NOTIF", 0x64), ("OP_VERIF", 0x65), ("OP_VERNOTIF", 0x66),
   ("OP_ELSE", 0x67), ("OP_ENDIF", 0x68), ("OP_VERIFY", 0x69), ("OP_RETURN", 0x6a),
   ("OP_TOALTSTACK", 0x6b), ("OP_FROMALTSTACK", 0x6c), ("OP_2DROP", 0x6d), ("OP_2DUP", 0x6e),
   ("OP_3DUP", 0x6f), ("OP_2OVER", 0x70), ("OP_2ROT", 0x71), ("OP_2SWAP", 0x72), ("OP_IFDUP", 0x73),
   ("OP_DEPTH", 0x74), ("OP_DROP", 0x75), ("OP_DUP", 0x76), ("OP_NIP", 0x77), ("OP_OVER", 0x78),
   ("OP_PICK", 0x79), ("OP_ROLL", 0x7a), ("OP_ROT", 0x7b), ("OP_SWAP", 0x7c), ("OP_TUCK", 0x7d),
   ("OP_CAT", 0x7e), ("OP_SUBSTR", 0x7f), ("OP_LEFT", 0x80), ("OP_RIGHT", 0x81), ("OP_SIZE", 0x82),
   ("OP_INVERT", 0x83), ("OP_AND", 0x84), ("OP_OR", 0x85), ("OP_XOR", 0x86), ("OP_EQUAL", 0x87),
   ("OP_EQUALVERIFY", 0x88), ("OP_RESERVED1", 0x89), ("OP_RESERVED2", 0x8a), ("OP_1ADD", 0x8b),
   ("OP_1SUB", 0x8c), ("OP_2MUL", 0x8d), ("OP_2DIV", 0x8e), ("OP_NEGATE", 0x8f), ("OP_ABS", 0x90),
   ("OP_NOT", 0x91), ("OP_0NOTEQUAL", 0x92), ("OP_ADD", 0x93), ("OP_SUB", 0x94), ("OP_MUL", 0x95),
   ("OP_DIV", 0x96), ("OP_MOD", 0x97), ("OP_LSHIFT", 0x98), ("OP_RSHIFT", 0x99), ("OP_BOOLAND", 0x9a),
   ("OP_BOOLOR", 0x9b), ("OP_NUMEQUAL", 0x9c), ("OP_NUMEQUALVERIFY", 0x9d), ("OP_NUMNOTEQUAL", 0x9e),
   ("OP_LESSTHAN", 0x9f), ("OP_GREATERTHAN", 0xa0), ("OP_LESSTHANOREQUAL", 0xa1),
   ("OP_GREATERTHANOREQUAL", 0xa2), ("OP_MIN", 0xa3), ("OP_MAX", 0xa4), ("OP_WITHIN", 0xa5),
   ("OP_RIPEMD160", 0xa6), ("OP_SHA1", 0xa7), ("OP_SHA256", 0xa8), ("OP_HASH160", 0xa9),
   ("OP_HASH256", 0xaa), ("OP_CODESEPARATOR", 0xab), ("OP_CHECKSIG", 0xac), ("OP_CHECKSIGVERIFY", 0xad),
   ("OP_CHECKMULTISIG", 0xae), ("OP_CHECKMULTISIGVERIFY", 0xaf), ("OP_NOP1", 0xb0), ("OP_NOP2", 0xb1),
   ("OP_NOP3", 0xb2), ("OP_NOP4", 0xb3), ("OP_NOP5", 0xb4), ("OP_NOP6", 0xb5), ("OP_NOP7", 0xb6),
   ("OP_NOP8", 0xb7), ("OP_NOP9", 0xb8), ("OP_NOP10", 0xb9)]

/-- The name of an opcode, the first one if it has two. -/
def name? (op : Opcode) : Option String := (table.find? (·.2 == op)).map (·.1)

/-- The opcode of a name. -/
def ofName? (name : Text) : Option Opcode := (table.find? fun entry => entry.1 == name).map (·.2)

/-- The name of an opcode, or its number if it has none. -/
def label (op : Opcode) : String := (name? op).getD (toString op.toNat)

/-- The named opcode of a given value. -/
def ofInt? (n : Int) : Option Opcode := (table.find? fun entry => (entry.2.toNat : Int) == n).map (·.2)

/-! ### Values -/

/-- Pushes the empty item. -/
def op0 : Opcode := 0x00
def pushData1 : Opcode := 0x4c
def pushData2 : Opcode := 0x4d
def pushData4 : Opcode := 0x4e
def oneNegate : Opcode := 0x4f
def reserved : Opcode := 0x50
def op1 : Opcode := 0x51
/-- The last opcode that can push. -/
def op16 : Opcode := 0x60
def opIf : Opcode := 0x63
def opNotIf : Opcode := 0x64
def opVerIf : Opcode := 0x65
def opVerNotIf : Opcode := 0x66
def opElse : Opcode := 0x67
def opEndIf : Opcode := 0x68
def opVerify : Opcode := 0x69
def opPick : Opcode := 0x79
def opRoll : Opcode := 0x7a
def opDup : Opcode := 0x76
def opEqual : Opcode := 0x87
def opEqualVerify : Opcode := 0x88
def opNumEqualVerify : Opcode := 0x9d
def opHash160 : Opcode := 0xa9
def opCodeSeparator : Opcode := 0xab
def opCheckSig : Opcode := 0xac
def opCheckSigVerify : Opcode := 0xad
def opCheckMultiSig : Opcode := 0xae
def opCheckMultiSigVerify : Opcode := 0xaf

/-! ### Groups -/

/-- The opcodes that fail a script wherever they stand: the splice operations but `OP_SIZE`, the bit logic but
    the comparisons, and multiplication, division and shifts. -/
def disabled : List Opcode :=
  [0x7e, 0x7f, 0x80, 0x81, 0x83, 0x84, 0x85, 0x86, 0x8d, 0x8e, 0x95, 0x96, 0x97, 0x98, 0x99]

def isDisabled (op : Opcode) : Bool := disabled.contains op

/-- The opcodes that act also in a branch that is not executed: from `OP_IF` to `OP_ENDIF`. -/
def isConditional (op : Opcode) : Bool := opIf ≤ op && op ≤ opEndIf

/-- The opcodes that count towards the limit on operations: those above `OP_16`. -/
def isCounted (op : Opcode) : Bool := op16 < op

end Opcode

end SpendScript
