import SpendScript.Bytes.Hex
import SpendScript.Script.Opcode
import SpendScript.Text.Decimal

/-! # Faults

A fault is the cause for which an operation of the library fails. Each fault belongs to a class; all classes
lie under `FaultClass.general`, and those under `FaultClass.script` are the faults that end the evaluation of a
script. A fault found by a rule of the library has a message; one that comes from a conversion,
a look-up or an index has none. -/

namespace SpendScript

/-! ### Classes -/

/-- The classes of faults. -/
inductive FaultClass
  | general | badValue | badType | badIndex | unknownKey | outOfRange | forbidden | unsupported | unconfigured
  | badWire | badJson | unencodable | tooDeep | outOfMemory
  | script | decode | truncatedScript | scriptParse
  | interpreter | invalidSignature | nonCanonicalSignature | stackUnderflow | disabledOpcode | invalidOpcode
  | opReturn | numericRange | unbalancedConditional
  | resourceLimit | scriptTooLarge | tooManyOps | stackSizeTooLarge | invalidPushSize | invalidPublicKeyCount
  | invalidSignatureCount
  | minimalEncoding | invalidPublicKeyEncoding | nullDummy | upgradeableNop | pushOnly | cleanStack
  | verifyFailed | equalVerifyFailed | numEqualVerifyFailed | checkSigVerifyFailed | checkMultiSigVerifyFailed
  | evalFalse
  deriving DecidableEq, Repr

namespace FaultClass

/-- The name under which a class is reported. -/
def name : FaultClass → String
  | general => "General"
  | badValue => "BadValue"
  | badType => "BadType"
  | badIndex => "BadIndex"
  | unknownKey => "UnknownKey"
  | outOfRange => "OutOfRange"
  | forbidden => "Forbidden"
  | unsupported => "Unsupported"
  | unconfigured => "Unconfigured"
  | badWire => "BadWire"
  | badJson => "BadJson"
  | unencodable => "Unencodable"
  | tooDeep => "TooDeep"
  | outOfMemory => "OutOfMemory"
  | script => "ScriptError"
  | decode => "DecodeError"
  | truncatedScript => "TruncatedScriptError"
  | scriptParse => "ScriptParseError"
  | interpreter => "InterpreterError"
  | invalidSignature => "InvalidSignature"
  | nonCanonicalSignature => "NonCanonicalSignature"
  | stackUnderflow => "StackUnderflow"
  | disabledOpcode => "DisabledOpcode"
  | invalidOpcode => "InvalidOpcode"
  | opReturn => "OpReturnError"
  | numericRange => "NumericRange"
  | unbalancedConditional => "UnbalancedConditional"
  | resourceLimit => "ResourceLimitExceeded"
  | scriptTooLarge => "ScriptTooLarge"
  | tooManyOps => "TooManyOps"
  | stackSizeTooLarge => "StackSizeTooLarge"
  | invalidPushSize => "InvalidPushSize"
  | invalidPublicKeyCount => "InvalidPublicKeyCount"
  | invalidSignatureCount => "InvalidSignatureCount"
  | minimalEncoding => "MinimalEncodingError"
  | invalidPublicKeyEncoding => "InvalidPublicKeyEncoding"
  | nullDummy => "NullDummyError"
  | upgradeableNop => "UpgradeableNopError"
  | pushOnly => "PushOnlyError"
  | cleanStack => "CleanStackError"
  | verifyFailed => "VerifyFailed"
  | equalVerifyFailed => "EqualVerifyFailed"
  | numEqualVerifyFailed => "NumEqualVerifyFailed"
  | checkSigVerifyFailed => "CheckSigVerifyFailed"
  | checkMultiSigVerifyFailed => "CheckMultiSigVerifyFailed"
  | evalFalse => "EvalFalse"

/-- The classes above a class, nearest first. -/
def ancestors : FaultClass → List FaultClass
  | general => []
  | badValue | badType | badIndex | unknownKey | outOfRange | forbidden | unsupported | unconfigured | badWire
  | tooDeep | outOfMemory | script => [general]
  | badJson | unencodable => [badValue, general]
  | decode => [script, badValue, general]
  | truncatedScript | scriptParse => [decode, script, badValue, general]
  | interpreter => [script, general]
  | nonCanonicalSignature => [invalidSignature, interpreter, script, general]
  | scriptTooLarge | tooManyOps | stackSizeTooLarge | invalidPushSize | invalidPublicKeyCount
  | invalidSignatureCount => [resourceLimit, interpreter, script, general]
  | equalVerifyFailed | numEqualVerifyFailed | checkSigVerifyFailed | checkMultiSigVerifyFailed
  | evalFalse => [verifyFailed, interpreter, script, general]
  | invalidSignature | stackUnderflow | disabledOpcode | invalidOpcode | opReturn | numericRange
  | unbalancedConditional | resourceLimit | minimalEncoding | invalidPublicKeyEncoding | nullDummy
  | upgradeableNop | pushOnly | cleanStack | verifyFailed => [interpreter, script, general]

/-- A class and the classes above it. -/
def lineage (c : FaultClass) : List FaultClass := c :: c.ancestors

/-- Whether a class is another or lies below it. -/
def isA (c d : FaultClass) : Bool := c.lineage.contains d

/-- The classes of script faults, from the general ones to the special ones. -/
def scriptClasses : List FaultClass :=
  [script, decode, truncatedScript, scriptParse, interpreter, invalidSignature, nonCanonicalSignature,
   stackUnderflow, disabledOpcode, invalidOpcode, opReturn, numericRange, unbalancedConditional, resourceLimit,
   scriptTooLarge, tooManyOps, stackSizeTooLarge, invalidPushSize, invalidPublicKeyCount, invalidSignatureCount,
   minimalEncoding, invalidPublicKeyEncoding, nullDummy, upgradeableNop, pushOnly, cleanStack, verifyFailed,
   equalVerifyFailed, numEqualVerifyFailed, checkSigVerifyFailed, checkMultiSigVerifyFailed, evalFalse]

/-- The class of script faults of a name. Two classes have a second name. -/
def ofName? (name : String) : Option FaultClass :=
  if name = "InvalidStackOperation" then some stackUnderflow
  else if name = "InvalidNumber" then some numericRange
  else scriptClasses.find? (·.name == name)

end FaultClass

/-! ### Causes -/

/-- How a script ends inside an operation: within the length of a push, or within its data. -/
inductive Truncation
  | length (op : Opcode)
  | data (size remaining : Nat)
  deriving DecidableEq, Repr

def Truncation.message : Truncation → Text
  | .length op => "truncated length of " ++ op.label
  | .data size remaining =>
    "push of " ++ Text.groupedText size ++ " bytes has only " ++ Text.groupedText remaining ++ " bytes remaining"

/-- The operations that fail on a false result. -/
inductive Verification
  | verify | equal | numEqual | checkSig | checkMultiSig
  deriving DecidableEq, Repr

def Verification.opcode : Verification → Opcode
  | .verify => Opcode.opVerify
  | .equal => Opcode.opEqualVerify
  | .numEqual => Opcode.opNumEqualVerify
  | .checkSig => Opcode.opCheckSigVerify
  | .checkMultiSig => Opcode.opCheckMultiSigVerify

def Verification.faultClass : Verification → FaultClass
  | .verify => .verifyFailed
  | .equal => .equalVerifyFailed
  | .numEqual => .numEqualVerifyFailed
  | .checkSig => .checkSigVerifyFailed
  | .checkMultiSig => .checkMultiSigVerifyFailed

/-- Why an operation fails. -/
inductive Fault
  -- numbers, text and look-ups
  | unwritableNumber
  | malformedHex
  | malformedDecimal
  | malformedJson
  | nestedTooDeep
  | unencodableText
  | notSequence
  | notText
  | unknownName
  | unknownOpcode
  | indexRange
  | operandCount
  | sliceAssignment
  | intRange
  | negativeWidth
  | outOfMemory
  -- wire data
  | wordRange
  | readTooLong
  | streamEnded (got needed : Nat)
  | compactSizeRange (n : Int)
  -- pushes and numbers in scripts
  | numberWidth (width : Int)
  | emptyDirectPush
  | pushTooLong (size : Nat) (encoding : String)
  | itemTooLarge
  | unappendable (shown : Text)
  -- script text
  | impureHex
  | unknownWord (word : Text)
  | badPushWord (word : Text)
  | badHexToken (token : Text)
  | unknownToken (token : Text)
  | undecodable (text : Text) (cut : Truncation)
  -- signatures
  | emptySignature
  | laxDer
  | signatureRange
  | notStrictDer
  | strictDerRequired
  | highS
  | undefinedSigHash (shown : Text)
  | sigHashByte (n : Int)
  | notSigHash
  -- templates
  | hashLength
  | badPublicKey (key : Bytes)
  | badThreshold (threshold : Int) (keys : Nat)
  | keyCount (keys : Nat) (stated : Int)
  | shortTemplate
  | missingDummy
  | missingSignature
  | badRequired (signatures : Nat) (required : Int)
  | dummyNotEmpty
  | redeemMismatch
  | redeemNotStandard
  | redeemInputsNotStandard
  -- evaluation
  | truncated (cut : Truncation)
  | noSigCheck
  | scriptSize (size : Nat) (limit : Int)
  | itemSize (size limit : Int)
  | opCount (limit : Int)
  | stackSize (limit : Int)
  | stackDepth (depth : Nat) (required : Int)
  | altStackEmpty
  | pickRange (op : Opcode) (n : Int) (depth : Nat)
  | numberLength (size limit : Int)
  | numberNotMinimal (item : Bytes)
  | pushNotMinimal (expected : Opcode)
  | disabledOpcode (op : Opcode)
  | invalidOpcode (op : Opcode)
  | unexpectedElse
  | unexpectedEndIf
  | unterminated (op : Opcode)
  | opReturn
  | publicKeyCount (count limit : Int)
  | signatureCount (count keys : Int)
  | publicKeyEncoding
  | nullDummy
  | upgradeableNop (op : Opcode)
  | sigNotPushOnly
  | p2shSigNotPushOnly
  | cleanStack
  | failed (v : Verification)
  | evalFalse
  deriving DecidableEq, Repr

namespace Fault

def faultClass : Fault → FaultClass
  | unwritableNumber | malformedHex | malformedDecimal | unknownOpcode | negativeWidth | compactSizeRange _
  | numberWidth _ | emptyDirectPush | pushTooLong _ _ | itemTooLarge | impureHex | sigHashByte _ | hashLength
  | badPublicKey _ | badThreshold _ _ | keyCount _ _ | shortTemplate | badRequired _ _ | dummyNotEmpty
  | redeemMismatch | redeemNotStandard | redeemInputsNotStandard => .badValue
  | malformedJson => .badJson
  | nestedTooDeep => .tooDeep
  | unencodableText => .unencodable
  | outOfMemory => .outOfMemory
  | notSequence | operandCount | unappendable _ | notSigHash | missingDummy | missingSignature => .badType
  | unknownName => .unknownKey
  | indexRange => .badIndex
  | sliceAssignment => .forbidden
  | notText => .unsupported
  | intRange | readTooLong => .outOfRange
  | wordRange | streamEnded _ _ => .badWire
  | unknownWord _ | badPushWord _ => .script
  | badHexToken _ | unknownToken _ | undecodable _ _ => .scriptParse
  | emptySignature | laxDer | signatureRange => .invalidSignature
  | notStrictDer | strictDerRequired | highS | undefinedSigHash _ => .nonCanonicalSignature
  | truncated _ => .truncatedScript
  | noSigCheck => .unconfigured
  | scriptSize _ _ => .scriptTooLarge
  | itemSize _ _ => .invalidPushSize
  | opCount _ => .tooManyOps
  | stackSize _ => .stackSizeTooLarge
  | stackDepth _ _ | altStackEmpty | pickRange _ _ _ => .stackUnderflow
  | numberLength _ _ => .numericRange
  | numberNotMinimal _ | pushNotMinimal _ => .minimalEncoding
  | disabledOpcode _ => .disabledOpcode
  | invalidOpcode _ => .invalidOpcode
  | unexpectedElse | unexpectedEndIf | unterminated _ => .unbalancedConditional
  | opReturn => .opReturn
  | publicKeyCount _ _ => .invalidPublicKeyCount
  | signatureCount _ _ => .invalidSignatureCount
  | publicKeyEncoding => .invalidPublicKeyEncoding
  | nullDummy => .nullDummy
  | upgradeableNop _ => .upgradeableNop
  | sigNotPushOnly | p2shSigNotPushOnly => .pushOnly
  | cleanStack => .cleanStack
  | failed v => v.faultClass
  | evalFalse => .evalFalse

/-- The name of a fault's class. -/
def kind (f : Fault) : String := f.faultClass.name

/-- Whether a fault ends the evaluation of a script with a result, rather than the evaluation itself. -/
def isScriptFault (f : Fault) : Bool := f.faultClass.isA .script

/-- What a fault says, if it says anything. -/
def message? : Fault → Option Text
  | unwritableNumber | malformedHex | malformedDecimal | malformedJson | nestedTooDeep | unencodableText | notSequence
  | notText | unknownName | unknownOpcode | indexRange | operandCount | sliceAssignment | intRange | negativeWidth
  | outOfMemory | wordRange | readTooLong | shortTemplate | missingDummy | missingSignature => none
  | streamEnded got needed => some <|
    "stream ended with " ++ Text.groupedText got ++ " of " ++ Text.groupedText needed ++ " bytes required"
  | compactSizeRange n => some <| "value " ++ Text.intText n ++ " out of range for varint"
  | numberWidth width => some <| "value cannot be encoded in " ++ Text.groupedText width ++ " bytes"
  | emptyDirectPush => some "a direct push of no data is OP_0"
  | pushTooLong size encoding => some <| Text.groupedText size ++ " bytes cannot be pushed with " ++ encoding
  | itemTooLarge => some "item is too large"
  | unappendable shown => some <| "cannot append " ++ shown ++ " to a script"
  | impureHex => some "hex_str is not pure hexadecimal"
  | unknownWord word => some <| "unrecognized op code " ++ word
  | badPushWord word => some <| "invalid pushdata " ++ word
  | badHexToken token => some <| "invalid hex token " ++ token
  | unknownToken token => some <| "unrecognized token " ++ token
  | undecodable text cut => some <| "script " ++ Text.quoted text ++ " does not decode: " ++ cut.message
  | emptySignature => some "empty signature"
  | laxDer => some "invalid lax DER encoding"
  | signatureRange => some "signature R or S value out of range"
  | notStrictDer => some "signature does not have a strict DER encoding"
  | strictDerRequired => some "signature does not follow strict DER encoding"
  | highS => some "signature has high S value"
  | undefinedSigHash shown => some <| "undefined sighash type " ++ shown
  | sigHashByte n => some <| "invalid sighash byte " ++ Text.intText n
  | notSigHash => some "sighash must be a SigHash instance"
  | hashLength => some "hash160 must be 20 bytes"
  | badPublicKey key => some <| "invalid public key: " ++ Bytes.hex key
  | badThreshold threshold keys => some <|
    "threshold " ++ Text.intText threshold ++ " is invalid with " ++ Text.intText keys ++ " public keys"
  | keyCount keys stated => some <|
    "received " ++ Text.intText keys ++ " public keys but " ++ Text.intText stated ++ " as their count"
  | badRequired signatures required => some <|
    Text.intText signatures ++ " signatures is invalid with " ++ Text.intText required ++ " required"
  | dummyNotEmpty => some "multisig dummy item is not empty"
  | redeemMismatch => some "script input does not spend the redeem script"
  | redeemNotStandard => some "redeem script is not a standard script"
  | redeemInputsNotStandard => some "redeem script inputs are not standard"
  | truncated cut => some cut.message
  | noSigCheck => some "cannot check signatures without a sig_check"
  | scriptSize size limit => some <|
    "script length " ++ Text.groupedText size ++ " exceeds the limit of " ++ Text.groupedText limit ++ " bytes"
  | itemSize size limit => some <|
    "item length " ++ Text.groupedText size ++ " exceeds the limit of " ++ Text.groupedText limit ++ " bytes"
  | opCount limit => some <| "op count exceeds the limit of " ++ Text.groupedText limit
  | stackSize limit => some <|
    "combined stack size exceeds the limit of " ++ Text.groupedText limit ++ " items"
  | stackDepth depth required => some <|
    "stack depth " ++ Text.intText depth ++ " less than required depth of " ++ Text.intText required
  | altStackEmpty => some "alt stack is empty"
  | pickRange op n depth => some <|
    op.label ++ " with argument " ++ Text.groupedText n ++ " used on stack with depth " ++ Text.groupedText depth
  | numberLength size limit => some <|
    "number of length " ++ Text.groupedText size ++ " bytes exceeds the limit of " ++ Text.groupedText limit
      ++ " bytes"
  | numberNotMinimal item => some <| "number is not minimally encoded: " ++ Bytes.hex item
  | pushNotMinimal expected => some <| "item not pushed with minimal opcode " ++ Text.intText expected.toNat
  | disabledOpcode op => some <| op.label ++ " is disabled"
  | invalidOpcode op => some <| "invalid opcode " ++ op.label
  | unexpectedElse => some "unexpected OP_ELSE"
  | unexpectedEndIf => some "unexpected OP_ENDIF"
  | unterminated op => some <| "unterminated " ++ op.label ++ " at end of script"
  | opReturn => some "OP_RETURN encountered"
  | publicKeyCount count limit => some <|
    "number of public keys, " ++ Text.groupedText count ++ ", in multi-sig check lies outside range 0 <= count <= "
      ++ Text.intText limit
  | signatureCount count keys => some <|
    "number of signatures, " ++ Text.groupedText count ++ ", in multisig lies outside range 0 <= count <= "
      ++ Text.groupedText keys
  | publicKeyEncoding => some "invalid public key encoding"
  | nullDummy => some "multisig dummy argument was not null"
  | upgradeableNop op => some <| "encountered upgradeable NOP " ++ op.label
  | sigNotPushOnly => some "script_sig is not pushdata only"
  | p2shSigNotPushOnly => some "P2SH script_sig is not pushdata only"
  | cleanStack => some "stack is not clean"
  | failed v => some <| v.opcode.label ++ " failed"
  | evalFalse => some "evaluation finished with a false stack top"

/-! ### Numbers in messages -/

/-- The numbers of unbounded size that the message of a fault shows. -/
def numbers : Fault → List Int
  | compactSizeRange n | numberWidth n | sigHashByte n | badThreshold n _ | keyCount _ n | badRequired _ n
  | scriptSize _ n | opCount n | stackSize n | stackDepth _ n | pickRange _ n _ => [n]
  | itemSize a b | numberLength a b | publicKeyCount a b | signatureCount a b => [a, b]
  | _ => []

/-- The fault that is found when a fault is reported: a fault whose message shows a number too long to be
    written turns into the failure to write that number. -/
def reported (f : Fault) : Fault :=
  if f.numbers.all fun n => decide (Text.Writable n) then f else unwritableNumber

/-- What an operation gave, or nothing if it met a fault of one of some classes. Other faults stay what they are. -/
def tolerate {α : Type} (classes : List FaultClass) (result : Except Fault α) : Except Fault (Option α) :=
  match result with
  | .ok a => .ok (some a)
  | .error f => if classes.any f.faultClass.isA then .ok none else .error f

theorem reported_eq_self {f : Fault} (h : ∀ n ∈ f.numbers, Text.Writable n) : f.reported = f := by
  have : (f.numbers.all fun n => decide (Text.Writable n)) = true := by simpa using h
  simp [reported, this]

theorem reported_cases (f : Fault) : f.reported = f ∨ f.reported = unwritableNumber := by
  unfold reported
  split
  · exact .inl rfl
  · exact .inr rfl

end Fault

end SpendScript
