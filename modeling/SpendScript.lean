import SpendScript.Bytes.Sized
import SpendScript.Machine.Run
import SpendScript.Script.Asm
import SpendScript.Script.Build
import SpendScript.Stack.Pool
import SpendScript.Template.Input
import SpendScript.TestVector.Run
import SpendScript.Proofs.SoftFork
import SpendScript.Transaction.SignatureHash
import SpendScript.Proofs.Outcome
import SpendScript.Proofs.StackSize
import SpendScript.Proofs.Numbers
import SpendScript.Proofs.StrictDer
import SpendScript.Proofs.ScriptFaults
import SpendScript.Proofs.Blocks
import SpendScript.Proofs.Frame
import SpendScript.Proofs.BlockTree
import SpendScript.Proofs.Codec
import SpendScript.Proofs.Inheritance
import SpendScript.Proofs.StraightLine
import SpendScript.Proofs.RedeemRule
import SpendScript.Proofs.Control
import SpendScript.Proofs.SignatureChecks
import SpendScript.Proofs.WellFormed
import SpendScript.Proofs.StackBound
import SpendScript.Proofs.Deletion
import SpendScript.Proofs.LaxGrammar
import SpendScript.Proofs.SignatureWriting
import SpendScript.Proofs.ShortestPush
import SpendScript.Proofs.StandardSpend
import SpendScript.Proofs.OutputClassification
import SpendScript.Proofs.InputClassification
import SpendScript.Proofs.WireFormat
import SpendScript.Proofs.Commitments
import SpendScript.Proofs.InPlaceHash
import SpendScript.Proofs.WireReading
import SpendScript.Proofs.Spelling
import SpendScript.Proofs.PrefixCodes
import SpendScript.Proofs.StackFamilies
import SpendScript.Proofs.LetterCase
import SpendScript.Proofs.TextFaults
import SpendScript.Proofs.CanonicalSignature
import SpendScript.Proofs.ScriptCode
import SpendScript.Proofs.SignatureCalls
import SpendScript.Proofs.Handover
import SpendScript.Proofs.StrictEncoding
import SpendScript.Proofs.SignatureRoundTrip
import SpendScript.Proofs.CanonicalPush
import SpendScript.Proofs.PushOnly
import SpendScript.Proofs.MultipleCheck
import SpendScript.Proofs.DeletionOrder
import SpendScript.Proofs.Occurrences
import SpendScript.Proofs.ShortestNumber
import SpendScript.Proofs.NumberBytes
import SpendScript.Proofs.StackDiagrams
import SpendScript.Proofs.Arithmetic
import SpendScript.Proofs.FailedOpcodes
import SpendScript.Proofs.SortedKeys
import SpendScript.Proofs.AsmRoundTrip
import SpendScript.Proofs.TransactionChecks
