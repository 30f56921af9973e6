import SpendScript.Machine.Run
import SpendScript.TestVector.Json
import SpendScript.TestVector.Text

/-! # Test vectors

A test vector is a pair of scripts in text form and a label. A file holds vectors as entries of two or three
elements; other entries are comments. Running a vector reads both scripts and evaluates them; what differs from
the expected outcome is logged. -/

namespace SpendScript

/-- A pair of scripts, which have to be texts to be run, and a label. -/
structure TestVector where
  unlock : Literal
  lock : Literal
  label : Literal := .text []

namespace TestVector

/-! ### Files -/

/-- The elements of an entry: the items of a list, the code points of a text, or the names of an object. -/
def elements : Literal → Except Fault (List Literal)
  | .text t => .ok (t.map fun c => .text [c])
  | .list items => .ok items
  | .record fields => .ok (fields.map fun field => .text field.1)
  | _ => .error .notSequence

/-- The vector of an entry, or none for a comment. -/
def ofEntry (entry : Literal) : Except Fault (Option TestVector) := do
  match ← elements entry with
  | [unlock, lock] => return some { unlock, lock }
  | [unlock, lock, label] => return some { unlock, lock, label }
  | _ => return none

/-- The vectors of a file. -/
def load (content : Text) : Except Fault (List TestVector) := do
  let entries ← elements (← Json.parse content)
  return (← entries.mapM ofEntry).filterMap id

/-! ### Logs -/

/-- One line of a log. -/
structure LogLine where
  level : String
  source : String
  text : Text
  deriving DecidableEq, Repr

def LogLine.shown (line : LogLine) : Text := line.level ++ " " ++ line.source ++ ": " ++ line.text

/-- What an evaluation logs: the fault that ended it. -/
def evaluationLog (e : Evaluation) : List LogLine :=
  match e.fault with
  | none => []
  | some f => [⟨"DEBUG", "interpreter", "evaluation failed: " ++ f.kind ++ ": " ++ f.message?.getD []⟩]

/-! ### Running -/

/-- What came of a vector: a fault in the text of a script, or an evaluation. -/
structure Result where
  vector : TestVector
  expected : Bool
  outcome : Except Fault Evaluation

namespace Result

/-- Whether the scripts were read and the evaluation succeeded. -/
def isValid (r : Result) : Bool :=
  match r.outcome with
  | .ok e => e.success
  | .error _ => false

def passed (r : Result) : Bool := r.isValid == r.expected

/-- The fault that made the vector invalid. -/
def fault? (r : Result) : Option Fault :=
  match r.outcome with
  | .ok e => e.fault
  | .error f => some f

/-- What is logged of a result that was not expected. The tag stands before the text. -/
def warning (tag : Text) (r : Result) : List LogLine :=
  if r.passed then []
  else
    let expected := if r.expected then "valid" else "invalid"
    let kind := (r.fault?.map Fault.kind).getD "None"
    [⟨"WARNING", "vectors", tag ++ "expected " ++ expected ++ ": [" ++ r.vector.unlock.shown ++ ", "
      ++ r.vector.lock.shown ++ "] " ++ r.vector.label.plain ++ " failed with " ++ kind⟩]

end Result

/-- The script that a literal gives as text. -/
def script : Literal → Except Fault Bytes
  | .text text => parseScript text
  | _ => .error .notText

/-- Reads and evaluates the scripts of a vector. A fault of the text that is no parse fault ends the run. -/
def outcome (env : Env) (v : TestVector) : Except Fault (Except Fault Evaluation) :=
  match (do return (← script v.unlock, ← script v.lock) : Except Fault (Bytes × Bytes)) with
  | .ok (unlock, lock) => (evaluate env unlock lock).map .ok
  | .error f => if f.faultClass = .scriptParse then .ok (.error f) else .error f

/-- Runs a vector. The tag stands before what is logged of it. -/
def run (env : Env) (tag : Text) (expected : Bool) (v : TestVector) : Except Fault (Result × List LogLine) := do
  let outcome ← v.outcome env
  let result : Result := ⟨v, expected, outcome⟩
  let evaluated := match outcome with
    | .ok e => evaluationLog e
    | .error _ => []
  return (result, evaluated ++ result.warning tag)

/-- The check of signatures that accepts none. -/
def rejectAll : SigCheck := fun _ _ _ => false

/-- Runs the vectors of a file, and logs how many there were and how many were not as expected. -/
def runFile (limits : Limits) (hashes : Hashes) (name content : Text) (expected : Bool) :
    Except Fault (List Result × List LogLine) := do
  let vectors ← load content
  let tag := "[" ++ name ++ "] "
  let runs ← vectors.mapM (run ⟨limits, some rejectAll, hashes⟩ tag expected)
  let results := runs.map (·.1)
  let failures := results.countP (!·.passed)
  let summary : LogLine := ⟨"INFO", "vectors", tag ++ Text.groupedText results.length ++ " vectors run; "
    ++ Text.groupedText failures ++ " did not match"⟩
  return (results, runs.flatMap (·.2) ++ [summary])

end TestVector

end SpendScript
