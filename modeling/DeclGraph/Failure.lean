import DeclGraph.Encoding.Basic
import DeclGraph.FileSystem.Error
import DeclGraph.Graph.Text
import DeclGraph.Invocation.Document
import DeclGraph.Pattern.List
import DeclGraph.Text.Utf8

/-!
# Failures

Everything that can stop a run: a document that holds no invocations or no rules, rules that do not
fit, a value that cannot be written, a refusal of the file system, octets that are no text, a
mistaken pattern, settings that make no sense.  `Failure.label` names the class of a failure,
`Failure.message` says what is wrong, and `Failure.isAnnounced` holds of the failures that a run
foresees and reports as its own.
-/

namespace DeclGraph

open Encoding

/-- Why a run stops. -/
inductive Failure
  /-- A document holds no invocations. -/
  | invocations (e : Invocation.DocumentError)
  /-- Rules are malformed or do not fit. -/
  | rules (e : RulesError)
  /-- A value cannot be written. -/
  | unencodable (typeName : String)
  /-- A refusal of the file system. -/
  | file (e : FileError)
  /-- The octets of a file are no text. -/
  | notText (e : Utf8.Fault)
  /-- A number in a document is too long. -/
  | longNumber (digits : Nat)
  /-- A pattern is a mistake. -/
  | pattern (e : PatternError)
  /-- The name of a path cannot be changed. -/
  | unnamed (e : Path.NameError)
  /-- A declaration has no text. -/
  | text (e : TextError)
  /-- A batch has no workers. -/
  | noWorkers
  /-- A batch gives its parses no time. -/
  | noTime
deriving DecidableEq, Repr

namespace Failure

/-- The failure that a document of invocations is.  A number that is too long is told apart. -/
def ofDocument (e : Invocation.DocumentError) : Failure :=
  match e with
  | .notJson ⟨.tooManyDigits digits, _, _, _⟩ => .longNumber digits
  | e => .invocations e

/-- The failure that a document of rules is.  A number that is too long is told apart. -/
def ofRules (e : RulesError) : Failure :=
  match e with
  | .notJson ⟨.tooManyDigits digits, _, _, _⟩ => .longNumber digits
  | e => .rules e

/-- The failure of writing a graph. -/
def ofEncoding : EncodeError → Failure
  | .rules e => .rules e
  | .unencodable typeName => .unencodable typeName

/-- The name of the class of a failure. -/
def label : Failure → String
  | .invocations _ => "InvocationConfigError"
  | .rules _ => "ProjectionConfigError"
  | .unencodable _ => "SerializationError"
  | .file e => e.label
  | .notText _ => "UnicodeDecodeError"
  | .pattern _ => "GitIgnorePatternError"
  | .text e => e.label
  | .longNumber _ | .unnamed _ | .noWorkers | .noTime => "ValueError"

/-- The words for a failure. -/
def message : Failure → String
  | .invocations e => e.message
  | .rules e => e.message
  | .unencodable typeName => (EncodeError.unencodable typeName).message
  | .file e => e.message
  | .notText e => e.message
  | .longNumber digits => (Json.Cause.tooManyDigits digits).message
  | .pattern e => e.message
  | .unnamed e => e.message
  | .text e => e.message
  | .noWorkers => "max_workers must be > 0"
  | .noTime => "parse_timeout must be > 0"

/-- Whether the failure is a refusal of the file system. -/
def isFromSystem : Failure → Bool
  | .file e => e.isFromSystem
  | _ => false

/-- Whether the failure is one that writing a file is known for: a value that cannot be written, or
a refusal of the file system. -/
def isForeseen : Failure → Bool
  | .unencodable _ => true
  | e => e.isFromSystem

/-- Whether the failure is told as one of the configuration: a malformed document, rules that do
not fit, or a refusal of the file system. -/
def isAnnounced : Failure → Bool
  | .invocations _ => true
  | .rules _ => true
  | e => e.isFromSystem

end Failure

end DeclGraph
