import Triglot.Model.Decode
import Triglot.Model.Encode

/-! What is told about a model: entries with a stable code, and reports made of them. -/
namespace Triglot

inductive Severity where
  | error
  | warning
  | info
deriving DecidableEq, Repr, Inhabited

namespace Severity

def name : Severity → String
  | .error => "error"
  | .warning => "warning"
  | .info => "info"

def table : List (String × Severity) :=
  [("error", .error), ("warning", .warning), ("info", .info)]

def decode : Decoder Severity := Decoder.variant table

end Severity

namespace Code

def unresolvedQualifiedName : String := "E_UNRESOLVED_QUALIFIED_NAME"
def unknownSymbol : String := "E_UNKNOWN_SYMBOL"
def ambiguousSymbol : String := "E_AMBIGUOUS_SYMBOL"
def duplicateSymbol : String := "E_DUPLICATE_SYMBOL"
def numberingCollision : String := "E_NUMBERING_COLLISION"
def unknownValueType : String := "E_UNKNOWN_VALUE_TYPE"
def emptyUnion : String := "E_EMPTY_UNION"
def duplicateUnionOption : String := "E_DUPLICATE_UNION_OPTION"
def duplicateOperation : String := "E_DUPLICATE_OPERATION"
def invalidMapKey : String := "E_INVALID_MAP_KEY"
def invalidVersion : String := "E_INVALID_VERSION"
def parseError : String := "E_PARSE_ERROR"
def schemaViolation : String := "E_SCHEMA_VIOLATION"
def emitFailed : String := "E_EMIT_FAILED"

end Code

/-- One finding: its code, how grave it is, what it is about, and a hint for mending it. -/
structure Diagnostic where
  code : String
  severity : Severity
  message : String
  file : String := ""
  path : String := "$"
  hint : Option String := none
deriving DecidableEq, Repr, Inhabited

namespace Diagnostic

def isError (d : Diagnostic) : Bool := d.severity == .error

def encode (d : Diagnostic) : Json :=
  .object ([("code", .string d.code), ("file", .string d.file), ("message", .string d.message),
    ("path", .string d.path), ("severity", .string d.severity.name)] ++
    Encode.optional "suggestion" .string d.hint)

open Decoder (needed) in
def shape : Decoder.Shape Diagnostic where
  title := "struct ErrorEntry"
  start := { code := "", severity := .error, message := "" }
  fields := [
    needed "code" .string fun v d => { d with code := v },
    needed "severity" Severity.decode fun v d => { d with severity := v },
    needed "message" .string fun v d => { d with message := v },
    needed "file" .string fun v d => { d with file := v },
    needed "path" .string fun v d => { d with path := v },
    ⟨"suggestion", .neededInList, fun v d =>
      (Decoder.option .string v).map fun hint => { d with hint := hint }⟩]

def decode : Decoder Diagnostic := shape.decode

end Diagnostic

/-- The findings about a model, in the order in which they were made. -/
structure Report where
  entries : List Diagnostic := []
deriving DecidableEq, Repr, Inhabited

namespace Report

/-- A report is good if it tells of no error. -/
def ok (r : Report) : Bool := !r.entries.any (·.isError)

def push (r : Report) (d : Diagnostic) : Report := ⟨r.entries ++ [d]⟩

def merge (r s : Report) : Report := ⟨r.entries ++ s.entries⟩

def count (r : Report) (s : Severity) : Nat := r.entries.countP (·.severity == s)

def withCode (r : Report) (code : String) : List Diagnostic :=
  r.entries.filter (·.code == code)

def encode (r : Report) : Json :=
  .object [("errors", .array (r.entries.map Diagnostic.encode)), ("ok", .bool r.ok)]

end Report

end Triglot
