import Triglot.Json.Reader
import Triglot.Model.Decode
import Triglot.Schema.Check
import Triglot.Schema.Documents
import Triglot.Yaml.Reader

/-! From the text of a document to a value, a model or settings, with a finding for what is wrong. -/
namespace Triglot.Document

/-- The finding for a text or a value that does not fit, with its place. -/
def jsonFinding (file message : String) (line column : Nat) : Diagnostic :=
  { code := Code.parseError, severity := .error, message := "JSON parse error: " ++ message, file
    path := s!"$.line:{line}:col:{column}"
    hint := some "Check JSON syntax and field types" }

def yamlFinding (file : String) (f : Yaml.Fault) : Diagnostic :=
  { code := Code.parseError, severity := .error
    message := "YAML parse error: " ++ f.problem.message, file
    path := match f.mark with
      | some m => s!"$.line:{m.line + 1}:col:{m.column + 1}"
      | none => "$"
    hint := some "Check YAML indentation and field types" }

/-- The value that a text stands for. -/
def parseValue (text file : String) : DocumentFormat → Except Diagnostic Json
  | .json =>
    match Json.parse text with
    | .ok v => .ok v
    | .error e => .error (jsonFinding file e.message e.place.line e.place.column)
  | .yaml =>
    match Yaml.parse text with
    | .ok v => .ok v
    | .error f => .error (yamlFinding file f)

/-- A decoded value; it has no place in a text. -/
def decode {α : Type} (d : Decoder α) (v : Json) (file : String) : Except Diagnostic α :=
  match d v with
  | .ok a => .ok a
  | .error e => .error (jsonFinding file e.message 0 0)

def parseModel (text file : String) (format : DocumentFormat) : Except Diagnostic Model := do
  decode Model.decode (← parseValue text file format) file

def parseSettings (text file : String) (format : DocumentFormat) : Except Diagnostic Settings := do
  decode Settings.decode (← parseValue text file format) file

/-- A model from a text that fits the schema of models; its declarations take its namespace. -/
def readModel (text file : String) (format : DocumentFormat) : Except (List Diagnostic) Model := do
  let v ← (parseValue text file format).mapError ([·])
  match modelSchema.violations v file with
  | [] => ((decode Model.decode v file).map Model.inheritNamespace).mapError ([·])
  | ds => .error ds

end Triglot.Document
