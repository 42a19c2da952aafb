import Triglot.Text.Shown
import Triglot.Workspace.Document
import Triglot.Workspace.Tree

/-! A model from one document or from all documents of a directory. -/
namespace Triglot

/-- Notes of two documents: the first name counts, and the options of both. -/
def Notes.merge (a b : Notes) : Notes := ⟨a.name.or b.name, a.options ++ b.options⟩

def Annotations.merge (a b : Annotations) : Annotations :=
  ⟨a.proto.merge b.proto, a.graphql.merge b.graphql, a.openapi.merge b.openapi⟩

/-- The declarations of two documents; the first namespace and the first version count. -/
def Model.merge (a b : Model) : Model where
  ns := Model.fill b.ns a.ns
  version := a.version.or b.version
  annotations := Annotations.merge a.annotations b.annotations
  enums := a.enums ++ b.enums
  types := a.types ++ b.types
  unions := a.unions ++ b.unions
  services := a.services ++ b.services

inductive LoadError where
  | notFound (path : String)
  | unsupported (path : String)
  | settings (finding : Diagnostic)
  | unreadable (path : String)
deriving DecidableEq, Repr

def invalidText : String := "stream did not contain valid UTF-8"

def Severity.label : Severity → String
  | .error => "Error"
  | .warning => "Warning"
  | .info => "Info"

/-- A finding with all of its parts on one line. -/
def Diagnostic.shown (d : Diagnostic) : String :=
  let hint := match d.hint with
    | some h => "Some(" ++ Text.shown h ++ ")"
    | none => "None"
  "ErrorEntry \x7b code: " ++ Text.shown d.code ++ ", severity: " ++ d.severity.label ++
    ", message: " ++ Text.shown d.message ++ ", file: " ++ Text.shown d.file ++
    ", path: " ++ Text.shown d.path ++ ", suggestion: " ++ hint ++ " \x7d"

def LoadError.message : LoadError → String
  | .notFound path => "Model path not found: " ++ path
  | .unsupported path => "Unsupported model file (expected .json, .yaml or .yml): " ++ path
  | .settings d => "Failed to parse config: " ++ d.shown
  | .unreadable path => "I/O error reading " ++ path ++ ": " ++ invalidText

structure Loaded where
  root : String
  settings : Settings
  model : Model
  /-- The documents that the model is made of. -/
  files : List String
  report : Report
deriving Repr

/-- The names of settings documents; the first one that is there counts. -/
def settingsNames : List String :=
  ["idlmux.config.json", "idlmux.config.yaml", "idlmux.config.yml"]

/-- The settings in a directory, or the default ones. -/
def loadSettings (fs : FileSystem) (directory : String) : Except LoadError Settings :=
  match settingsNames.find? fun n => fs.isFile (Path.join directory n) with
  | none => .ok {}
  | some name =>
    let path := Path.join directory name
    match fs.get? path with
    | some (.file (some text)) =>
      (Document.parseSettings text name ((DocumentFormat.ofPath? path).getD .json)).mapError .settings
    | _ => .error (.unreadable path)

/-- What one document adds: a model, or findings. -/
structure Contribution where
  file : String
  outcome : Except (List Diagnostic) Model

namespace Contribution

def unreadable (file : String) : Diagnostic :=
  { code := Code.parseError, severity := .error, file
    message := "Failed to read file: " ++ invalidText }

def of (file : String) (format : DocumentFormat) (text : Option String) : Contribution where
  file := file
  outcome := match text with
    | some t => Document.readModel t file format
    | none => .error [unreadable file]

def model? (c : Contribution) : Option Model :=
  match c.outcome with
  | .ok m => some m
  | .error _ => none

def findings (c : Contribution) : List Diagnostic :=
  match c.outcome with
  | .ok _ => []
  | .error ds => ds

end Contribution

/-- The model documents of a directory in the order in which they are found. -/
def contributions (directory : Tree) : List Contribution :=
  directory.files.filterMap fun (path, text) =>
    match DocumentKind.ofPath? path with
    | some (.model format) => some (.of path format text)
    | _ => none

/-- Takes in what a document adds. -/
def Loaded.add (l : Loaded) (c : Contribution) : Loaded :=
  match c.outcome with
  | .ok m => { l with model := l.model.merge m, files := l.files ++ [c.file] }
  | .error ds => { l with report := l.report.merge ⟨ds⟩ }

/-- Documents put together, one after the other. -/
def assemble (root : String) (settings : Settings) (cs : List Contribution) : Loaded :=
  cs.foldl Loaded.add { root, settings, model := {}, files := [], report := {} }

/-- One document with the settings next to it. A path of one name has no directory to look into. -/
def loadFile (fs : FileSystem) (path : String) (text : Option String) : Except LoadError Loaded :=
  match DocumentFormat.ofPath? path with
  | none => .error (.unsupported path)
  | some format =>
    match text with
    | none => .error (.unreadable path)
    | some t => do
      let directory := Path.parent path
      let settings ← if directory.isEmpty then pure {} else loadSettings fs directory
      let file := (Path.fileName? path).getD ""
      let c := Contribution.of file format (some t)
      pure
        { root := path, settings
          model := c.model?.getD {}
          files := if c.model?.isSome then [file] else []
          report := ⟨c.findings⟩ }

/-- The model at a path: a document, or all documents below a directory. -/
def load (fs : FileSystem) (path : String) : Except LoadError Loaded :=
  match fs.get? path with
  | none => .error (.notFound path)
  | some (.file text) => loadFile fs path text
  | some (.directory cs) => do
    pure (assemble path (← loadSettings fs path) (contributions (.directory cs)))

end Triglot
