import Triglot.Command.Arguments
import Triglot.Output.Generator
import Triglot.Validation.Rules
import Triglot.Workspace.Load

/-! What each command prints, and the files that generation writes. -/
namespace Triglot

/-- The end of a command: its exit code, what it printed, and the files after it. -/
structure Outcome where
  code : Nat
  out : String := ""
  err : String := ""
  files : FileSystem

namespace Command

def lines (ls : List String) : String := String.join (ls.map (· ++ "\n"))

def entryLines (d : Diagnostic) : List String :=
  ("  " ++ d.severity.name ++ " [" ++ d.code ++ "] " ++ d.message ++ " (" ++ d.file ++ ":" ++
    d.path ++ ")") :: (d.hint.map fun h => "    hint: " ++ h).toList

def entriesLines (ds : List Diagnostic) : List String := ds.flatMap entryLines

def options (s : Settings) : Validation.Options :=
  { targets := s.output.targets, splitProto := s.proto.splitByNamespace }

/-- The message for a path that cannot be loaded. -/
def loadFailure (path : String) (e : LoadError) : String :=
  "error: Failed to load model at '" ++ path ++ "': " ++ e.message ++ "\n"

/-- All findings about a model under some settings. -/
def fullReport (l : Loaded) (s : Settings) : Report := l.report.merge (Triglot.validate l.model (options s))

def validateLines (l : Loaded) : List String × Bool :=
  let r := fullReport l l.settings
  let errors := r.count .error
  let warnings := r.count .warning
  let m := l.model
  let verdict :=
    if errors = 0 && warnings = 0 then
      s!"✓ Model is valid ({m.types.length} types, {m.enums.length} enums, " ++
        s!"{m.unions.length} unions, {m.services.length} services)"
    else if errors = 0 then s!"⚠ Valid with {warnings} warning(s)"
    else s!"✗ {errors} error(s), {warnings} warning(s)"
  (entriesLines r.entries ++ ["", verdict], errors == 0)

def runValidate (fs : FileSystem) (path : String) : Outcome :=
  let head := "Validating " ++ fs.display path ++ "\n"
  match load fs path with
  | .error e => { code := 1, out := head, err := loadFailure path e, files := fs }
  | .ok l =>
    let (ls, ok) := validateLines l
    { code := if ok then 0 else 1, out := head ++ lines ls, files := fs }

/-- A text with blanks up to a width. -/
def padded (width : Nat) (s : String) : String :=
  s ++ String.ofList (List.replicate (width - s.length) ' ')

/-- Where a target goes. -/
def targetLine (s : Settings) (t : Target) : String :=
  let file := match Emitter.create t s with
    | .ok e =>
      if t = .proto && s.proto.splitByNamespace then "one file per namespace" else e.filename
    | .error e => "✗ " ++ e.message
  "  " ++ padded 9 t.name ++ " " ++ file

def checkLines (l : Loaded) : List String × Bool :=
  let m := l.model
  let errors := (fullReport l l.settings).count .error
  (["Model Info", "  Namespace: " ++ m.ns, "  Version:   " ++ m.version.getD "(none)",
    s!"  Documents: {l.files.length}"] ++ (l.files.map ("    → " ++ ·)) ++
   ["", "Declarations", s!"  Types:     {m.types.length}", s!"  Enums:     {m.enums.length}",
    s!"  Unions:    {m.unions.length}", s!"  Services:  {m.services.length}", "", "Targets"] ++
   l.settings.output.targets.map (targetLine l.settings) ++
   ["  Output:    " ++ l.settings.output.directory, "",
    if errors = 0 then "✓ No validation errors" else s!"✗ {errors} validation error(s) found"],
   errors == 0)

def runCheck (fs : FileSystem) (path : String) : Outcome :=
  match load fs path with
  | .error e => { code := 1, err := loadFailure path e, files := fs }
  | .ok l =>
    let (ls, ok) := checkLines l
    { code := if ok then 0 else 1, out := lines ls, files := fs }

/-- The settings with what the command line asks for. -/
def overridden (s : Settings) (targets : List Target) (splitProto : Bool) : Settings :=
  { s with
    output := if targets.isEmpty then s.output else { s.output with targets }
    proto := if splitProto then { s.proto with splitByNamespace := true } else s.proto }

/-- The directory next to which output goes. -/
def modelDirectory (fs : FileSystem) (path : String) : String :=
  if fs.isFile path then Path.parent path else path

/-- Writes the output of a model and tells what was written. -/
def writeOutput (fs : FileSystem) (directory : String) (o : Output) (before : List String) :
    Outcome :=
  let shown := before ++ entriesLines o.diagnostics
  match FileSystem.writeAll directory o.files fs with
  | (files, some e) =>
    { code := 1, out := lines shown, files
      err := "error: Failed to write to '" ++ directory ++ "': IO error: " ++ e.message ++ ": " ++
        e.message ++ "\n" }
  | (files, none) =>
    let mark := if o.report.ok then "✓" else "⚠"
    { code := if o.report.ok then 0 else 1, files
      out := lines (shown ++
        [s!"{mark} Generated {o.files.length} file(s) → " ++ directory] ++
        o.files.map fun f => "  → " ++ f.1) }

/-- Generates only from a model without errors. -/
def runGenerate (fs : FileSystem) (path : String) (out : Option String) (targets : List Target)
    (splitProto : Bool) : Outcome :=
  let head := ["Generating schemas from " ++ fs.display path]
  match load fs path with
  | .error e => { code := 1, out := lines head, err := loadFailure path e, files := fs }
  | .ok l =>
    let settings := overridden l.settings targets splitProto
    let r := fullReport l settings
    let shown := head ++ entriesLines r.entries
    let errors := r.count .error
    if 0 < errors then
      { code := 1, out := lines shown, files := fs
        err := s!"✗ {errors} validation error(s), fix them before generating\n" }
    else match Generator.create settings with
      | .error e =>
        { code := 1, out := lines shown, files := fs
          err := "error: Invalid generator configuration: " ++ e.message ++ "\n" }
      | .ok g =>
        let directory :=
          out.getD (Path.join (modelDirectory fs path) settings.output.directory)
        writeOutput fs directory (g.generate l.model) shown

def runSchema (fs : FileSystem) (settings : Bool) : Outcome :=
  let schema := if settings then settingsSchema else modelSchema
  { code := 0, out := schema.encode.pretty ++ "\n", files := fs }

def run (fs : FileSystem) : Command → Outcome
  | .generate path out targets splitProto => runGenerate fs path out targets splitProto
  | .validate path => runValidate fs path
  | .check path => runCheck fs path
  | .schema settings => runSchema fs settings

end Command

def programVersion : String := "0.1.0"

def usage : String :=
  "idlmux – one IDL model, three schema languages\n\n" ++
    "Usage: idlmux [OPTIONS] <COMMAND>\n\nCommands:\n" ++
    "  generate  Generate Protobuf, GraphQL and OpenAPI schemas from a model\n" ++
    "  validate  Validate a model\n" ++
    "  check     Check a model and show summary info\n" ++
    "  schema    Print the JSON Schema of model documents\n"

/-- Runs the program on its arguments. -/
def runProgram (fs : FileSystem) (arguments : List String) : Outcome :=
  match Request.ofArguments arguments with
  | .run c => c.run fs
  | .version program => { code := 0, out := program ++ " " ++ programVersion ++ "\n", files := fs }
  | .help => { code := 0, out := usage, files := fs }
  | .unusable => { code := 2, err := usage, files := fs }

end Triglot
