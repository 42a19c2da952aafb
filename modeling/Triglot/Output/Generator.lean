import Triglot.Graphql.Render
import Triglot.OpenApi.Render
import Triglot.Proto.Render

/-! One emitter for each target, and a run over all targets that are asked for. A target that fails
adds an error, and for repeated names a document that tells it; the others still have their output. -/
namespace Triglot

def defaultFilename (target : Target) (settings : Settings) : String :=
  match target with
  | .proto => "schema.proto"
  | .graphql => "schema.graphql"
  | .openapi => "openapi." ++ settings.openapi.format.name

/-- A target with the settings that matter to it. -/
inductive Emitter where
  | proto (filename : String) (layout : Proto.Layout)
  | graphql (filename : String)
  | openapi (filename : String) (settings : OpenApiSettings)
deriving DecidableEq, Repr

namespace Emitter

/-- The emitter of a target; only the third version of the interface format is written. -/
def create (target : Target) (settings : Settings) : Except EmitError Emitter :=
  let filename := (settings.output.filenames.get target).getD (defaultFilename target settings)
  match target with
  | .proto =>
    .ok (.proto filename (if settings.proto.splitByNamespace then .perNamespace else .singleFile))
  | .graphql => .ok (.graphql filename)
  | .openapi =>
    if Text.startsWith settings.openapi.version "3." then .ok (.openapi filename settings.openapi)
    else .error (.unsupportedVersion settings.openapi.version)

def target : Emitter → Target
  | .proto .. => .proto
  | .graphql .. => .graphql
  | .openapi .. => .openapi

def filename : Emitter → String
  | .proto f _ => f
  | .graphql f => f
  | .openapi f _ => f

def emit (e : Emitter) (m : Model) (table : SymbolTable) : Except EmitError Emission :=
  match e with
  | .proto f layout => Proto.emit layout f m table
  | .graphql f => Graphql.emit f m table
  | .openapi f settings => OpenApi.emit settings f m table

/-- The document in place of an output that failed. -/
def failureDocument (e : Emitter) (error : EmitError) : String :=
  match e with
  | .proto _ layout => Proto.failureDocument layout error
  | .graphql _ => Graphql.failureDocument error
  | .openapi _ settings => OpenApi.failureDocument settings.format error

end Emitter

structure Generator where
  emitters : List Emitter
deriving DecidableEq, Repr

/-- Texts by path in sorted order, with all findings. -/
structure Output where
  files : List (String × String) := []
  diagnostics : List Diagnostic := []
deriving DecidableEq, Repr

namespace Output

/-- Places a file in sorted order, over one of the same path. -/
def insertFile (path text : String) : List (String × String) → List (String × String)
  | [] => [(path, text)]
  | (p, t) :: rest =>
    if path < p then (path, text) :: (p, t) :: rest
    else if path = p then (path, text) :: rest
    else (p, t) :: insertFile path text rest

def addFile (o : Output) (path text : String) : Output :=
  { o with files := insertFile path text o.files }

def file? (o : Output) (path : String) : Option String := o.files.lookup path

def report (o : Output) : Report := ⟨o.diagnostics⟩

def note (o : Output) (ds : List Diagnostic) : Output :=
  { o with diagnostics := o.diagnostics ++ ds }

end Output

namespace Generator

/-- The targets in the order in which they first occur. -/
def distinctTargets (targets : List Target) : List Target :=
  targets.foldl (fun seen t => if seen.contains t then seen else seen ++ [t]) []

def create (settings : Settings) : Except EmitError Generator := do
  pure ⟨← (distinctTargets settings.output.targets).mapM fun t => Emitter.create t settings⟩

/-- A generator for some targets with default settings. -/
def forTargets (targets : List Target) : Except EmitError Generator :=
  create { output := { targets } }

def targets (g : Generator) : List Target := g.emitters.map Emitter.target

/-- Adds what one target makes of a model. -/
def step (m : Model) (table : SymbolTable) (o : Output) (e : Emitter) : Output :=
  match e.emit m table with
  | .ok emission =>
    (emission.files.foldl (fun o f => o.addFile f.1 f.2) o).note emission.diagnostics
  | .error error =>
    let o := if error.leavesDocument then o.addFile e.filename (e.failureDocument error) else o
    o.note [error.diagnostic e.target]

def generate (g : Generator) (m : Model) : Output :=
  let (table, duplicates) := SymbolTable.build m
  g.emitters.foldl (step m table) { diagnostics := duplicates }

end Generator

end Triglot
