import Triglot.OpenApi.Path
import Triglot.OpenApi.Schema

/-! From a model to an OpenAPI document. -/
namespace Triglot.OpenApi

inductive ExportError where
  | resolve (cause : ResolveError)
  | duplicateName (name : String) (namespaces : List String)
  | unsupportedVersion (version : String)
deriving DecidableEq, Repr

def ExportError.message : ExportError → String
  | .resolve e => e.message
  | .duplicateName name namespaces =>
    "duplicate schema name `" ++ name ++ "` found in namespaces: " ++ ", ".intercalate namespaces
  | .unsupportedVersion v => "unsupported OpenAPI version: " ++ v

/-- One entry of the namespace notes, written `key: value`. -/
def Info.override (i : Info) (option : String) : Info :=
  match Text.cutFirst ':' option.toList with
  | none => i
  | some (key, value) =>
    let value := Text.trim (String.ofList value)
    match Text.trim (String.ofList key) with
    | "title" => { i with title := value }
    | "version" => { i with version := value }
    | "description" => { i with description := some value }
    | _ => i

def buildInfo (m : Model) : Info :=
  (m.annotations.optionsFor .openapi).foldl Info.override
    { title := if m.ns.isEmpty then "Generated API" else m.ns ++ " API"
      version := m.version.getD "1.0.0" }

/-- Components by emitted name: enumerations, object types, unions. -/
def buildSchemas (scope : Scope) (m : Model) : Except ResolveError (List (String × Json)) := do
  let enums := m.enums.map fun e => (scope.names.declaredName e.ns e.name, enumSchema e)
  let types ← m.types.mapM fun t => do
    pure (scope.names.declaredName t.ns t.name, ← objectSchema scope t)
  let unions ← m.unions.mapM fun u => do
    pure (scope.names.declaredName u.ns u.name, ← renderUnion (scope.within u.ns) u)
  pure ((enums ++ types ++ unions).foldl (fun es e => putEntry e.1 e.2 es) [])

/-- A document with the warnings about it. -/
structure Exported where
  document : Document
  warnings : List Diagnostic
deriving Repr

/-- The document of a model, where emitted names have to be distinct. -/
def exportModel (version : String) (m : Model) (table : SymbolTable) :
    Except ExportError Exported := do
  if !Text.startsWith version "3." then .error (.unsupportedVersion version)
  else
    let names := NameTable.build m .openapi
    match names.flatConflicts table with
    | c :: _ => .error (.duplicateName c.name c.namespaces)
    | [] =>
      let scope : Scope := { table, names, qualification := .flat }
      let paths ← (buildPaths scope m.services).mapError .resolve
      let schemas ← (buildSchemas scope m).mapError .resolve
      pure ⟨{ version, info := buildInfo m, paths := paths.items, schemas },
        paths.warnings ++ m.types.flatMap (objectWarnings scope)⟩

end Triglot.OpenApi
