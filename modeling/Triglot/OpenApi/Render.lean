import Triglot.OpenApi.Build
import Triglot.Output.Emission
import Triglot.Yaml.Writer

/-! The text of OpenAPI documents in both formats. -/
namespace Triglot.OpenApi

def Document.render (d : Document) : DocumentFormat → String
  | .yaml => Yaml.write d.encode
  | .json => d.encode.pretty

/-- The failure of an export as that of a target. -/
def ExportError.emitError : ExportError → EmitError
  | .resolve e => .resolve e
  | .duplicateName name namespaces => .duplicateName name namespaces
  | .unsupportedVersion v => .unsupportedVersion v

/-- A file ends in a line break. -/
def fileText (d : Document) : DocumentFormat → String
  | .yaml => d.render .yaml
  | .json => d.render .json ++ "\n"

/-- The file of a model. -/
def emit (settings : OpenApiSettings) (filename : String) (m : Model) (table : SymbolTable) :
    Except EmitError Emission :=
  match exportModel settings.version m table with
  | .ok e => .ok ⟨[(filename, fileText e.document settings.format)], e.warnings⟩
  | .error e => .error e.emitError

/-- The document in place of an output that failed. -/
def failureDocument (format : DocumentFormat) (e : EmitError) : String :=
  match format with
  | .yaml =>
    "# ERROR: " ++ e.message ++ "\n# OpenAPI component schemas share one namespace.\n" ++
      "# Please rename one of the conflicting types or give it an openapi name override.\n"
  | .json => (Json.object [("error", .string e.message)]).pretty ++ "\n"

end Triglot.OpenApi
