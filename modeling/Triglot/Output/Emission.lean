import Triglot.Numbering
import Triglot.Symbol.Table

/-! What a target makes of a model: files with warnings, or the reason why it makes none. -/
namespace Triglot

inductive EmitError where
  | resolve (cause : ResolveError)
  | duplicateName (name : String) (namespaces : List String)
  | collision (cause : NumberCollision)
  | unsupportedVersion (version : String)
deriving DecidableEq, Repr

namespace EmitError

def message : EmitError → String
  | .resolve e => e.message
  | .duplicateName name namespaces =>
    s!"duplicate type name '{name}' found in namespaces: " ++ ", ".intercalate namespaces
  | .collision c => "numbering collision: " ++ c.message
  | .unsupportedVersion v => "openapi export failed: unsupported OpenAPI version: " ++ v

/-- Whether the target still gets a document, one that tells the error. -/
def leavesDocument : EmitError → Bool
  | .duplicateName _ _ => true
  | _ => false

/-- The finding for a target that failed. -/
def diagnostic (e : EmitError) (target : Target) : Diagnostic :=
  let message := target.name ++ ": " ++ e.message
  match e with
  | .resolve cause =>
    let d := cause.diagnostic "" "$"
    { d with message := target.name ++ ": " ++ d.message }
  | .duplicateName name _ =>
    { code := Code.duplicateSymbol, severity := .error, message
      hint := some ("Rename one of the '" ++ name ++ "' declarations or give it a " ++ target.name ++
        " name override") }
  | .collision _ => { code := Code.numberingCollision, severity := .error, message }
  | .unsupportedVersion _ => { code := Code.emitFailed, severity := .error, message }

end EmitError

/-- Texts by relative path, with the warnings raised on the way. -/
structure Emission where
  files : List (String × String)
  diagnostics : List Diagnostic
deriving DecidableEq, Repr

end Triglot
