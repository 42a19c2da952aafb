import Triglot.Model.Basic

/-! Slash-separated paths: the names of a path, its extension, what is above and below it, and the
documents that are told by their names. -/
namespace Triglot.Path

/-- The names of a path. Empty names and single points do not count, except a leading point. -/
def components (path : String) : List String :=
  match (Text.pieces '/' path.toList).map String.ofList with
  | [] => []
  | first :: rest =>
    (if first = "" then [] else [first]) ++ rest.filter fun n => n != "" && n != "."

/-- The last name, unless the path ends in a point, two points or the root. -/
def fileName? (path : String) : Option String :=
  (components path).getLast?.filter fun n => n != "." && n != ".."

/-- What follows the last point of the last name; a leading point does not count. -/
def extension? (path : String) : Option String := do
  let name ← fileName? path
  let (before, after) ← Text.cutLast '.' name.toList
  if before.isEmpty then none else some (String.ofList after)

/-- A path below another one; one from the root stands alone. -/
def join (base path : String) : String :=
  if Text.startsWith path "/" || base.isEmpty then path
  else if Text.endsWith base "/" then base ++ path
  else base ++ "/" ++ path

/-- Drops slashes and single points from the end of a path, which is given in reverse. -/
def dropTail : List Char → List Char
  | ['/'] => ['/']
  | '/' :: cs => dropTail cs
  | '.' :: '/' :: cs => dropTail ('/' :: cs)
  | cs => cs
termination_by cs => cs.length

/-- The path without its last name; empty if there is no other. -/
def parent (path : String) : String :=
  let rest := (dropTail path.toList.reverse).dropWhile (· != '/')
  String.ofList (dropTail rest).reverse

end Triglot.Path

namespace Triglot

/-- The documents that make up a workspace. -/
inductive DocumentKind where
  | model (format : DocumentFormat)
  | settings (format : DocumentFormat)
deriving DecidableEq, Repr

namespace DocumentKind

/-- The kind of a document by its name. -/
def ofName? (name : String) : Option DocumentKind :=
  if name = "idlmux.config.json" then some (.settings .json)
  else if name = "idlmux.config.yaml" || name = "idlmux.config.yml" then some (.settings .yaml)
  else if Text.endsWith name ".idl.json" then some (.model .json)
  else if Text.endsWith name ".idl.yaml" || Text.endsWith name ".idl.yml" then some (.model .yaml)
  else none

def ofPath? (path : String) : Option DocumentKind := (Path.fileName? path).bind ofName?

end DocumentKind

/-- The format of a document by its extension. -/
def DocumentFormat.ofPath? (path : String) : Option DocumentFormat :=
  match Path.extension? path with
  | some "json" => some .json
  | some "yaml" => some .yaml
  | some "yml" => some .yaml
  | _ => none

end Triglot
