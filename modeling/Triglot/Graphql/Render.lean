import Triglot.Graphql.Build
import Triglot.Output.Margin

/-! The text of GraphQL documents. -/
namespace Triglot.Graphql

def margin : Margin := (Margin.spaces 2).push

def FieldDef.text (f : FieldDef) : String :=
  let argument := match f.argument with
    | some t => "(input: " ++ t.text ++ ")"
    | none => ""
  " ".intercalate ((f.name ++ argument ++ ": " ++ f.type.text) :: f.directives)

def descriptionLines (d : Option String) : List String := (d.map quoted).toList

def joinLines (lines : List String) : String := "\n".intercalate lines

def ObjectDef.render (o : ObjectDef) : String :=
  let head := " ".intercalate ((o.direction.keyword ++ " " ++ o.name) :: o.directives)
  joinLines (descriptionLines o.description ++ [head ++ " \x7b"] ++
    (o.fields.map fun f => margin.line f.text) ++ ["\x7d"])

def Definition.render : Definition → String
  | .scalar d n => joinLines [quoted d, "scalar " ++ n]
  | .enum d n values =>
    joinLines (descriptionLines d ++ ["enum " ++ n ++ " \x7b"] ++ values.map margin.line ++ ["\x7d"])
  | .object o => o.render
  | .union d n members =>
    joinLines (descriptionLines d ++ ["union " ++ n ++ " = " ++ " | ".intercalate members])

def Document.header (d : Document) : String :=
  if d.ns.isEmpty then "# Generated GraphQL Schema"
  else "# Generated GraphQL Schema\n# Namespace: " ++ d.ns

def Document.sections (d : Document) : List String :=
  [d.header, "directive @oneOf on INPUT_OBJECT"] ++
  (if d.extensions.isEmpty then []
   else [joinLines (d.extensions.map fun e => "extend schema " ++ e)]) ++
  d.definitions.map Definition.render

/-- Sections with a blank line between them. -/
def Document.render (d : Document) : String := "\n\n".intercalate d.sections ++ "\n"

/-- The file of a model. -/
def emit (filename : String) (m : Model) (table : SymbolTable) : Except EmitError Emission :=
  (Graphql.render m table).map fun r => ⟨[(filename, r.document.render)], r.warnings⟩

/-- The document in place of an output that failed. -/
def failureDocument (e : EmitError) : String :=
  "# ERROR: " ++ e.message ++
    "\n# GraphQL does not support multiple types with the same name.\n" ++
    "# Please rename one of the conflicting types or use separate GraphQL schemas.\n"

end Triglot.Graphql
