import Triglot.Json.Reader
import Triglot.Namespace.Scope
import Triglot.Number.Literal
import Triglot.OpenApi.Basic

/-! The component schemas of declarations. A schema is gathered as a list of entries of which the last
one for a key counts, so what may be overridden stands first. -/
namespace Triglot.OpenApi

def description (doc : Option Doc) : List (String × Json) :=
  optionalEntry "description" ((docText doc .openapi).map .string)

/-- Type and format of a scalar. -/
def scalarKind : Scalar → String × Option String
  | .int32 | .uint8 | .uint16 => ("integer", some "int32")
  | .int64 | .uint32 | .uint64 => ("integer", some "int64")
  | .float32 => ("number", some "float")
  | .float64 => ("number", some "double")
  | .bool => ("boolean", none)
  | .timestamp => ("string", some "date-time")
  | .bytes => ("string", some "byte")
  | .string => ("string", none)

def isUnsigned : Scalar → Bool
  | .uint8 | .uint16 | .uint32 | .uint64 => true
  | _ => false

def scalarEntries (s : Scalar) : List (String × Json) :=
  ("type", .string (scalarKind s).1) :: optionalEntry "format" ((scalarKind s).2.map .string)

def scalarSchema (s : Scalar) : Json := .ofEntries (scalarEntries s)

/-- A number that is not finite has no literal. -/
def realJson : Literal.Real → Json
  | .finite x => .real x
  | _ => .null

/-- The value that a default literal has for a scalar; other literals stay texts. -/
def typedDefault (literal : String) : Scalar → Json
  | .int32 | .int64 | .uint8 | .uint16 | .uint32 | .uint64 =>
    match Literal.int64? literal with
    | some n => .whole n
    | none => .string literal
  | .float32 | .float64 =>
    match Literal.real? literal with
    | some x => realJson x
    | none => .string literal
  | .bool => .bool (literal == "true")
  | .string | .timestamp | .bytes => .string literal

/-- The entries of options that are objects; other options say nothing. -/
def extensions (options : List String) : List (String × Json) :=
  options.flatMap fun o =>
    match Json.parse o with
    | .ok (.object entries) => entries
    | _ => []

def ruleEntries (r : Rules) : List (String × Json) :=
  let number (key : String) (x : Option Binary64) := optionalEntry key (x.map .real)
  let count (key : String) (n : Option UInt64) := optionalEntry key (n.map fun n => .nat n.toNat)
  number "minimum" r.min ++ number "maximum" r.max ++ number "exclusiveMinimum" r.exclusiveMin ++
    number "exclusiveMaximum" r.exclusiveMax ++ number "multipleOf" r.multipleOf ++
    count "minLength" r.minLength ++ count "maxLength" r.maxLength ++
    count "minItems" r.minItems ++ count "maxItems" r.maxItems ++
    optionalEntry "pattern" (r.pattern.map .string) ++
    optionalEntry "format" (r.format.map .string) ++
    (if r.uniqueItems then [("uniqueItems", .bool true)] else []) ++
    (if r.allowed.isEmpty then [] else [("enum", .strings r.allowed)])

/-- A map in words. -/
def mapDescription (key : String) : TypeExpr → String
  | .named name _ => "Map of " ++ key ++ " to " ++ name
  | .array items _ => "Map of " ++ key ++ " to array of " ++ items.signature
  | .map inner value _ => "Map of " ++ key ++ " to " ++ mapDescription inner value

def arraySchema (items : Json) : Json := .ofEntries [("type", .string "array"), ("items", items)]

/-- The schema of a map value; a name that stands for nothing has a placeholder. -/
def valueSchema (scope : Scope) : TypeExpr → Json
  | .named name o =>
    match MapValue.classify scope (.named name o) with
    | .scalar s => scalarSchema s
    | .declared symbol => schemaRef (scope.write symbol)
    | _ => .object [("description", .string "unknown value type")]
  | .map _ value _ =>
    .ofEntries [("type", .string "object"), ("additionalProperties", valueSchema scope value)]
  | .array items _ => arraySchema (valueSchema scope items)

def mapEntries (scope : Scope) (key : String) (value : TypeExpr) : List (String × Json) :=
  [("type", .string "object"), ("description", .string (mapDescription key value)),
    ("additionalProperties", valueSchema scope value)]

def synthesizeMap (scope : Scope) (key : String) (value : TypeExpr) : Json :=
  .ofEntries (mapEntries scope key value)

/-- The warning for a map value, at the end of its lists and maps. -/
def valueWarnings (scope : Scope) (value : TypeExpr) : List Diagnostic :=
  match MapValue.classify scope (.named value.leafName false) with
  | .unknown name => [unknownValue name scope.ns]
  | _ => []

/-- The schema of a list element. -/
def itemSchema (scope : Scope) : TypeExpr → Except ResolveError Json
  | .named name _ =>
    match Scalar.ofName? name with
    | some s => .ok (scalarSchema s)
    | none => (scope.reference name).map fun r => schemaRef r.text
  | .array items _ => (itemSchema scope items).map arraySchema
  | .map key value _ => .ok (synthesizeMap scope key value)

/-- The warnings for a field type: names inside maps only, others are errors. -/
def typeWarnings (scope : Scope) : TypeExpr → List Diagnostic
  | .named _ _ => []
  | .array items _ => typeWarnings scope items
  | .map _ value _ => valueWarnings scope value

/-- What the notes on a field say in words. -/
def fieldDescription (f : Field) : String :=
  let text := (docText f.doc .openapi).getD ""
  match f.deprecated with
  | none => text
  | some d =>
    text ++ (if text.isEmpty then "" else "\n\n") ++ "**DEPRECATED**" ++ d.versionNote ++
      (d.reason.map fun r => ": " ++ r).getD ""

/-- The entries that any field has before those of its type. -/
def noteEntries (f : Field) : List (String × Json) :=
  (if f.deprecated.isSome then [("deprecated", .bool true)] else []) ++
    (f.rules.map ruleEntries).getD [] ++ extensions (f.annotations.optionsFor .openapi)

/-- The entries of a scalar field; no unsigned number is below zero. -/
def scalarFieldEntries (f : Field) (s : Scalar) (notes : List (String × Json)) :
    List (String × Json) :=
  scalarEntries s ++
    (if isUnsigned s && !(notes.any (·.1 == "minimum")) then [("minimum", .whole 0)] else []) ++
    optionalEntry "default" (f.default.map fun d => typedDefault d s)

/-- The schema of a field. A reference stands alone. -/
def property (scope : Scope) (f : Field) : Except ResolveError Json :=
  let notes := noteEntries f
  let text := fieldDescription f
  let gathered (shape : List (String × Json)) : Json :=
    .ofEntries (notes ++ shape ++ (if text.isEmpty then [] else [("description", .string text)]))
  match f.type with
  | .named name _ =>
    match Scalar.ofName? name with
    | some s => .ok (gathered (scalarFieldEntries f s notes))
    | none => (scope.reference name).map fun r => schemaRef r.text
  | .array items _ =>
    (itemSchema scope items).map fun v => gathered [("type", .string "array"), ("items", v)]
  | .map key value _ => .ok (gathered (mapEntries scope key value))

def enumSchema (e : EnumType) : Json :=
  .ofEntries ([("type", .string "string"), ("enum", .strings (e.members.map (·.name)))] ++
    description e.doc)

/-- The schema of an object type, written within its own namespace. -/
def objectSchema (scope : Scope) (t : ObjectType) : Except ResolveError Json := do
  let fields := t.includedFields .openapi
  let properties ← fields.mapM fun f => do pure (f.name, ← property (scope.within t.ns) f)
  let required := (fields.filter (·.isNonNull)).map (·.name)
  pure (.ofEntries ([("type", .string "object")] ++ description t.doc ++
    (if properties.isEmpty then [] else [("properties", .ofEntries properties)]) ++
    (if required.isEmpty then [] else [("required", .strings required)]) ++
    extensions (t.annotations.optionsFor .openapi)))

def objectWarnings (scope : Scope) (t : ObjectType) : List Diagnostic :=
  (t.includedFields .openapi).flatMap fun f => typeWarnings (scope.within t.ns) f.type

/-- The schema of a union, told apart by a property. -/
def renderUnion (scope : Scope) (u : UnionType) : Except ResolveError Json := do
  let names ← u.options.mapM fun o => (scope.reference o).map Reference.text
  let discriminator := Json.ofEntries
    [("propertyName", .string "type"),
     ("mapping", .ofEntries (names.map fun n => (n, .string (schemaPath n))))]
  pure (.ofEntries (description u.doc ++
    [("oneOf", .array (names.map schemaRef)), ("discriminator", discriminator)] ++
    extensions (u.annotations.optionsFor .openapi)))

end Triglot.OpenApi
