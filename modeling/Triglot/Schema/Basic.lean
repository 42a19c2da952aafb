import Triglot.Json.Basic

/-! Schemas of documents: a list of keywords, each of which allows some values. -/
namespace Triglot

inductive JsonType where
  | array
  | boolean
  | integer
  | null
  | number
  | object
  | string
deriving DecidableEq, Repr

namespace JsonType

def name : JsonType → String
  | .array => "array"
  | .boolean => "boolean"
  | .integer => "integer"
  | .null => "null"
  | .number => "number"
  | .object => "object"
  | .string => "string"

/-- All types in the order of their names. -/
def all : List JsonType := [.array, .boolean, .integer, .null, .number, .object, .string]

/-- Whether a value has a type. A real number without fraction is an integer, too. -/
def admits (t : JsonType) (v : Json) : Bool :=
  match t, v with
  | .array, .array _ => true
  | .boolean, .bool _ => true
  | .integer, .number (.whole _) => true
  | .integer, .number (.real x) => x.isWhole
  | .null, .null => true
  | .number, .number _ => true
  | .object, .object _ => true
  | .string, .string _ => true
  | _, _ => false

end JsonType

mutual

inductive Keyword where
  /-- A remark that allows everything. -/
  | note (key : String) (value : Json)
  | ref (definition : String)
  | additionalProperties (schema : Schema)
  | allOf (schemas : List Schema)
  | anyOf (schemas : List Schema)
  | enum (values : List String)
  | items (schema : Schema)
  | minimum (bound : Nat)
  | oneOf (schemas : List Schema)
  | properties (schemas : List (String × Schema))
  | required (names : List String)
  | types (types : List JsonType)

inductive Schema where
  | mk (keywords : List Keyword)

end

namespace Schema

def keywords : Schema → List Keyword
  | .mk ks => ks

def definitionPath (name : String) : String := "#/definitions/" ++ name

mutual

def encode : Schema → Json
  | .mk ks => .ofEntries (encodeKeywords ks)

def encodeKeywords : List Keyword → List (String × Json)
  | [] => []
  | k :: ks => encodeKeyword k :: encodeKeywords ks

def encodeKeyword : Keyword → String × Json
  | .note key value => (key, value)
  | .ref d => ("$ref", .string (definitionPath d))
  | .additionalProperties s => ("additionalProperties", encode s)
  | .allOf ss => ("allOf", .array (encodeAll ss))
  | .anyOf ss => ("anyOf", .array (encodeAll ss))
  | .enum values => ("enum", .strings values)
  | .items s => ("items", encode s)
  | .minimum n => ("minimum", .real (.ofInt n))
  | .oneOf ss => ("oneOf", .array (encodeAll ss))
  | .properties ss => ("properties", .ofEntries (encodeProperties ss))
  | .required names => ("required", .strings names)
  | .types [t] => ("type", .string t.name)
  | .types ts => ("type", .strings (ts.map JsonType.name))

def encodeAll : List Schema → List Json
  | [] => []
  | s :: ss => encode s :: encodeAll ss

def encodeProperties : List (String × Schema) → List (String × Json)
  | [] => []
  | (key, s) :: ss => (key, encode s) :: encodeProperties ss

end

/-! Schemas by what they are for. -/

def typed (t : JsonType) : Schema := .mk [.types [t]]

def text : Schema := typed .string

def flag : Schema := typed .boolean

def orNull (t : JsonType) : Schema := .mk [.types [t, .null]]

def noted (key : String) (value : Json) (s : Schema) : Schema := .mk (.note key value :: s.keywords)

def described (description : String) (s : Schema) : Schema :=
  s.noted "description" (.string description)

def defaulting (value : Json) (s : Schema) : Schema := s.noted "default" value

def reference (definition : String) : Schema := .mk [.ref definition]

/-- A definition in a place of its own, where remarks may stand. -/
def within (definition : String) : Schema := .mk [.allOf [reference definition]]

def optional (definition : String) : Schema := .mk [.anyOf [reference definition, typed .null]]

def list (items : Schema) : Schema := .mk [.items items, .types [.array]]

def table (values : Schema) : Schema := .mk [.additionalProperties values, .types [.object]]

def choice (values : List String) : Schema := .mk [.enum values, .types [.string]]

/-- A number of a format, not negative if so marked. -/
def number (t : JsonType) (format : String) (natural : Bool) (nullable : Bool) : Schema :=
  .mk ([.note "format" (.string format)] ++ (if natural then [.minimum 0] else []) ++
    [.types (if nullable then [t, .null] else [t])])

def object (properties : List (String × Schema)) (required : List String) : Schema :=
  .mk ([.properties properties] ++ (if required.isEmpty then [] else [.required required]) ++
    [.types [.object]])

end Schema

/-- The schema of a kind of document, with the definitions that it refers to. -/
structure DocumentSchema where
  title : String
  schema : Schema
  definitions : List (String × Schema)

def DocumentSchema.encode (d : DocumentSchema) : Json :=
  .ofEntries ([("$schema", .string "http://json-schema.org/draft-07/schema#"),
    ("title", .string d.title),
    ("definitions", .ofEntries (Schema.encodeProperties d.definitions))] ++
    Schema.encodeKeywords d.schema.keywords)

end Triglot
