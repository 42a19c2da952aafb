import Triglot.Model.Basic

/-! GraphQL documents as data: definitions with their fields, and types with list and non-null marks
kept apart from the names they end in. -/
namespace Triglot.Graphql

/-- The spelling of a scalar. -/
def scalarText : Scalar → String
  | .string | .timestamp | .bytes => "String"
  | .int32 | .int64 | .uint8 | .uint16 | .uint32 | .uint64 => "Int"
  | .float32 | .float64 => "Float"
  | .bool => "Boolean"

inductive TypeRef where
  | named (name : String)
  | list (items : TypeRef)
  | nonNull (type : TypeRef)
deriving DecidableEq, Repr

namespace TypeRef

def text : TypeRef → String
  | .named n => n
  | .list t => "[" ++ t.text ++ "]"
  | .nonNull t => t.text ++ "!"

/-- The name under all marks. -/
def base : TypeRef → String
  | .named n => n
  | .list t => t.base
  | .nonNull t => t.base

end TypeRef

/-- Which half of a declaration is written. -/
inductive Direction where
  | output
  | input
deriving DecidableEq, Repr

def Direction.keyword : Direction → String
  | .output => "type"
  | .input => "input"

def inputName (name : String) : String := name ++ "Input"

/-- The name of a declaration in a direction. -/
def Direction.name (d : Direction) (name : String) : String :=
  match d with
  | .output => name
  | .input => inputName name

structure FieldDef where
  name : String
  argument : Option TypeRef := none
  type : TypeRef
  directives : List String := []
deriving DecidableEq, Repr

structure ObjectDef where
  description : Option String
  direction : Direction
  name : String
  directives : List String := []
  fields : List FieldDef
deriving DecidableEq, Repr

inductive Definition where
  | scalar (description : String) (name : String)
  | enum (description : Option String) (name : String) (values : List String)
  | object (object : ObjectDef)
  | union (description : Option String) (name : String) (members : List String)
deriving DecidableEq, Repr

namespace Definition

def name : Definition → String
  | .scalar _ n => n
  | .enum _ n _ => n
  | .object o => o.name
  | .union _ n _ => n

/-- The type names that a definition uses. -/
def usedNames : Definition → List String
  | .scalar _ _ => []
  | .enum _ _ _ => []
  | .object o =>
    o.fields.flatMap fun f => (f.argument.map TypeRef.base).toList ++ [f.type.base]
  | .union _ _ members => members

end Definition

structure Document where
  ns : String
  extensions : List String
  definitions : List Definition
deriving DecidableEq, Repr

end Triglot.Graphql
