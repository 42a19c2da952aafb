import Triglot.Namespace.Scope

/-! Protocol buffer files as data: blocks of enumerations, messages and services, with every type
reference kept apart from the text it is written as. -/
namespace Triglot.Proto

/-- The spelling of a scalar. -/
def scalarText : Scalar → String
  | .string => "string"
  | .int32 => "int32"
  | .int64 => "int64"
  | .uint8 | .uint16 | .uint32 => "uint32"
  | .uint64 => "uint64"
  | .float32 => "float"
  | .float64 => "double"
  | .bool => "bool"
  | .timestamp => "google.protobuf.Timestamp"
  | .bytes => "bytes"

/-- The type in front of a field name. -/
inductive FieldType where
  | scalar (scalar : Scalar)
  | declared (reference : Reference)
  | placeholder
  | map (key : String) (value : FieldType)
deriving DecidableEq, Repr

/-- The spelling of a map key; an unknown one stands as it is. -/
def keyText (key : String) : String :=
  match Scalar.ofName? key with
  | some s => scalarText s
  | none => key

def FieldType.text : FieldType → String
  | .scalar s => scalarText s
  | .declared r => r.text
  | .placeholder => "bytes"
  | .map key value => "map<" ++ keyText key ++ ", " ++ value.text ++ ">"

/-- The declarations that a type refers to. -/
def FieldType.references : FieldType → List Reference
  | .scalar _ => []
  | .declared r => [r]
  | .placeholder => []
  | .map _ value => value.references

inductive Label where
  | plain
  | optional
  | repeated
deriving DecidableEq, Repr

def Label.text : Label → String
  | .plain => ""
  | .optional => "optional "
  | .repeated => "repeated "

structure FieldLine where
  comments : List String
  label : Label
  type : FieldType
  name : String
  number : UInt32
  options : List String
deriving DecidableEq, Repr

structure EnumLine where
  comments : List String
  name : String
  number : Int
deriving DecidableEq, Repr

/-- One alternative of a union. -/
structure MemberLine where
  reference : Reference
  name : String
  number : Nat
deriving DecidableEq, Repr

structure Rpc where
  comments : List String
  name : String
  input : FieldType
  inputStreamed : Bool
  output : FieldType
  outputStreamed : Bool
deriving DecidableEq, Repr

structure EnumBlock where
  comments : List String
  name : String
  lines : List EnumLine
deriving DecidableEq, Repr

structure MessageBlock where
  comments : List String
  name : String
  lines : List FieldLine
deriving DecidableEq, Repr

structure UnionBlock where
  comments : List String
  name : String
  members : List MemberLine
deriving DecidableEq, Repr

structure ServiceBlock where
  comments : List String
  name : String
  rpcs : List Rpc
deriving DecidableEq, Repr

/-- A file: its package, options of the file, imports, and blocks by kind. -/
structure File where
  package : String
  options : List String
  imports : List String
  enums : List EnumBlock
  messages : List MessageBlock
  unions : List UnionBlock
  services : List ServiceBlock
deriving DecidableEq, Repr

namespace File

/-- The names that the blocks of a file declare. -/
def declaredNames (f : File) : List String :=
  f.enums.map (·.name) ++ f.messages.map (·.name) ++ f.unions.map (·.name)

/-- The references that are written in a file. -/
def references (f : File) : List Reference :=
  (f.messages.flatMap fun b => b.lines.flatMap fun l => l.type.references) ++
  (f.unions.flatMap fun b => b.members.map (·.reference)) ++
  (f.services.flatMap fun b => b.rpcs.flatMap fun r => r.input.references ++ r.output.references)

end File

end Triglot.Proto
