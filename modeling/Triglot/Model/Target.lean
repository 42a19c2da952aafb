import Triglot.Text.Basic

/-! The three schema languages, and data kept once for each. -/
namespace Triglot

inductive Target where
  | proto
  | graphql
  | openapi
deriving DecidableEq, Repr, Inhabited

namespace Target

def all : List Target := [.proto, .graphql, .openapi]

def name : Target → String
  | .proto => "proto"
  | .graphql => "graphql"
  | .openapi => "openapi"

/-- The names by which documents refer to a target. -/
def table : List (String × Target) := all.map fun t => (t.name, t)

/-- The spellings that a command line takes, besides case and surrounding blanks. -/
def spellings : List (String × Target) :=
  [("proto", .proto), ("protobuf", .proto), ("graphql", .graphql), ("gql", .graphql),
   ("openapi", .openapi), ("oas", .openapi)]

/-- A target by one of its spellings, or the text of the complaint. -/
def parse (s : String) : Except String Target :=
  let word := Text.asciiLower (Text.trim s)
  match spellings.lookup word with
  | some t => .ok t
  | none => .error s!"unknown target '{word}', expected one of: proto, graphql, openapi"

end Target

/-- One value for each target. -/
structure PerTarget (α : Type) where
  proto : α
  graphql : α
  openapi : α
deriving DecidableEq, Repr, Inhabited

namespace PerTarget

def get {α : Type} (p : PerTarget α) : Target → α
  | .proto => p.proto
  | .graphql => p.graphql
  | .openapi => p.openapi

def set {α : Type} (p : PerTarget α) (t : Target) (a : α) : PerTarget α :=
  match t with
  | .proto => { p with proto := a }
  | .graphql => { p with graphql := a }
  | .openapi => { p with openapi := a }

def replicate {α : Type} (a : α) : PerTarget α := ⟨a, a, a⟩

end PerTarget

/-- The scalar types that every target can spell. -/
inductive Scalar where
  | string
  | int32
  | int64
  | uint8
  | uint16
  | uint32
  | uint64
  | float32
  | float64
  | bool
  | timestamp
  | bytes
deriving DecidableEq, Repr

namespace Scalar

def name : Scalar → String
  | .string => "string"
  | .int32 => "int32"
  | .int64 => "int64"
  | .uint8 => "uint8"
  | .uint16 => "uint16"
  | .uint32 => "uint32"
  | .uint64 => "uint64"
  | .float32 => "float32"
  | .float64 => "float64"
  | .bool => "bool"
  | .timestamp => "timestamp"
  | .bytes => "bytes"

def all : List Scalar :=
  [.string, .int32, .int64, .uint8, .uint16, .uint32, .uint64, .float32, .float64, .bool,
   .timestamp, .bytes]

def table : List (String × Scalar) := all.map fun s => (s.name, s)

def ofName? (name : String) : Option Scalar := table.lookup name

end Scalar

/-- Whether a name is that of a scalar, which no declaration can replace. -/
def isScalar (name : String) : Bool := (Scalar.ofName? name).isSome

end Triglot
