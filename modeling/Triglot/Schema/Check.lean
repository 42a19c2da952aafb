import Triglot.Diagnostic
import Triglot.Json.Printer
import Triglot.Schema.Basic

/-! Values against schemas. Every keyword tells the places where a value violates it, and a value is
valid if nothing is told. -/
namespace Triglot

/-- What a value lacks. -/
inductive Violation where
  | notOfType (value : Json) (types : List JsonType)
  | missing (name : String)
  | belowMinimum (value : Json) (bound : Nat)
  | notListed (value : Json) (values : List String)
  | noneOfAny (value : Json)
  | noneOfOne (value : Json)
  | manyOfOne (value : Json)
deriving Repr

namespace Violation

/-- Type names in alphabetical order. -/
def typeNames (types : List JsonType) : String :=
  ", ".intercalate ((JsonType.all.filter types.contains).map fun t => Json.quoted t.name)

def message : Violation → String
  | .notOfType v [t] => v.compact ++ " is not of type " ++ Json.quoted t.name
  | .notOfType v ts => v.compact ++ " is not of types " ++ typeNames ts
  | .missing name => Json.quoted name ++ " is a required property"
  | .belowMinimum v n =>
    v.compact ++ " is less than the minimum of " ++ Json.numberText (.real (.ofInt n))
  | .notListed v values => v.compact ++ " is not one of " ++ (Json.strings values).compact
  | .noneOfAny v =>
    v.compact ++ " is not valid under any of the schemas listed in the 'anyOf' keyword"
  | .noneOfOne v =>
    v.compact ++ " is not valid under any of the schemas listed in the 'oneOf' keyword"
  | .manyOfOne v =>
    v.compact ++ " is valid under more than one of the schemas listed in the 'oneOf' keyword"

end Violation

/-- A violation and the keys that lead to it. -/
structure Violated where
  path : List String
  violation : Violation
deriving Repr

/-- A key in a path, with the two characters that paths give a meaning escaped. -/
def pathKey (key : String) : String :=
  "." ++ Text.replaceChar '/' "~1" (Text.replaceChar '~' "~0" key)

def Violated.diagnostic (file : String) (v : Violated) : Diagnostic :=
  { code := Code.schemaViolation, severity := .error, message := v.violation.message, file
    path := "$" ++ String.join (v.path.map pathKey) }

namespace Json

mutual

/-- The number of collections around the innermost value. -/
def depth : Json → Nat
  | .array vs => itemsDepth vs + 1
  | .object es => entriesDepth es + 1
  | _ => 0

def itemsDepth : List Json → Nat
  | [] => 0
  | v :: vs => max (depth v) (itemsDepth vs)

def entriesDepth : List (String × Json) → Nat
  | [] => 0
  | (_, v) :: es => max (depth v) (entriesDepth es)

end

end Json

namespace DocumentSchema

/-- Places a list of findings under a key. -/
def under (key : String) (vs : List Violated) : List Violated :=
  vs.map fun v => { v with path := key :: v.path }

def one (v : Violation) : List Violated := [⟨[], v⟩]

def belowBound (bound : Nat) : JsonNumber → Bool
  | .whole n => n < bound
  | .real x => x.lt (.ofInt bound)

/-- The violations of a schema. A keyword is looked into for as long as the fuel lasts. -/
def check (d : DocumentSchema) : (fuel : Nat) → Schema → Json → List Violated
  | 0, _, _ => []
  | fuel + 1, s, v =>
    let valid (s : Schema) : Bool := (check d fuel s v).isEmpty
    s.keywords.flatMap fun
      | .note _ _ => []
      | .ref definition =>
        match d.definitions.lookup definition with
        | some s => check d fuel s v
        | none => []
      | .additionalProperties s =>
        match v with
        | .object es => es.flatMap fun e => under e.1 (check d fuel s e.2)
        | _ => []
      | .allOf ss => ss.flatMap fun s => check d fuel s v
      | .anyOf ss => if ss.any valid then [] else one (.noneOfAny v)
      | .enum values =>
        match v with
        | .string t => if values.contains t then [] else one (.notListed v values)
        | _ => one (.notListed v values)
      | .items s =>
        match v with
        | .array vs => vs.zipIdx.flatMap fun (v, i) => under (toString i) (check d fuel s v)
        | _ => []
      | .minimum bound =>
        match v with
        | .number n => if belowBound bound n then one (.belowMinimum v bound) else []
        | _ => []
      | .oneOf ss =>
        match ss.filter valid with
        | [] => one (.noneOfOne v)
        | [_] => []
        | _ => one (.manyOfOne v)
      | .properties ss =>
        match v with
        | .object es => ss.flatMap fun (key, s) =>
          match es.lookup key with
          | some v => under key (check d fuel s v)
          | none => []
        | _ => []
      | .required names =>
        match v with
        | .object es =>
          (names.filter fun n => !es.any (·.1 == n)).flatMap fun n => one (.missing n)
        | _ => []
      | .types ts => if ts.any (·.admits v) then [] else one (.notOfType v ts)

/-- The findings for a document. Between two levels of a value stand at most four keywords. -/
def violations (d : DocumentSchema) (v : Json) (file : String) : List Diagnostic :=
  (d.check (4 * v.depth + 8) d.schema v).map (Violated.diagnostic file)

end DocumentSchema

end Triglot
