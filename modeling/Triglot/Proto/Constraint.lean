import Triglot.Model.Basic
import Triglot.Number.Shortest

/-! Constraints on field values, as options in the form of a validation extension. -/
namespace Triglot.Proto

/-- Doubles the backslash and puts one before a quote. -/
def escape (cs : List Char) : List Char :=
  cs.flatMap fun c => if c = '\\' then ['\\', '\\'] else if c = '"' then ['\\', '"'] else [c]

/-- A text as a literal. -/
def literal (s : String) : String := String.ofList ('"' :: escape s.toList ++ ['"'])

def optionName : String := "(buf.validate.field)"

inductive Relation where
  | gte
  | lte
  | gt
  | lt
deriving DecidableEq, Repr

def Relation.name : Relation → String
  | .gte => "gte"
  | .lte => "lte"
  | .gt => "gt"
  | .lt => "lt"

/-- A number as it is written for a kind: whole numbers for integers, all digits for the others. -/
inductive NumberLiteral where
  | whole (value : Int)
  | real (value : Binary64)
deriving DecidableEq, Repr

def NumberLiteral.text : NumberLiteral → String
  | .whole n => toString n
  | .real x => NumberLayout.plain.render x

structure Bound where
  kind : String
  relation : Relation
  literal : NumberLiteral
deriving DecidableEq, Repr

def Bound.text (b : Bound) : String :=
  s!"{optionName}.{b.kind}.{b.relation.name} = {b.literal.text}"

/-- The nearest signed 64-bit integer. -/
def clampInt64 (n : Int) : Int := max Int64.minValue.toInt (min Int64.maxValue.toInt n)

/-- The rule family of a numeric scalar, and whether its values are whole. -/
def numericKind : Scalar → Option (String × Bool)
  | .int32 => some ("int32", true)
  | .int64 => some ("int64", true)
  | .uint8 | .uint16 | .uint32 => some ("uint32", true)
  | .uint64 => some ("uint64", true)
  | .float32 => some ("float", false)
  | .float64 => some ("double", false)
  | _ => none

/-- A bound as a literal; whole kinds lose what stands behind the point. -/
def boundLiteral (isWhole : Bool) (b : Binary64) : NumberLiteral :=
  if isWhole then .whole (clampInt64 b.truncate) else .real b

def numericBounds (s : Scalar) (r : Rules) : List Bound :=
  match numericKind s with
  | none => []
  | some (kind, isWhole) =>
    [(Relation.gte, r.min), (.lte, r.max), (.gt, r.exclusiveMin), (.lt, r.exclusiveMax)].filterMap
      fun (relation, bound) => bound.map fun b => ⟨kind, relation, boundLiteral isWhole b⟩

/-- The formats that have a rule of their own. -/
def formatRule? (format : String) : Option String :=
  [("email", "email"), ("uuid", "uuid"), ("uri", "uri"), ("url", "uri"), ("hostname", "hostname"),
   ("ipv4", "ipv4"), ("ipv6", "ipv6")].lookup format

def setting (path value : String) : String := optionName ++ "." ++ path ++ " = " ++ value

def word (path : String) (n : Option UInt64) : List String :=
  (n.map fun n => setting path (toString n.toNat)).toList

def stringConstraints (r : Rules) : List String :=
  word "string.min_len" r.minLength ++ word "string.max_len" r.maxLength ++
  (r.pattern.map fun p => setting "string.pattern" (literal p)).toList ++
  ((r.format.bind formatRule?).map fun f => setting ("string." ++ f) "true").toList ++
  (if r.allowed.isEmpty then []
   else [setting "string.in" ("[" ++ ", ".intercalate (r.allowed.map literal) ++ "]")])

def listConstraints (r : Rules) : List String :=
  word "repeated.min_items" r.minItems ++ word "repeated.max_items" r.maxItems ++
  (if r.uniqueItems then [setting "repeated.unique" "true"] else [])

/-- The constraints that a field of a given type can carry. -/
def constraints (type : TypeExpr) (r : Rules) : List String :=
  match type with
  | .named name _ =>
    match Scalar.ofName? name with
    | some .string => stringConstraints r
    | some s => (numericBounds s r).map Bound.text
    | none => []
  | .array _ _ => listConstraints r
  | .map _ _ _ => []

/-- The constraints of a field. -/
def fieldConstraints (f : Field) : List String :=
  match f.rules with
  | some r => constraints f.type r
  | none => []

/-- All options of a field: its deprecation, its constraints, then its own. -/
def fieldOptions (f : Field) : List String :=
  (if f.deprecated.isSome then ["deprecated = true"] else []) ++ fieldConstraints f ++
    f.annotations.optionsFor .proto

end Triglot.Proto
