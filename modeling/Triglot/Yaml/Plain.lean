import Triglot.Number.Literal

/-! What a scalar without quotes stands for: the null, a truth value, a number, or itself. -/
namespace Triglot.Yaml

inductive Plain where
  | null
  | bool (value : Bool)
  | whole (value : Int)
  /-- A whole number of more than 64 and at most 128 bits. -/
  | wide
  | real (value : Literal.Real)
  | text
deriving DecidableEq, Repr

namespace Plain

/-- Digits with a needless zero in front are no number. -/
def hasLeadingZero (cs : List Char) : Bool :=
  let digits := match cs with
    | '-' :: rest => rest
    | '+' :: rest => rest
    | _ => cs
  1 < digits.length && digits.head? == some '0' && digits.all Literal.isDigit

/-- The base that a mark selects, with the digits after the mark. -/
def marked? : List Char → Option (Nat × List Char)
  | '0' :: 'x' :: rest => some (16, rest)
  | '0' :: 'o' :: rest => some (8, rest)
  | '0' :: 'b' :: rest => some (2, rest)
  | _ => none

/-- A whole number without sign. -/
def magnitude? (cs : List Char) : Option Nat :=
  match marked? cs with
  | some (base, digits) => Literal.natural? base digits
  | none => if hasLeadingZero cs then none else Literal.natural? 10 cs

def whole? : List Char → Option Int
  | '+' :: rest => (magnitude? rest).map Int.ofNat
  | '-' :: rest => (magnitude? rest).map fun n => -(n : Int)
  | cs => (magnitude? cs).map Int.ofNat

/-- A whole number by its width; one that is too wide for 128 bits may still be real. -/
def ofWhole? (n : Int) : Option Plain :=
  if Int64.minValue.toInt ≤ n && n < UInt64.size then some (.whole n)
  else if -(Nat.pow 2 127 : Int) ≤ n && n < Nat.pow 2 128 then some .wide
  else none

/-- The text without one plus sign in front of it. -/
def dropPlus? : List Char → Option (List Char)
  | '+' :: '+' :: _ => none
  | '+' :: '-' :: _ => none
  | '+' :: rest => some rest
  | cs => some cs

/-- A real number, or the words with a point for what is not finite. -/
def real? (s : String) : Option Literal.Real := do
  let unsigned := String.ofList (← dropPlus? s.toList)
  if [".inf", ".Inf", ".INF"].contains unsigned then pure (.infinite false)
  else if ["-.inf", "-.Inf", "-.INF"].contains s then pure (.infinite true)
  else if [".nan", ".NaN", ".NAN"].contains s then pure .undefined
  else match ← Literal.real? unsigned with
    | .finite x => pure (.finite x)
    | _ => none

def number? (s : String) : Option Plain :=
  ((whole? s.toList).bind ofWhole?).or
    (if hasLeadingZero s.toList then none else (real? s).map .real)

def isNull (s : String) : Bool := ["null", "Null", "NULL", "~"].contains s

def bool? (s : String) : Option Bool :=
  if ["true", "True", "TRUE"].contains s then some true
  else if ["false", "False", "FALSE"].contains s then some false
  else none

def read (s : String) : Plain :=
  if s.isEmpty || isNull s then .null
  else match bool? s with
    | some b => .bool b
    | none => (number? s).getD .text

end Plain

end Triglot.Yaml
