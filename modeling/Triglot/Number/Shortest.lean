import Triglot.Number.Binary64

/-! The shortest decimal that reads back as a given number, and its written forms. -/
namespace Triglot

/-- Which of two equally near decimals is taken. -/
inductive Tie where
  | up
  | even
deriving DecidableEq, Repr

/-- The value `digits · 10^exponent`. -/
structure Decimal where
  digits : Nat
  exponent : Int
deriving DecidableEq, Repr

namespace Decimal

/-- Drops trailing zeros; `fuel` bounds their number. -/
def dropZeros : Nat → Decimal → Decimal
  | 0, d => d
  | fuel + 1, d =>
    if d.digits ≠ 0 ∧ d.digits % 10 = 0 then dropZeros fuel ⟨d.digits / 10, d.exponent + 1⟩ else d

/-- The number of places before the point. -/
def pointAt (d : Decimal) : Int :=
  (Nat.toDigits 10 d.digits).length + d.exponent

end Decimal

namespace Binary64

/-- The reals that round to a number, over a common denominator; the ends count if `closed`. -/
structure Interval where
  low : Nat
  value : Nat
  high : Nat
  denominator : Nat
  closed : Bool

def interval (x : Binary64) : Interval :=
  let below := if x.mantissa = Nat.pow 2 52 ∧ leastExponent < x.exponent then 1 else 2
  let m := 4 * x.mantissa
  let up : Nat := match x.exponent - 2 with
    | .ofNat k => Nat.pow 2 k
    | .negSucc _ => 1
  let down : Nat := match x.exponent - 2 with
    | .ofNat _ => 1
    | .negSucc k => Nat.pow 2 (k + 1)
  ⟨(m - below) * up, m * up, (m + 2) * up, down, x.mantissa % 2 == 0⟩

/-- The exponent of the leading decimal digit of `n / d`. -/
def leadingPlace (n d : Nat) : Int :=
  if d ≤ n then ((Nat.toDigits 10 (n / d)).length : Int) - 1
  else
    let places := (Nat.toDigits 10 (d / n)).length
    if d ≤ n * Nat.pow 10 (places - 1) then 1 - (places : Int) else -(places : Int)

/-- The decimal of the grid `10^place` inside the interval that is nearest to the value. -/
def Interval.nearest? (r : Interval) (tie : Tie) (place : Int) : Option Decimal :=
  let unit : Nat × Nat := match place with
    | .ofNat k => (Nat.pow 10 k * r.denominator, 1)
    | .negSucc k => (r.denominator, Nat.pow 10 (k + 1))
  let value := r.value * unit.2
  let inside (g : Nat) : Bool :=
    let at' := g * unit.1
    let low := r.low * unit.2
    let high := r.high * unit.2
    if r.closed then low ≤ at' && at' ≤ high else low < at' && at' < high
  let g := value / unit.1
  let rest := value % unit.1
  let upper := unit.1 < 2 * rest || (2 * rest == unit.1 && (tie == .up || g % 2 == 1))
  let first := if upper then g + 1 else g
  let second := if upper then g else g + 1
  if inside first then some ⟨first, place⟩
  else if inside second then some ⟨second, place⟩
  else none

/-- Tries `count` digits and more, up to seventeen, where a hit is certain. -/
def shortestFrom (r : Interval) (tie : Tie) (lead : Int) : (fuel count : Nat) → Decimal
  | 0, _ => ⟨r.value / r.denominator, 0⟩
  | fuel + 1, count =>
    match r.nearest? tie (lead - count + 1) with
    | some d => d
    | none => shortestFrom r tie lead fuel (count + 1)

/-- The decimal with the fewest digits that rounds to the magnitude, and the nearest of those. -/
def shortest (tie : Tie) (x : Binary64) : Decimal :=
  if x.isZero then ⟨0, 0⟩
  else
    let r := x.interval
    Decimal.dropZeros 20 (shortestFrom r tie (leadingPlace r.value r.denominator) 18 1)

end Binary64

/-- The decisions of a written number. -/
structure NumberLayout where
  /-- The least and greatest number of places before the point that are written without exponent. -/
  positional : Option (Int × Int)
  /-- Whether a whole number keeps `.0`. -/
  keepsPoint : Bool
  /-- Whether a positive exponent has a plus sign. -/
  plus : Bool
  tie : Tie

namespace NumberLayout

def zeros (n : Int) : List Char := List.replicate n.toNat '0'

/-- Digits without an exponent. -/
def positionalText (keepsPoint : Bool) (d : Decimal) : List Char :=
  let ds := Nat.toDigits 10 d.digits
  let point := d.pointAt
  if 0 ≤ d.exponent then
    ds ++ zeros d.exponent ++ (if keepsPoint then ['.', '0'] else [])
  else if 0 < point then ds.take point.toNat ++ ['.'] ++ ds.drop point.toNat
  else ['0', '.'] ++ zeros (-point) ++ ds

/-- Digits with one place before the point, and an exponent. -/
def scientificText (plus : Bool) (d : Decimal) : List Char :=
  let ds := Nat.toDigits 10 d.digits
  let e := d.pointAt - 1
  let mark := if e < 0 then ['e', '-'] else if plus then ['e', '+'] else ['e']
  let head := match ds with
    | c :: c' :: cs => [c, '.'] ++ c' :: cs
    | cs => cs
  head ++ mark ++ Nat.toDigits 10 e.natAbs

def render (l : NumberLayout) (x : Binary64) : String :=
  let d := x.shortest l.tie
  let body :=
    match l.positional with
    | none => positionalText l.keepsPoint d
    | some (least, greatest) =>
      if x.isZero || (least ≤ d.pointAt && d.pointAt ≤ greatest) then
        positionalText l.keepsPoint d
      else scientificText l.plus d
  String.ofList (if x.negative then '-' :: body else body)

end NumberLayout

/-- All digits, never an exponent, whole numbers without a point. -/
def NumberLayout.plain : NumberLayout := ⟨none, false, false, .up⟩

/-- Exponents outside `1e-5 ≤ |x| < 1e16`, with a plus sign. -/
def NumberLayout.signed : NumberLayout := ⟨some (-4, 16), true, true, .even⟩

/-- Exponents outside `1e-5 ≤ |x| < 1e16`, without a plus sign. -/
def NumberLayout.unsigned : NumberLayout := ⟨some (-4, 16), true, false, .even⟩

end Triglot
