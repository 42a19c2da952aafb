/-! Finite binary64 numbers as exact dyadic values. Every operation is computed in whole numbers and
rounded once, to the nearest representable value and to the even one of two. -/
namespace Triglot

/-- The number `mantissa · 2^exponent`, negated if `negative`. The canonical form has a mantissa
below `2^53`, the exponent `-1074` for a mantissa below `2^52`, and no larger exponent than needed. -/
structure Binary64 where
  negative : Bool
  mantissa : Nat
  exponent : Int
deriving DecidableEq, Repr, Inhabited

namespace Binary64

def leastExponent : Int := -1074

def greatestExponent : Int := 971

def zero (negative : Bool) : Binary64 := ⟨negative, 0, leastExponent⟩

def isZero (x : Binary64) : Bool := x.mantissa == 0

def neg (x : Binary64) : Binary64 := ⟨!x.negative, x.mantissa, x.exponent⟩

/-- The quotient rounded to the nearest whole number, a half to the even one. -/
def roundEven (n d : Nat) : Nat :=
  let q := n / d
  let r := n % d
  if 2 * r < d then q else if d < 2 * r then q + 1 else q + q % 2

/-- `n / (d · 2^e)` as a fraction of natural numbers. -/
def scaled (n d : Nat) (e : Int) : Nat × Nat :=
  match e with
  | .ofNat k => (n, d * Nat.pow 2 k)
  | .negSucc k => (n * Nat.pow 2 (k + 1), d)

/-- The exponent at which `n / d` has a mantissa of 53 bits, or the least one. -/
def exponentOf (n d : Nat) : Int :=
  let guess : Int := (n.log2 : Int) - d.log2 - 52
  let q := scaled n d guess
  max leastExponent (if q.1 / q.2 < Nat.pow 2 52 then guess - 1 else guess)

/-- The nearest number to `n / d`; `none` if that is beyond the greatest finite one. -/
def ofRatio? (negative : Bool) (n d : Nat) : Option Binary64 :=
  if n = 0 then some (zero negative)
  else
    let e := exponentOf n d
    let q := scaled n d e
    let m := roundEven q.1 q.2
    let x : Binary64 := if m = Nat.pow 2 53 then ⟨negative, Nat.pow 2 52, e + 1⟩ else ⟨negative, m, e⟩
    if greatestExponent < x.exponent then none else some x

/-- Numerator and denominator of the magnitude. -/
def ratio (x : Binary64) : Nat × Nat :=
  match x.exponent with
  | .ofNat k => (x.mantissa * Nat.pow 2 k, 1)
  | .negSucc k => (x.mantissa, Nat.pow 2 (k + 1))

def mul? (x y : Binary64) : Option Binary64 :=
  let a := x.ratio
  let b := y.ratio
  ofRatio? (x.negative != y.negative) (a.1 * b.1) (a.2 * b.2)

/-- The quotient by a number that is not zero. -/
def div? (x y : Binary64) : Option Binary64 :=
  let a := x.ratio
  let b := y.ratio
  ofRatio? (x.negative != y.negative) (a.1 * b.2) (a.2 * b.1)

/-- The nearest number to a whole number of fewer than 1024 bits. -/
def ofInt (n : Int) : Binary64 :=
  (ofRatio? (n < 0) n.natAbs 1).getD (zero false)

/-- The nearest number to `digits · 10^exponent`. Magnitudes that are out of reach either way are
settled by the number of digits, before any power is taken. -/
def ofDecimal? (negative : Bool) (digits : Nat) (exponent : Int) : Option Binary64 :=
  if digits = 0 then some (zero negative)
  else
    let places : Int := (Nat.toDigits 10 digits).length + exponent
    if 310 < places then none
    else if places < -330 then some (zero negative)
    else match exponent with
      | .ofNat k => ofRatio? negative (digits * Nat.pow 10 k) 1
      | .negSucc k => ofRatio? negative digits (Nat.pow 10 (k + 1))

/-- The whole part, toward zero. -/
def truncate (x : Binary64) : Int :=
  let r := x.ratio
  let q : Int := (r.1 / r.2 : Nat)
  if x.negative then -q else q

/-- Whether the value is a whole number. -/
def isWhole (x : Binary64) : Bool :=
  let r := x.ratio
  r.1 % r.2 == 0

/-- Numerator of the value over the denominator of `ratio`. -/
def signedNumerator (x : Binary64) : Int :=
  if x.negative then -(x.ratio.1 : Int) else x.ratio.1

/-- The order of the values; both zeros are equal. -/
def lt (x y : Binary64) : Bool :=
  x.signedNumerator * y.ratio.2 < y.signedNumerator * x.ratio.2

end Binary64

end Triglot
