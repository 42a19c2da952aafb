import Triglot.Number.Binary64
import Triglot.Text.Basic

/-! Numbers written in decimal: whole ones with an optional sign, and real ones with a point, an
exponent, or the words for what is not finite. -/
namespace Triglot.Literal

def isDigit (c : Char) : Bool := '0' ≤ c && c ≤ '9'

/-- The value of a digit in a base of up to sixteen. -/
def digit? (base : Nat) (c : Char) : Option Nat :=
  let value? :=
    if isDigit c then some (c.toNat - 48)
    else if 'a' ≤ c && c ≤ 'f' then some (c.toNat - 87)
    else if 'A' ≤ c && c ≤ 'F' then some (c.toNat - 55)
    else none
  value?.filter (· < base)

def natural? (base : Nat) : List Char → Option Nat
  | [] => none
  | cs => cs.foldlM (fun n c => (digit? base c).map (base * n + ·)) 0

/-- A sign and what follows it. -/
def signed : List Char → Bool × List Char
  | '-' :: cs => (true, cs)
  | '+' :: cs => (false, cs)
  | cs => (false, cs)

/-- A whole number in a base, with an optional sign. -/
def whole? (base : Nat) (cs : List Char) : Option Int :=
  (natural? base (signed cs).2).map fun n => if (signed cs).1 then -(n : Int) else n

/-- A whole number that fits into 64 bits with a sign. -/
def int64? (s : String) : Option Int :=
  (whole? 10 s.toList).filter fun n => Int64.minValue.toInt ≤ n && n ≤ Int64.maxValue.toInt

inductive Real where
  | finite (value : Binary64)
  | infinite (negative : Bool)
  | undefined
deriving DecidableEq, Repr

/-- The exponent after its mark. -/
def exponent? (cs : List Char) : Option Int :=
  match cs with
  | [] => some 0
  | c :: rest => if c = 'e' || c = 'E' then whole? 10 rest else none

/-- A number without sign: digits with a point before, among or after them, and an exponent. -/
def decimal? (negative : Bool) (cs : List Char) : Option Real := do
  let before := cs.takeWhile isDigit
  let rest := cs.dropWhile isDigit
  let (after, rest) := match rest with
    | '.' :: tail => (tail.takeWhile isDigit, tail.dropWhile isDigit)
    | _ => ([], rest)
  let digits ← natural? 10 (before ++ after)
  let exponent ← exponent? rest
  pure (match Binary64.ofDecimal? negative digits (exponent - after.length) with
    | some x => .finite x
    | none => .infinite negative)

def real? (s : String) : Option Real :=
  let (negative, cs) := signed s.toList
  match Text.asciiLower (String.ofList cs) with
  | "nan" => some .undefined
  | "inf" | "infinity" => some (.infinite negative)
  | _ => decimal? negative cs

end Triglot.Literal
