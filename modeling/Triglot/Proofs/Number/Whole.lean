import Triglot.Model.Target
import Triglot.Number.Literal

/-! Whole numbers: the ones that a scalar holds, and their decimal spelling, which reads back as the
number. -/
namespace Triglot

structure IntegerRange where
  least : Int
  greatest : Int
deriving DecidableEq, Repr

instance : Membership Int IntegerRange :=
  ⟨fun range n => range.least ≤ n ∧ n ≤ range.greatest⟩

instance (n : Int) (range : IntegerRange) : Decidable (n ∈ range) :=
  inferInstanceAs (Decidable (range.least ≤ n ∧ n ≤ range.greatest))

def Scalar.integers? : Scalar → Option IntegerRange
  | .int32 => some ⟨-2147483648, 2147483647⟩
  | .int64 => some ⟨-9223372036854775808, 9223372036854775807⟩
  | .uint8 => some ⟨0, 255⟩
  | .uint16 => some ⟨0, 65535⟩
  | .uint32 => some ⟨0, 4294967295⟩
  | .uint64 => some ⟨0, 18446744073709551615⟩
  | _ => none

/-- No scalar goes below the signed 64-bit integers, and zero is a value of each. -/
theorem Scalar.integers?_around_zero {s : Scalar} {range : IntegerRange}
    (h : s.integers? = some range) :
    Int64.minValue.toInt ≤ range.least ∧ range.least ≤ 0 ∧ 0 ≤ range.greatest := by
  cases s <;> cases h <;> decide

/-- Only one scalar goes beyond the signed 64-bit integers. -/
theorem Scalar.eq_uint64_of_lt {s : Scalar} {range : IntegerRange} (h : s.integers? = some range)
    (hlt : Int64.maxValue.toInt < range.greatest) : s = .uint64 := by
  cases s with
  | uint64 => rfl
  | _ => cases h <;> exact absurd hlt (by decide)

theorem Scalar.ofName?_name (s : Scalar) : Scalar.ofName? s.name = some s := by
  cases s <;> decide

namespace Literal

theorem digit?_of_isDigit {c : Char} (h : c.isDigit = true) :
    digit? 10 c = some (c.toNat - '0'.toNat) := by
  obtain ⟨hl, hh⟩ : 48 ≤ c.val ∧ c.val ≤ 57 := by simpa [Char.isDigit] using h
  have hlow : '0' ≤ c := hl
  have hhigh : c ≤ '9' := hh
  have hbound : c.toNat ≤ 57 := hhigh
  have hvalue : c.toNat - 48 < 10 := by omega
  simp [digit?, isDigit, hlow, hhigh, hvalue]

/-- Digits are read as the library reads them. -/
theorem natural?_of_digits {cs : List Char} (hne : cs ≠ []) (h : ∀ c ∈ cs, c.isDigit = true) :
    natural? 10 cs = some (Nat.ofDigitChars 10 cs 0) := by
  have hrun (cs : List Char) (n : Nat) (h : ∀ c ∈ cs, c.isDigit = true) :
      cs.foldlM (fun n c => (digit? 10 c).map (10 * n + ·)) n = some (Nat.ofDigitChars 10 cs n) := by
    induction cs generalizing n with
    | nil => rfl
    | cons c cs ih =>
      rw [List.foldlM_cons, digit?_of_isDigit (h c List.mem_cons_self), Nat.ofDigitChars_cons]
      exact ih _ fun d hd => h d (List.mem_cons_of_mem c hd)
  cases cs with
  | nil => exact absurd rfl hne
  | cons c cs => exact hrun (c :: cs) 0 h

theorem isDigit_toDigits (n : Nat) : ∀ c ∈ Nat.toDigits 10 n, c.isDigit = true :=
  fun _ hc => Nat.isDigit_of_mem_toDigits (by decide) (by decide) hc

theorem natural?_toDigits (n : Nat) : natural? 10 (Nat.toDigits 10 n) = some n := by
  rw [natural?_of_digits Nat.toDigits_ne_nil (isDigit_toDigits n), Nat.ofDigitChars_ten_toDigits]

/-- A text that starts with a digit has no sign. -/
theorem signed_toDigits (n : Nat) : signed (Nat.toDigits 10 n) = (false, Nat.toDigits 10 n) := by
  unfold signed
  split
  · rename_i cs heq
    exact absurd (isDigit_toDigits n '-' (heq ▸ List.mem_cons_self)) (by decide)
  · rename_i cs heq
    exact absurd (isDigit_toDigits n '+' (heq ▸ List.mem_cons_self)) (by decide)
  · rfl

/-- The decimal spelling of a whole number reads back as the number. -/
theorem whole?_toString (n : Int) : whole? 10 (toString n).toList = some n := by
  cases n with
  | ofNat k =>
    have htext : (toString (Int.ofNat k)).toList = Nat.toDigits 10 k := Nat.toList_repr
    rw [htext, whole?, signed_toDigits, natural?_toDigits]
    rfl
  | negSucc k =>
    have htext : (toString (Int.negSucc k)).toList = '-' :: Nat.toDigits 10 (k + 1) := by
      rw [Int.toString_eq_repr, Int.repr, String.toList_append, Nat.toList_repr]
      rfl
    rw [htext, whole?, signed, natural?_toDigits]
    rfl

/-- A decimal spelling is taken for a 64-bit integer exactly if its number is one. -/
theorem int64?_toString (n : Int) :
    int64? (toString n) =
      if Int64.minValue.toInt ≤ n ∧ n ≤ Int64.maxValue.toInt then some n else none := by
  rw [int64?, whole?_toString, Option.filter_some]
  simp only [Bool.and_eq_true, decide_eq_true_eq]

end Literal

end Triglot
