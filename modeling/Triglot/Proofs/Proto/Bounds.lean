import Mathlib.Algebra.Order.Floor.Ring
import Mathlib.Data.Rat.Floor
import Triglot.Proofs.Number.Whole
import Triglot.Proto.Constraint

/-! Bounds of integer fields. A bound is a binary64 number, and the constraint on an integer field holds it
as a whole number: what stands behind the point is dropped, and the rest is brought into 64 bits with a
sign. Whether the constraint still says what the bound says depends on the side on which the fraction was
and on the values that the field can have. -/
namespace Triglot

namespace Binary64

def value (x : Binary64) : ℚ :=
  (if x.negative then -1 else 1) * (x.mantissa * 2 ^ x.exponent)

theorem magnitude_eq (x : Binary64) :
    (x.mantissa * 2 ^ x.exponent : ℚ) = (x.ratio.1 : ℚ) / x.ratio.2 := by
  unfold ratio
  cases x.exponent with
  | ofNat k => simp
  | negSucc k => simp [zpow_negSucc, div_eq_mul_inv]

/-- The whole part of a number is its floor or its ceiling, whichever is nearer to zero. -/
theorem truncate_cases (x : Binary64) :
    0 ≤ x.value ∧ x.truncate = ⌊x.value⌋ ∨ x.value ≤ 0 ∧ x.truncate = ⌈x.value⌉ := by
  have hfloor : ⌊(x.ratio.1 : ℚ) / x.ratio.2⌋ = ((x.ratio.1 / x.ratio.2 : Nat) : Int) := by
    rw [Rat.floor_natCast_div_natCast, Int.natCast_div]
  have hnonneg : 0 ≤ (x.ratio.1 : ℚ) / x.ratio.2 := by positivity
  unfold value truncate
  rw [magnitude_eq]
  cases x.negative with
  | false => exact .inl (by simp [hfloor, hnonneg])
  | true => exact .inr (by simp [hfloor, hnonneg, Int.ceil_neg])

end Binary64

namespace IntegerRange

variable {range : IntegerRange}

/-- Two lower ends leave the same values of a range if they are equal or both outside it. -/
theorem from_iff (h : range.least ≤ range.greatest) (a b : Int) :
    (∀ x ∈ range, a ≤ x ↔ b ≤ x) ↔
      a = b ∨ (a ≤ range.least ∧ b ≤ range.least) ∨ (range.greatest < a ∧ range.greatest < b) := by
  constructor
  · intro hall
    by_cases hout : range.greatest < min a b
    · omega
    · -- The smaller end, or else the least value, tells the two apart.
      have hat := hall (max (min a b) range.least) ⟨by omega, by omega⟩
      omega
  · rintro hends x ⟨hlow, hhigh⟩
    omega

/-- Two upper ends leave the same values of a range if they are equal or both outside it. -/
theorem upTo_iff (h : range.least ≤ range.greatest) (a b : Int) :
    (∀ x ∈ range, x ≤ a ↔ x ≤ b) ↔
      a = b ∨ (a < range.least ∧ b < range.least) ∨ (range.greatest ≤ a ∧ range.greatest ≤ b) := by
  constructor
  · intro hall
    by_cases hout : max a b < range.least
    · omega
    · have hat := hall (min (max a b) range.greatest) ⟨by omega, by omega⟩
      omega
  · rintro hends x ⟨hlow, hhigh⟩
    omega

end IntegerRange

def Rules.bound? (r : Rules) : Proto.Relation → Option Binary64
  | .gte => r.min
  | .lte => r.max
  | .gt => r.exclusiveMin
  | .lt => r.exclusiveMax

namespace Proto

namespace Relation

def all : List Relation := [.gte, .lte, .gt, .lt]

def Holds (x bound : ℚ) : Relation → Prop
  | .gte => bound ≤ x
  | .lte => x ≤ bound
  | .gt => bound < x
  | .lt => x < bound

/-- The relation is decided between two neighbours, and the cut tells them: it is the upper one for `gte`
and `lt`, and the lower one for the others. -/
def cut (bound : ℚ) : Relation → Int
  | .gte | .lt => ⌈bound⌉
  | .lte | .gt => ⌊bound⌋

theorem holds_cut (relation : Relation) (x : Int) (bound : ℚ) :
    relation.Holds x bound ↔ relation.Holds x (relation.cut bound) := by
  cases relation with
  | gte => exact Int.ceil_le.symm.trans Int.cast_le.symm
  | lte => exact Int.le_floor.symm.trans Int.cast_le.symm
  | gt => exact Int.floor_lt.symm.trans Int.cast_lt.symm
  | lt => exact Int.lt_ceil.symm.trans Int.cast_lt.symm

/-- When a bound may be cut to a whole number of 64 bits. A fraction may be lost toward zero where the cut is
made in this direction, and where the bound is outside the range. The greatest and the least 64-bit
integer may stand for bounds beyond them if no value of the range could tell. -/
def Survives (range : IntegerRange) (bound : ℚ) : Relation → Prop
  | .gte | .lt =>
    (bound ≤ 0 ∨ (⌊bound⌋ : ℚ) = bound ∨ range.greatest + 1 ≤ bound) ∧
      (bound < Int64.maxValue.toInt + 1 ∨ range.greatest < Int64.maxValue.toInt)
  | .lte | .gt =>
    (0 ≤ bound ∨ (⌊bound⌋ : ℚ) = bound ∨ bound ≤ range.least - 1) ∧
      (bound < Int64.maxValue.toInt + 1 ∨ range.greatest ≤ Int64.maxValue.toInt) ∧
      (Int64.minValue.toInt ≤ bound ∨ Int64.minValue.toInt < range.least)

/-- A bound is whole if nothing is between its floor and its ceiling. -/
theorem floor_eq_iff_ceil (bound : ℚ) : (⌊bound⌋ : ℚ) = bound ↔ ⌊bound⌋ = ⌈bound⌉ := by
  constructor
  · intro h
    rw [← h, Int.floor_intCast, Int.ceil_intCast]
  · intro h
    have hceil : bound ≤ (⌊bound⌋ : ℚ) := h ▸ Int.le_ceil bound
    exact le_antisymm (Int.floor_le bound) hceil

/-- A bound is below a whole number if its floor is. -/
theorem lt_add_one_iff_floor (bound : ℚ) (n : Int) : bound < (n + 1 : ℚ) ↔ ⌊bound⌋ < n + 1 := by
  rw [Int.floor_lt, Int.cast_add, Int.cast_one]

/-- For `gte` and `lt`, in terms of the two whole numbers next to the bound. -/
theorem survives_upper_iff (range : IntegerRange) (bound : ℚ) :
    Survives range bound .gte ↔
      (⌈bound⌉ ≤ 0 ∨ ⌊bound⌋ = ⌈bound⌉ ∨ range.greatest + 1 ≤ ⌊bound⌋) ∧
        (⌊bound⌋ < Int64.maxValue.toInt + 1 ∨ range.greatest < Int64.maxValue.toInt) := by
  have hzero : bound ≤ 0 ↔ ⌈bound⌉ ≤ 0 := by rw [Int.ceil_le, Int.cast_zero]
  have habove : (range.greatest + 1 : ℚ) ≤ bound ↔ range.greatest + 1 ≤ ⌊bound⌋ := by
    rw [Int.le_floor, Int.cast_add, Int.cast_one]
  rw [Survives, hzero, habove, lt_add_one_iff_floor, floor_eq_iff_ceil]

/-- For `lte` and `gt`, in terms of the two whole numbers next to the bound. -/
theorem survives_lower_iff (range : IntegerRange) (bound : ℚ) :
    Survives range bound .lte ↔
      (0 ≤ ⌊bound⌋ ∨ ⌊bound⌋ = ⌈bound⌉ ∨ ⌈bound⌉ ≤ range.least - 1) ∧
        (⌊bound⌋ < Int64.maxValue.toInt + 1 ∨ range.greatest ≤ Int64.maxValue.toInt) ∧
        (Int64.minValue.toInt ≤ ⌊bound⌋ ∨ Int64.minValue.toInt < range.least) := by
  have hzero : 0 ≤ bound ↔ 0 ≤ ⌊bound⌋ := by rw [Int.le_floor, Int.cast_zero]
  have hbelow : bound ≤ (range.least - 1 : ℚ) ↔ ⌈bound⌉ ≤ range.least - 1 := by
    rw [Int.ceil_le, Int.cast_sub, Int.cast_one]
  have hsmall : (Int64.minValue.toInt : ℚ) ≤ bound ↔ Int64.minValue.toInt ≤ ⌊bound⌋ :=
    Int.le_floor.symm
  rw [Survives, hzero, hbelow, lt_add_one_iff_floor, hsmall, floor_eq_iff_ceil]

/-- Cut to a whole number of 64 bits, a bound says the same of a range around zero exactly if it survives. -/
theorem holds_clamped_iff (relation : Relation) {range : IntegerRange}
    (hmin : Int64.minValue.toInt ≤ range.least) (hleast : range.least ≤ 0)
    (hgreatest : 0 ≤ range.greatest) (b : Binary64) :
    (∀ x ∈ range, relation.Holds x (clampInt64 b.truncate) ↔ relation.Holds x b.value) ↔
      relation.Survives range b.value := by
  have hrange : range.least ≤ range.greatest := by omega
  have hmax : 0 < Int64.maxValue.toInt := by decide
  have hnear : ⌊b.value⌋ ≤ ⌈b.value⌉ ∧ ⌈b.value⌉ ≤ ⌊b.value⌋ + 1 :=
    ⟨Int.floor_le_ceil b.value, Int.ceil_le_floor_add_one b.value⟩
  -- The whole part, before it is clamped, is the one of the two neighbours that is nearer to zero.
  have hpart : 0 ≤ ⌊b.value⌋ ∧ b.truncate = ⌊b.value⌋ ∨ ⌈b.value⌉ ≤ 0 ∧ b.truncate = ⌈b.value⌉ := by
    rcases b.truncate_cases with ⟨hsign, ht⟩ | ⟨hsign, ht⟩
    · exact .inl ⟨Int.floor_nonneg.mpr hsign, ht⟩
    · exact .inr ⟨Int.ceil_nonpos.mpr hsign, ht⟩
  have hupper : (∀ x ∈ range, clampInt64 b.truncate ≤ x ↔ ⌈b.value⌉ ≤ x) ↔
      Survives range b.value .gte := by
    rw [IntegerRange.from_iff hrange, survives_upper_iff]
    unfold clampInt64
    omega
  have hlower : (∀ x ∈ range, x ≤ clampInt64 b.truncate ↔ x ≤ ⌊b.value⌋) ↔
      Survives range b.value .lte := by
    rw [IntegerRange.upTo_iff hrange, survives_lower_iff]
    unfold clampInt64
    omega
  simp only [holds_cut relation _ b.value]
  cases relation with
  | gte => simpa only [Holds, cut, Int.cast_le] using hupper
  | lt =>
    change _ ↔ Survives range b.value .gte
    simpa only [Holds, cut, Int.cast_lt, ← Int.not_le, not_iff_not] using hupper
  | lte => simpa only [Holds, cut, Int.cast_le] using hlower
  | gt =>
    change _ ↔ Survives range b.value .lte
    simpa only [Holds, cut, Int.cast_lt, ← Int.not_le, not_iff_not] using hlower

end Relation

/-- Integer scalars are written as a kind of whole numbers. -/
theorem numericKind_of_integers? {s : Scalar} {range : IntegerRange} (h : s.integers? = some range) :
    ∃ kind, numericKind s = some (kind, true) := by
  cases s <;> cases h <;> exact ⟨_, rfl⟩

theorem numericBounds_eq {s : Scalar} {kind : String} {isWhole : Bool}
    (h : numericKind s = some (kind, isWhole)) (r : Rules) :
    numericBounds s r = Relation.all.filterMap fun relation =>
      (r.bound? relation).map fun b => ⟨kind, relation, boundLiteral isWhole b⟩ := by
  unfold numericBounds
  rw [h]
  rfl

/-- Each bound that is given has one constraint. -/
theorem numericBounds_filter {s : Scalar} {kind : String} {isWhole : Bool}
    (h : numericKind s = some (kind, isWhole)) {r : Rules} {relation : Relation} {b : Binary64}
    (hb : r.bound? relation = some b) :
    (numericBounds s r).filter (·.relation = relation) =
      [⟨kind, relation, boundLiteral isWhole b⟩] := by
  have hone (other : Relation) :
      (((r.bound? other).map fun b => (⟨kind, other, boundLiteral isWhole b⟩ : Bound)).filter
        fun e => e.relation = relation) =
        if other = relation then some ⟨kind, relation, boundLiteral isWhole b⟩ else none := by
    by_cases heq : other = relation
    · simp [heq, hb]
    · cases r.bound? other with
      | none => simp [heq]
      | some c => simp [heq]
  rw [numericBounds_eq h, List.filter_filterMap]
  simp only [hone]
  cases relation <;> rfl

/-- The constraints of an integer field are the written bounds. -/
theorem constraints_of_integers? {s : Scalar} {range : IntegerRange} (h : s.integers? = some range)
    (o : Bool) (r : Rules) :
    constraints (.named s.name o) r = (numericBounds s r).map Bound.text := by
  unfold constraints
  dsimp only
  rw [Scalar.ofName?_name]
  cases s with
  | int32 | int64 | uint8 | uint16 | uint32 | uint64 => rfl
  | string | float32 | float64 | bool | timestamp | bytes => cases h

/-- Each bound on an integer field is written as one constraint, with a whole number that its text spells.
The constraint and the bound say the same of all values of the field exactly if the bound survives that it
is cut to a whole number of 64 bits. -/
theorem numericBounds_meaning_iff (s : Scalar) (range : IntegerRange) (hs : s.integers? = some range)
    (o : Bool) (r : Rules) (relation : Relation) (b : Binary64) (hb : r.bound? relation = some b) :
    ∃ e n, (numericBounds s r).filter (·.relation = relation) = [e] ∧
      e.text ∈ constraints (.named s.name o) r ∧
      e.literal = .whole n ∧ Literal.whole? 10 e.literal.text.toList = some n ∧
      ((∀ x ∈ range, relation.Holds x n ↔ relation.Holds x b.value) ↔
        relation.Survives range b.value) := by
  obtain ⟨kind, hkind⟩ := numericKind_of_integers? hs
  obtain ⟨hmin, hleast, hgreatest⟩ := Scalar.integers?_around_zero hs
  have hone := numericBounds_filter hkind hb
  refine ⟨_, clampInt64 b.truncate, hone, ?_, rfl, Literal.whole?_toString _,
    relation.holds_clamped_iff hmin hleast hgreatest b⟩
  rw [constraints_of_integers? hs]
  apply List.mem_map_of_mem
  exact List.mem_of_mem_filter (hone ▸ List.mem_singleton_self _)

def loose : Rules :=
  -- At least minus two and a half, and below ten to the nineteenth.
  { min := Binary64.ofDecimal? true 25 (-1), exclusiveMax := Binary64.ofDecimal? false 1 19 }

/-- The literals are minus two and the greatest 64-bit integer, and no value of the field can tell. -/
theorem numericBounds_meaning_loose :
    (numericBounds .int32 loose).map Bound.text =
        ["(buf.validate.field).int32.gte = -2", "(buf.validate.field).int32.lt = 9223372036854775807"] ∧
      Scalar.int32.integers? = some ⟨-2147483648, 2147483647⟩ ∧
      (∃ b, loose.bound? .gte = some b ∧ b.value = -5 / 2 ∧
        ∀ x ∈ (⟨-2147483648, 2147483647⟩ : IntegerRange),
          Relation.gte.Holds x (-2 : Int) ↔ Relation.gte.Holds x b.value) ∧
      ∃ b, loose.bound? .lt = some b ∧ b.value = 10 ^ 19 ∧
        ∀ x ∈ (⟨-2147483648, 2147483647⟩ : IntegerRange),
          Relation.lt.Holds x (9223372036854775807 : Int) ↔ Relation.lt.Holds x b.value := by
  have hmin : loose.bound? .gte = some ⟨true, 5629499534213120, -51⟩ := by decide +kernel
  have hmax : loose.bound? .lt = some ⟨false, 4882812500000000, 11⟩ := by decide +kernel
  have hbounds : numericBounds .int32 loose =
      [⟨"int32", .gte, .whole (-2)⟩, ⟨"int32", .lt, .whole 9223372036854775807⟩] := by decide +kernel
  have hlow : (⟨true, 5629499534213120, -51⟩ : Binary64).value = -5 / 2 := by norm_num [Binary64.value]
  have hhigh : (⟨false, 4882812500000000, 11⟩ : Binary64).value = 10 ^ 19 := by norm_num [Binary64.value]
  refine ⟨by rw [hbounds]; decide +kernel, rfl, ⟨_, hmin, hlow, ?_⟩, _, hmax, hhigh, ?_⟩
  · obtain ⟨e, n, he, -, hn, -, hiff⟩ :=
      numericBounds_meaning_iff .int32 _ rfl false loose .gte _ hmin
    rw [hbounds] at he
    cases he
    cases hn
    exact hiff.mpr ⟨.inl (by rw [hlow]; norm_num), .inr (by decide)⟩
  · obtain ⟨e, n, he, -, hn, -, hiff⟩ :=
      numericBounds_meaning_iff .int32 _ rfl false loose .lt _ hmax
    rw [hbounds] at he
    cases he
    cases hn
    exact hiff.mpr ⟨.inr (.inr (by rw [hhigh]; norm_num)), .inr (by decide)⟩

def fractional : Rules := { min := Binary64.ofDecimal? false 15 (-1) }

/-- One satisfies the constraint and not the bound. -/
theorem numericBounds_fractional :
    Scalar.int32.integers? = some ⟨-2147483648, 2147483647⟩ ∧
      constraints (.named "int32" false) fractional = ["(buf.validate.field).int32.gte = 1"] ∧
      numericBounds .int32 fractional = [⟨"int32", .gte, .whole 1⟩] ∧
      ∃ b, fractional.bound? .gte = some b ∧ b.value = 3 / 2 ∧
        (1 : Int) ∈ (⟨-2147483648, 2147483647⟩ : IntegerRange) ∧
        Relation.gte.Holds (1 : Int) (1 : Int) ∧ ¬Relation.gte.Holds (1 : Int) b.value := by
  have hmin : fractional.bound? .gte = some ⟨false, 6755399441055744, -52⟩ := by decide +kernel
  have hvalue : (⟨false, 6755399441055744, -52⟩ : Binary64).value = 3 / 2 := by
    norm_num [Binary64.value]
  refine ⟨rfl, by decide +kernel, by decide +kernel, _, hmin, hvalue, by decide, le_refl _, ?_⟩
  rw [hvalue]
  norm_num [Relation.Holds]

end Proto

end Triglot
