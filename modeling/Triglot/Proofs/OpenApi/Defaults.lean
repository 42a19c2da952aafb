import Triglot.Proofs.Number.Whole
import Triglot.Proofs.OpenApi.Properties

/-! Defaults of integer fields. The literal of a default is read as a signed 64-bit integer, whatever the
scalar of the field is. The values of five integer scalars are all read so, and a value of the sixth that
is beyond the greatest signed one stays a text. -/
namespace Triglot.OpenApi

/-- The literal of a default is typed by the scalar of its field. Nothing that is told about the field
besides replaces it. -/
theorem property_default (scope : Scope) {f : Field} {s : Scalar} {o : Bool} {literal : String}
    (htype : f.type = .named s.name o) (hliteral : f.default = some literal) :
    ∃ v, property scope f = .ok v ∧ v.get? "default" = some (typedDefault literal s) := by
  have hentry : optionalEntry "default" (f.default.map fun d => typedDefault d s) =
      [("default", typedDefault literal s)] := by rw [hliteral]; rfl
  unfold property
  rw [htype]
  dsimp only
  rw [Scalar.ofName?_name]
  refine ⟨_, rfl, ?_⟩
  rw [get?_ofEntries_eq, lookup_reverse_append_of_ne (by split <;> simp), scalarFieldEntries, hentry,
    ← List.append_assoc, List.reverse_append, List.reverse_singleton, List.singleton_append,
    List.lookup_cons_self]

/-- The spelling of an integer is typed as the integer as far as 64 bits with a sign go. -/
theorem typedDefault_toString {s : Scalar} {range : IntegerRange} {n : Int}
    (hs : s.integers? = some range) (hn : n ∈ range) :
    typedDefault (toString n) s =
      if n ≤ Int64.maxValue.toInt then .whole n else .string (toString n) := by
  have hleast : Int64.minValue.toInt ≤ n :=
    Int.le_trans (Scalar.integers?_around_zero hs).1 hn.1
  have hread : Literal.int64? (toString n) = if n ≤ Int64.maxValue.toInt then some n else none := by
    rw [Literal.int64?_toString]
    simp only [hleast, true_and]
  unfold typedDefault
  cases s with
  | int32 | int64 | uint8 | uint16 | uint32 | uint64 =>
    dsimp only
    rw [hread]
    by_cases hle : n ≤ Int64.maxValue.toInt
    · rw [if_pos hle, if_pos hle]
    · rw [if_neg hle, if_neg hle]
  | string | float32 | float64 | bool | timestamp | bytes => cases hs

/-- The default of an integer field, spelled in decimal, is written as this integer exactly if it is at
most the greatest signed 64-bit integer. Beyond it there are only unsigned 64-bit integers, and their
defaults are written as texts. -/
theorem property_default_whole_iff (scope : Scope) (f : Field) (s : Scalar) (o : Bool)
    (range : IntegerRange) (n : Int) (hs : s.integers? = some range) (hn : n ∈ range)
    (htype : f.type = .named s.name o) (hdefault : f.default = some (toString n)) :
    ∃ v, property scope f = .ok v ∧
      (v.get? "default" = some (.whole n) ↔ n ≤ Int64.maxValue.toInt) ∧
      (Int64.maxValue.toInt < n →
        s = .uint64 ∧ v.get? "default" = some (.string (toString n))) := by
  obtain ⟨v, hv, hentry⟩ := property_default scope htype hdefault
  rw [typedDefault_toString hs hn] at hentry
  refine ⟨v, hv, ?_, fun hlt => ⟨Scalar.eq_uint64_of_lt hs (Int.lt_of_lt_of_le hlt hn.2), ?_⟩⟩
  · rw [hentry]
    constructor
    · intro heq
      by_contra hlt
      rw [if_neg hlt] at heq
      cases heq
    · intro hle
      rw [if_pos hle]
  · rw [hentry, if_neg (Int.not_le.mpr hlt)]

def quota : Field :=
  -- The greatest signed value as the default of an unsigned field, beside notes that name a default
  -- and a minimum of their own.
  { name := "quota", type := .named "uint64" true, default := some "9223372036854775807"
    rules := some { min := some (.ofInt 1) }
    annotations :=
      { Annotations.none with openapi := { options := ["\x7b\"default\": \"none\", \"x-unit\": \"B\"\x7d"] } } }

theorem property_default_quota :
    Scalar.uint64.integers? = some ⟨0, 18446744073709551615⟩ ∧
      (9223372036854775807 : Int) ∈ (⟨0, 18446744073709551615⟩ : IntegerRange) ∧
      quota.default = some (toString (9223372036854775807 : Int)) ∧
      ∀ scope, ∃ v, property scope quota = .ok v ∧
        v.get? "default" = some (.whole 9223372036854775807) := by
  have hrange : (9223372036854775807 : Int) ∈ (⟨0, 18446744073709551615⟩ : IntegerRange) := by decide
  have hdefault : quota.default = some (toString (9223372036854775807 : Int)) := by decide +kernel
  refine ⟨rfl, hrange, hdefault, fun scope => ?_⟩
  obtain ⟨v, hv, hiff, -⟩ := property_default_whole_iff scope quota .uint64 true _ _ rfl hrange rfl hdefault
  exact ⟨v, hv, hiff.mpr (by decide)⟩

def ticket : Field :=
  -- The value behind the greatest signed one.
  { name := "serial", type := .named "uint64" false, default := some "9223372036854775808" }

def tickets : Model := { ns := "shop", types := [{ name := "Ticket", ns := "shop", fields := [ticket] }] }

/-- The report has no entry at all, and the default of an unsigned number is a text. -/
theorem property_default_ticket :
    (validate tickets {}).entries = [] ∧
      ticket.default = some (toString (9223372036854775808 : Int)) ∧
      (9223372036854775808 : Int) ∈ (⟨0, 18446744073709551615⟩ : IntegerRange) ∧
      Scalar.uint64.integers? = some ⟨0, 18446744073709551615⟩ ∧
      ∃ v, property ((Scope.flat tickets (.of tickets) .openapi).within "shop") ticket = .ok v ∧
        v.get? "default" = some (.string "9223372036854775808") := by
  have hread : Literal.int64? "9223372036854775808" = none := by decide +kernel
  have hfield : ticket.type = .named Scalar.uint64.name false := rfl
  obtain ⟨v, hv, hentry⟩ := property_default _ hfield rfl
  refine ⟨by decide +kernel, by decide +kernel, by decide, rfl, v, hv, ?_⟩
  rw [hentry]
  unfold typedDefault
  dsimp only
  rw [hread]

end Triglot.OpenApi
