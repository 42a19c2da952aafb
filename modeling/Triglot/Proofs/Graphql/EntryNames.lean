import Mathlib.Data.List.Perm.Subperm
import Triglot.Graphql.Arena
import Triglot.Proofs.Entries

/-! One entry that is interned. An arena has two maps for its entries, by their names and by their
pairings of a key and a value. A pairing that is known leads to a name; a new one is kept in both maps
under a name that no entry has. So the two maps tell of the same entries. -/
namespace Triglot.Graphql

theorem natText_injective : Function.Injective (toString : Nat → String) := by
  intro i j h
  have hdigits : Nat.toDigits 10 i = Nat.toDigits 10 j := by
    simpa only [Nat.toString_eq_repr, Nat.toList_repr] using congrArg String.toList h
  rw [← Nat.ofDigitChars_ten_toDigits (n := i), hdigits, Nat.ofDigitChars_ten_toDigits]

theorem natText_ne_empty (i : Nat) : toString i ≠ "" := by simp

-- The names that are tried for an entry, one more than there are entries.
def candidates (base : String) (count : Nat) : List String :=
  base :: (List.range count).map fun i => base ++ toString (i + 2)

theorem candidates_nodup (base : String) (count : Nat) : (candidates base count).Nodup := by
  have hne (i : Nat) : base ++ toString (i + 2) ≠ base := by
    intro h
    have hempty := (String.append_right_inj base).mp (h.trans String.append_empty.symm)
    exact natText_ne_empty (i + 2) hempty
  refine List.nodup_cons.mpr ⟨?_, List.nodup_range.map ?_⟩
  · intro h
    obtain ⟨i, _, hi⟩ := List.mem_map.mp h
    exact hne i hi
  · intro i j h
    have hij := natText_injective ((String.append_right_inj base).mp h)
    omega

def EntryType.pairing (e : EntryType) : String × String := (e.key, e.value.text)

namespace Arena

section FreeName

theorem hasName_iff (a : Arena) (n : String) : a.hasName n = true ↔ n ∈ a.named.map Prod.fst := by
  rw [hasName, Option.isSome_iff_ne_none, ne_eq, lookup_eq_none_iff_key, not_not]

theorem freeName_eq_find (a : Arena) (base : String) :
    a.freeName base =
      ((candidates base a.named.length).find? fun n => !a.hasName n).getD base := rfl

/-- The search for a name ends with one that no entry is kept under. -/
theorem freeName_not_mem (a : Arena) (base : String) :
    a.freeName base ∉ a.named.map Prod.fst := by
  rw [freeName_eq_find, ← hasName_iff]
  cases hf : (candidates base a.named.length).find? fun n => !a.hasName n with
  | some n => simpa using List.find?_some hf
  | none =>
    -- There is one more name to try than there are taken ones, so they cannot all be taken.
    have hall : candidates base a.named.length ⊆ a.named.map Prod.fst := by
      intro n hn
      have htaken := List.find?_eq_none.mp hf n hn
      exact (a.hasName_iff n).mp (by simpa using htaken)
    have hlength := ((candidates_nodup base a.named.length).subperm hall).length_le
    simp only [candidates, List.length_cons, List.length_map, List.length_range] at hlength
    omega

theorem freeName_mem_candidates (a : Arena) (base : String) :
    a.freeName base ∈ candidates base a.named.length := by
  rw [freeName_eq_find]
  cases hf : (candidates base a.named.length).find? fun n => !a.hasName n with
  | some n => exact List.mem_of_find?_eq_some hf
  | none => exact List.mem_cons_self

/-- The name for a new entry is its base if that is free, or else the base with the least number from
two that makes it free. -/
theorem freeName_least (a : Arena) (base : String) :
    (base ∉ a.named.map Prod.fst → a.freeName base = base) ∧
    (base ∈ a.named.map Prod.fst → ∃ k, 2 ≤ k ∧ a.freeName base = base ++ toString k ∧
      base ++ toString k ∉ a.named.map Prod.fst ∧
      ∀ j, 2 ≤ j → j < k → base ++ toString j ∈ a.named.map Prod.fst) := by
  have hfree := a.freeName_not_mem base
  rw [freeName_eq_find, candidates, List.find?_cons] at hfree ⊢
  constructor
  · intro hbase
    have hpick : (!a.hasName base) = true := by
      rw [Bool.not_eq_true', ← Bool.not_eq_true, hasName_iff]
      exact hbase
    rw [hpick]
    rfl
  · intro hbase
    have hskip : (!a.hasName base) = false := by
      rw [Bool.not_eq_false', hasName_iff]
      exact hbase
    rw [hskip, List.find?_map] at hfree ⊢
    cases hfound : (List.range a.named.length).find?
        ((fun n => !a.hasName n) ∘ fun i => base ++ toString (i + 2)) with
    | none =>
      -- The search would then fall back on the base, which is not free.
      rw [hfound] at hfree
      exact absurd hbase hfree
    | some i =>
      rw [hfound] at hfree
      obtain ⟨_, _, hleast⟩ := List.find?_range_eq_some.mp hfound
      refine ⟨i + 2, by omega, rfl, hfree, ?_⟩
      intro j hj hji
      have htaken := hleast (j - 2) (by omega)
      have hindex : j - 2 + 2 = j := by omega
      simp only [Function.comp_apply, hindex, Bool.not_not] at htaken
      exact (a.hasName_iff _).mp htaken

end FreeName

section Intern

-- An entry goes behind the others in both maps.
def add (a : Arena) (e : EntryType) : Arena :=
  { a with
    named := a.named ++ [(e.name, e)]
    pairings := a.pairings ++ [(e.pairing, e.name)] }

theorem add_entries (a : Arena) (e : EntryType) : (a.add e).entries = a.entries ++ [e] := by
  rw [entries, add, List.map_append]
  rfl

/-- All that interning can do: a known pairing tells its name, and the entry of a new one is added
under a free name. -/
theorem intern_cases (a : Arena) (e : EntryType) :
    (∃ name, a.pairings.lookup e.pairing = some name ∧ a.intern e = (name, a)) ∨
      a.pairings.lookup e.pairing = none ∧
        a.intern e = (a.freeName e.name, a.add { e with name := a.freeName e.name }) := by
  have hpairing : (e.key, e.value.text) = e.pairing := rfl
  cases h : a.pairings.lookup e.pairing with
  | some name =>
    refine .inl ⟨name, rfl, ?_⟩
    simp only [intern, hpairing, h]
  | none =>
    refine .inr ⟨rfl, ?_⟩
    simp only [intern, hpairing, h, putEntry_of_not_mem _ (a.freeName_not_mem e.name),
      putEntry_of_not_mem _ (lookup_eq_none_iff_key.mp h)]
    rfl

/-- After an entry was interned, its pairing leads to the name that was told. -/
theorem lookup_intern (a : Arena) (e : EntryType) :
    (a.intern e).2.pairings.lookup e.pairing = some (a.intern e).1 := by
  rcases a.intern_cases e with ⟨name, hname, hi⟩ | ⟨hnone, hi⟩ <;> rw [hi]
  · exact hname
  · have hpairing : ({ e with name := a.freeName e.name } : EntryType).pairing = e.pairing := rfl
    rw [add, List.lookup_append, hnone, hpairing, List.lookup_cons_self]
    rfl

/-- Where later pairings only come behind, a pairing keeps the name that it was given. -/
theorem lookup_of_prefix {a b : Arena} {e : EntryType}
    (h : (a.intern e).2.pairings <+: b.pairings) :
    b.pairings.lookup e.pairing = some (a.intern e).1 := by
  obtain ⟨later, hlater⟩ := h
  rw [← hlater, List.lookup_append, lookup_intern, Option.some_or]

/-- An entry that was interned is recalled and adds nothing. -/
theorem intern_again {a b : Arena} {e : EntryType} (h : (a.intern e).2.pairings <+: b.pairings) :
    b.intern e = ((a.intern e).1, b) := by
  have hb := lookup_of_prefix h
  rcases b.intern_cases e with ⟨name, hname, hi⟩ | ⟨hnone, _⟩
  · rw [hi, Option.some.inj (hname.symm.trans hb)]
  · rw [hnone] at hb
    cases hb

/-- The two maps of an arena tell of the same entries: each is kept under its own name, and there is
one pairing for each, which leads to that name. -/
structure Coherent (a : Arena) : Prop where
  named : a.named = a.entries.map fun e => (e.name, e)
  names : (a.entries.map EntryType.name).Nodup
  paired : a.pairings = a.entries.map fun e => (e.pairing, e.name)
  distinct : (a.entries.map EntryType.pairing).Nodup

variable {a b : Arena}

theorem coherent_start (usage : UsageMap) : Coherent { usage } :=
  ⟨rfl, List.nodup_nil, rfl, List.nodup_nil⟩

theorem Coherent.of_eq (h : a.Coherent) (hn : b.named = a.named) (hp : b.pairings = a.pairings) :
    b.Coherent := by
  have he : b.entries = a.entries := by rw [entries, hn, entries]
  constructor
  · rw [hn, he, ← h.named]
  · rw [he]
    exact h.names
  · rw [hp, he, ← h.paired]
  · rw [he]
    exact h.distinct

theorem Coherent.keys (h : a.Coherent) : a.named.map Prod.fst = a.entries.map EntryType.name := by
  rw [h.named, List.map_map]
  rfl

theorem Coherent.pairings (h : a.Coherent) :
    a.pairings.map Prod.fst = a.entries.map EntryType.pairing := by
  rw [h.paired, List.map_map]
  rfl

/-- An entry of a new name and a new pairing keeps the two maps together. -/
theorem Coherent.add (h : a.Coherent) {e : EntryType} (hname : e.name ∉ a.named.map Prod.fst)
    (hpairing : e.pairing ∉ a.pairings.map Prod.fst) : (a.add e).Coherent := by
  rw [h.keys] at hname
  rw [h.pairings] at hpairing
  constructor
  · rw [add_entries, List.map_append, ← h.named]
    rfl
  · rw [add_entries, List.map_append, List.map_singleton, ← List.concat_eq_append]
    exact h.names.concat hname
  · rw [add_entries, List.map_append, ← h.paired]
    rfl
  · rw [add_entries, List.map_append, List.map_singleton, ← List.concat_eq_append]
    exact h.distinct.concat hpairing

theorem Coherent.intern (h : a.Coherent) (e : EntryType) : (a.intern e).2.Coherent := by
  rcases a.intern_cases e with ⟨name, _, hi⟩ | ⟨hnone, hi⟩ <;> rw [hi]
  · exact h
  · exact h.add (a.freeName_not_mem e.name) (lookup_eq_none_iff_key.mp hnone)

/-- A name leads to the one entry that has it. -/
theorem Coherent.lookup_named_iff (h : a.Coherent) {name : String} {e : EntryType} :
    a.named.lookup name = some e ↔ e ∈ a.entries ∧ e.name = name := by
  have hkeys : (a.named.map Prod.fst).Nodup := h.keys ▸ h.names
  rw [lookup_eq_some_iff_mem hkeys, h.named, List.mem_map]
  constructor
  · rintro ⟨x, hx, heq⟩
    cases heq
    exact ⟨hx, rfl⟩
  · rintro ⟨he, rfl⟩
    exact ⟨e, he, rfl⟩

/-- A pairing leads to the name of the one entry that has it. -/
theorem Coherent.lookup_iff (h : a.Coherent) {pairing : String × String} {name : String} :
    a.pairings.lookup pairing = some name ↔
      ∃ e ∈ a.entries, e.pairing = pairing ∧ e.name = name := by
  have hkeys : (a.pairings.map Prod.fst).Nodup := h.pairings ▸ h.distinct
  rw [lookup_eq_some_iff_mem hkeys, h.paired, List.mem_map]
  simp only [Prod.mk.injEq]

/-- No two pairings lead to one name. -/
theorem Coherent.pairing_unique (h : a.Coherent) {p q : String × String} {name : String}
    (hp : a.pairings.lookup p = some name) (hq : a.pairings.lookup q = some name) : p = q := by
  obtain ⟨x, hx, rfl, hxname⟩ := h.lookup_iff.mp hp
  obtain ⟨y, hy, rfl, hyname⟩ := h.lookup_iff.mp hq
  rw [List.inj_on_of_nodup_map h.names hx hy (hxname.trans hyname.symm)]

/-- An interned entry pairs a key and a value as they were asked for. -/
theorem Coherent.exists_intern (h : a.Coherent) (e : EntryType) :
    ∃ known ∈ (a.intern e).2.entries, known.name = (a.intern e).1 ∧ known.pairing = e.pairing := by
  obtain ⟨known, hmem, hpairing, hname⟩ := (h.intern e).lookup_iff.mp (a.lookup_intern e)
  exact ⟨known, hmem, hname, hpairing⟩

theorem Coherent.intern_mem_entries (h : a.Coherent) (e : EntryType) :
    (a.intern e).1 ∈ (a.intern e).2.entries.map EntryType.name := by
  obtain ⟨known, hmem, hname, _⟩ := h.exists_intern e
  exact List.mem_map.mpr ⟨known, hmem, hname⟩

end Intern

end Arena

end Triglot.Graphql
