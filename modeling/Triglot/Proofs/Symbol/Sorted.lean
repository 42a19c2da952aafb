import Mathlib.Data.List.Sort
import Mathlib.Data.String.Basic
import Triglot.Symbol.Sorted

/-! A sorted set is the one strictly increasing list of its members, so it depends neither on the
order nor on the repetitions of the list that it was made from. A sorted map that is changed item by
item has the keys of the items, each with what its own items made of it. -/
namespace Triglot

section

variable {α : Type} [DecidableEq α]

theorem mem_insertSorted (lt : α → α → Bool) (a b : α) (as : List α) :
    b ∈ insertSorted lt a as ↔ b = a ∨ b ∈ as := by
  induction as with
  | nil => simp [insertSorted]
  | cons c cs ih =>
    unfold insertSorted
    split
    · rename_i hac
      subst hac
      simp
    · split
      · simp
      · rw [List.mem_cons, ih, List.mem_cons]
        exact or_left_comm

theorem mem_sortedSet (lt : α → α → Bool) (a : α) (as : List α) :
    a ∈ sortedSet lt as ↔ a ∈ as := by
  induction as with
  | nil => rfl
  | cons b bs ih =>
    change a ∈ insertSorted lt b (sortedSet lt bs) ↔ a ∈ b :: bs
    rw [mem_insertSorted, ih, List.mem_cons]

theorem mem_sortedTexts (a : String) (ss : List String) : a ∈ sortedTexts ss ↔ a ∈ ss :=
  mem_sortedSet _ a ss

structure StrictlyOrders (lt : α → α → Bool) : Prop where
  irrefl : ∀ a, lt a a ≠ true
  trans : ∀ a b c, lt a b = true → lt b c = true → lt a c = true
  total : ∀ a b, a ≠ b → lt a b ≠ true → lt b a = true

def Increasing (lt : α → α → Bool) (as : List α) : Prop := as.Pairwise fun a b => lt a b = true

variable {lt : α → α → Bool}

theorem StrictlyOrders.insertSorted (h : StrictlyOrders lt) (a : α) {as : List α}
    (hs : Increasing lt as) : Increasing lt (insertSorted lt a as) := by
  induction as with
  | nil => exact List.pairwise_singleton _ a
  | cons b bs ih =>
    obtain ⟨hb, hbs⟩ := List.pairwise_cons.mp hs
    unfold Triglot.insertSorted
    split
    · exact hs
    · rename_i hne
      split
      · rename_i hlt
        refine List.pairwise_cons.mpr ⟨fun c hc => ?_, hs⟩
        rcases List.mem_cons.mp hc with rfl | hc
        · exact hlt
        · exact h.trans a b c hlt (hb c hc)
      -- The item goes behind `b`, so it is one of those that `b` has to come before.
      · rename_i hlt
        refine List.pairwise_cons.mpr ⟨fun c hc => ?_, ih hbs⟩
        rcases (mem_insertSorted lt a c bs).mp hc with rfl | hc
        · exact h.total c b hne hlt
        · exact hb c hc

/-- A sorted list without repetitions increases throughout. -/
theorem StrictlyOrders.sortedSet (h : StrictlyOrders lt) (as : List α) :
    Increasing lt (sortedSet lt as) := by
  induction as with
  | nil => exact List.Pairwise.nil
  | cons a as ih => exact h.insertSorted a ih

omit [DecidableEq α] in
/-- Increasing lists of the same items are equal. -/
theorem StrictlyOrders.eq_of_mem_iff (h : StrictlyOrders lt) {as bs : List α}
    (ha : Increasing lt as) (hb : Increasing lt bs) (hm : ∀ a, a ∈ as ↔ a ∈ bs) : as = bs := by
  have hirrefl : Std.Irrefl fun a b => lt a b = true := ⟨h.irrefl⟩
  have hantisymm : Std.Antisymm fun a b => lt a b = true :=
    ⟨fun a b hab hba => absurd (h.trans a b a hab hba) (h.irrefl a)⟩
  exact List.Pairwise.eq_of_mem_iff ha hb hm

/-- Nothing else is strictly increasing and has the same members. -/
theorem StrictlyOrders.sortedSet_eq (h : StrictlyOrders lt) {as bs : List α}
    (hs : Increasing lt bs) (hm : ∀ a, a ∈ bs ↔ a ∈ as) : Triglot.sortedSet lt as = bs := by
  refine h.eq_of_mem_iff (h.sortedSet as) hs fun a => ?_
  rw [mem_sortedSet, hm]

theorem StrictlyOrders.insertSorted_sortedSet (h : StrictlyOrders lt) (as : List α) (a : α) :
    Triglot.insertSorted lt a (Triglot.sortedSet lt as) = Triglot.sortedSet lt (as ++ [a]) := by
  symm
  apply h.sortedSet_eq (h.insertSorted a (h.sortedSet as))
  intro b
  rw [mem_insertSorted, mem_sortedSet, List.mem_append, List.mem_singleton]
  exact or_comm

/-- A change of one value, in a map that is told by its keys and a value for each of them. -/
theorem StrictlyOrders.alterSorted_map (h : StrictlyOrders lt) {β : Type} {keys : List α}
    (hs : Increasing lt keys) {value : α → β} {key : α} {new : β}
    (hnew : key ∉ keys → new = value key) (change : β → β) :
    alterSorted lt key new change (keys.map fun k => (k, value k)) =
      (Triglot.insertSorted lt key keys).map fun k =>
        (k, if k = key then change (value k) else value k) := by
  -- Keys other than the one at hand keep their values.
  have hothers {ks : List α} (hne : ∀ k ∈ ks, k ≠ key) :
      (ks.map fun k => (k, value k)) =
        ks.map fun k => (k, if k = key then change (value k) else value k) := by
    apply List.map_congr_left
    intro k hk
    rw [if_neg (hne k hk)]
  induction keys with
  | nil =>
    rw [hnew List.not_mem_nil]
    simp [alterSorted, Triglot.insertSorted]
  | cons k ks ih =>
    obtain ⟨hk, hks⟩ := List.pairwise_cons.mp hs
    have hbehind : ∀ c ∈ ks, c ≠ k := by
      rintro c hc rfl
      exact h.irrefl c (hk c hc)
    rw [List.map_cons]
    unfold alterSorted Triglot.insertSorted
    split
    · rename_i heq
      subst heq
      rw [List.map_cons, if_pos rfl, hothers hbehind]
    · rename_i hne
      split
      · rename_i hlt
        have hafter : ∀ c ∈ k :: ks, c ≠ key := by
          rintro c hc rfl
          rcases List.mem_cons.mp hc with rfl | hc
          · exact hne rfl
          · exact h.irrefl c (h.trans c k c hlt (hk c hc))
        rw [List.map_cons, if_pos rfl, ← hothers hafter, hnew fun hmem => hafter key hmem rfl]
        rfl
      · have hrest : key ∉ ks → new = value key := by
          intro hmem
          apply hnew
          exact List.not_mem_cons_of_ne_of_not_mem hne hmem
        rw [List.map_cons, if_neg (Ne.symm hne), ih hks hrest]

end

section Gathered

variable {α κ β : Type} [DecidableEq κ] {lt : κ → κ → Bool} {new held : κ → β} {keys : List κ}
  {values : List (κ × β)}

/-- Values hold what was gathered for some keys; that of any other key would be new. -/
structure Gathered (lt : κ → κ → Bool) (new : κ → β) (keys : List κ) (held : κ → β)
    (values : List (κ × β)) : Prop where
  values_eq : values = (sortedSet lt keys).map fun k => (k, held k)
  fresh : ∀ k, k ∉ keys → held k = new k

theorem gathered_start (lt : κ → κ → Bool) (new : κ → β) : Gathered lt new [] new [] :=
  ⟨rfl, fun _ _ => rfl⟩

/-- One change is seen at its own key, which there is from then on. -/
theorem Gathered.alter (h : Gathered lt new keys held values) (hlt : StrictlyOrders lt) (key : κ)
    (change : β → β) :
    Gathered lt new (keys ++ [key]) (fun k => if k = key then change (held k) else held k)
      (alterSorted lt key (new key) change values) where
  values_eq := by
    have hnew : key ∉ sortedSet lt keys → new key = held key := by
      intro hmem
      rw [mem_sortedSet] at hmem
      exact (h.fresh key hmem).symm
    rw [h.values_eq, hlt.alterSorted_map (hlt.sortedSet keys) hnew, hlt.insertSorted_sortedSet]
  fresh := by
    intro k hk
    rw [List.mem_append, List.mem_singleton, not_or] at hk
    rw [if_neg hk.2]
    exact h.fresh k hk.1

/-- A run over items. The value of each key is changed by the items of that key, in their order. -/
theorem Gathered.alterEach [BEq κ] [LawfulBEq κ] (h : Gathered lt new keys held values)
    (hlt : StrictlyOrders lt) (key : α → κ) (change : α → β → β) (items : List α) :
    Gathered lt new (keys ++ items.map key)
      (fun k => (items.filter fun a => key a == k).foldl (fun b a => change a b) (held k))
      (alterEach lt key new change items values) := by
  induction items generalizing keys held values with
  | nil => simpa [Triglot.alterEach] using h
  | cons x xs ih =>
    have hrest := ih (h.alter hlt (key x) (change x))
    have hheld (k : κ) :
        ((x :: xs).filter fun a => key a == k).foldl (fun b a => change a b) (held k) =
          (xs.filter fun a => key a == k).foldl (fun b a => change a b)
            (if k = key x then change x (held k) else held k) := by
      rw [List.filter_cons]
      by_cases hk : k = key x
      · rw [if_pos hk, if_pos (beq_iff_eq.mpr hk.symm), List.foldl_cons]
      · have hne : (key x == k) ≠ true := by
          rw [ne_eq, beq_iff_eq]
          exact Ne.symm hk
        rw [if_neg hk, if_neg hne]
    simp only [hheld]
    rw [List.append_assoc, List.singleton_append] at hrest
    exact hrest

end Gathered

theorem strictlyOrders_texts : StrictlyOrders fun a b : String => decide (a < b) where
  irrefl a := by simp
  trans a b c hab hbc := by
    rw [decide_eq_true_eq] at hab hbc ⊢
    exact lt_trans hab hbc
  total a b hne hab := by
    rw [ne_eq, decide_eq_true_eq] at hab
    rw [decide_eq_true_eq]
    exact lt_of_le_of_ne (not_lt.mp hab) hne.symm

theorem pairBefore_iff {a b : String × String} :
    pairBefore a b = true ↔ a.1 < b.1 ∨ a.1 = b.1 ∧ a.2 < b.2 := by
  simp [pairBefore]

theorem strictlyOrders_pairs : StrictlyOrders pairBefore where
  irrefl a := by simp [pairBefore_iff]
  trans a b c hab hbc := by
    rw [pairBefore_iff] at hab hbc ⊢
    rcases hab with hab | ⟨hab, hab'⟩ <;> rcases hbc with hbc | ⟨hbc, hbc'⟩
    · exact .inl (lt_trans hab hbc)
    · exact .inl (hbc ▸ hab)
    · exact .inl (hab ▸ hbc)
    · exact .inr ⟨hab.trans hbc, lt_trans hab' hbc'⟩
  total a b hne hab := by
    rw [ne_eq, pairBefore_iff, not_or, not_and] at hab
    rw [pairBefore_iff]
    obtain ⟨hfst, hsnd⟩ := hab
    by_cases he : a.1 = b.1
    · refine .inr ⟨he.symm, lt_of_le_of_ne (not_lt.mp (hsnd he)) fun hs => ?_⟩
      exact hne (Prod.ext he hs.symm)
    · exact .inl (lt_of_le_of_ne (not_lt.mp hfst) (Ne.symm he))

/-- Sorted texts are strictly increasing. -/
theorem sortedTexts_increasing (ss : List String) : (sortedTexts ss).Pairwise (· < ·) :=
  (strictlyOrders_texts.sortedSet ss).imp fun h => of_decide_eq_true h

theorem sortedTexts_of_forall_eq {ss : List String} {a : String} (hne : ss ≠ [])
    (h : ∀ s ∈ ss, s = a) : sortedTexts ss = [a] := by
  refine strictlyOrders_texts.sortedSet_eq (List.pairwise_singleton _ a) fun s => ?_
  rw [List.mem_singleton]
  constructor
  · rintro rfl
    obtain ⟨t, ht⟩ := List.exists_mem_of_ne_nil ss hne
    exact h t ht ▸ ht
  · exact h s

/-- Pairs with one second part are sorted by the first. -/
theorem sortedSet_pairs (ss : List String) (b : String) :
    sortedSet pairBefore (ss.map fun a => (a, b)) = (sortedTexts ss).map fun a => (a, b) := by
  refine strictlyOrders_pairs.sortedSet_eq ?_ fun p => ?_
  · refine List.pairwise_map.mpr ((sortedTexts_increasing ss).imp fun h => ?_)
    exact pairBefore_iff.mpr (.inl h)
  · simp only [List.mem_map, sortedTexts, mem_sortedSet]

end Triglot
