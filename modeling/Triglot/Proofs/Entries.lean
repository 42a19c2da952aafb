import Mathlib.Data.List.Nodup
import Triglot.Entries

/-! Entries by key, in the order in which their keys came or in sorted order. Whatever a list held
before, an insertion is seen by the look-up of its own key only, so after a run of insertions the last
one of a key counts. -/
namespace Triglot

theorem mem_of_lookup {α β : Type} [BEq α] [LawfulBEq α] {l : List (α × β)} {a : α} {b : β}
    (h : l.lookup a = some b) : (a, b) ∈ l := by
  obtain ⟨before, after, rfl, _⟩ := List.lookup_eq_some_iff.mp h
  exact List.mem_append_right _ List.mem_cons_self

theorem lookup_eq_none_iff_key {α β : Type} [BEq α] [LawfulBEq α] {l : List (α × β)} {a : α} :
    l.lookup a = none ↔ a ∉ l.map Prod.fst := by
  rw [List.lookup_eq_none_iff, List.mem_map, not_exists]
  refine forall_congr' fun p => ?_
  rw [bne_iff_ne, not_and, ne_comm]

theorem lookup_eq_some_iff_mem {α β : Type} [BEq α] [LawfulBEq α] {l : List (α × β)}
    (hn : (l.map Prod.fst).Nodup) {k : α} {v : β} : l.lookup k = some v ↔ (k, v) ∈ l := by
  refine ⟨mem_of_lookup, fun hv => ?_⟩
  cases hl : l.lookup k with
  | none =>
    have hne := List.lookup_eq_none_iff.mp hl (k, v) hv
    exact absurd rfl (bne_iff_ne.mp hne)
  | some w => rw [Prod.mk.inj (List.inj_on_of_nodup_map hn (mem_of_lookup hl) hv rfl) |>.2]

section Put

variable {κ α : Type} [DecidableEq κ] {key : κ} {value : α} {es : List (κ × α)}

theorem mem_of_mem_putEntry {e : κ × α} (h : e ∈ putEntry key value es) :
    e = (key, value) ∨ e ∈ es := by
  induction es with
  | nil => exact .inl (List.mem_singleton.mp h)
  | cons x es ih =>
    unfold putEntry at h
    split at h
    · rename_i hkey
      rcases List.mem_cons.mp h with h | h
      · exact .inl (h.trans (by rw [hkey]))
      · exact .inr (List.mem_cons_of_mem x h)
    · rcases List.mem_cons.mp h with h | h
      · exact .inr (List.mem_cons.mpr (.inl h))
      · exact (ih h).imp_right (List.mem_cons_of_mem x)

/-- A new key goes to the end. -/
theorem putEntry_of_not_mem (value : α) (h : key ∉ es.map Prod.fst) :
    putEntry key value es = es ++ [(key, value)] := by
  induction es with
  | nil => rfl
  | cons x es ih =>
    rw [List.map_cons, List.mem_cons, not_or] at h
    rw [putEntry, if_neg (Ne.symm h.1), ih h.2, List.cons_append]

/-- Entries of distinct keys stay as they are. -/
theorem foldl_putEntry_of_nodup (h : (es.map Prod.fst).Nodup) :
    es.foldl (fun acc e => putEntry e.1 e.2 acc) [] = es := by
  have hfold (es acc : List (κ × α)) (h : ((acc ++ es).map Prod.fst).Nodup) :
      es.foldl (fun acc e => putEntry e.1 e.2 acc) acc = acc ++ es := by
    induction es generalizing acc with
    | nil => simp
    | cons x es ih =>
      have hx : x.1 ∉ acc.map Prod.fst := by
        intro hmem
        rw [List.map_append, List.map_cons, List.nodup_append] at h
        exact h.2.2 x.1 hmem x.1 List.mem_cons_self rfl
      rw [List.foldl_cons, putEntry_of_not_mem x.2 hx, ih]
      · simp
      · simpa using h
  exact hfold es [] h

/-- Putting an entry is seen by the look-up of its own key only. -/
theorem lookup_putEntry [BEq κ] [LawfulBEq κ] (key k : κ) (value : α) (es : List (κ × α)) :
    (putEntry key value es).lookup k = if k = key then some value else es.lookup k := by
  induction es with
  | nil =>
    rw [putEntry, List.lookup_cons]
    by_cases hk : k = key
    · rw [if_pos hk, beq_iff_eq.mpr hk]
    · rw [if_neg hk, beq_eq_false_iff_ne.mpr hk]
  | cons e es ih =>
    unfold putEntry
    split_ifs with he hk hk
    · rw [he, hk, List.lookup_cons_self]
    · rw [List.lookup_cons, List.lookup_cons, he, beq_eq_false_iff_ne.mpr hk]
    · have hne : (k == e.1) = false := beq_eq_false_iff_ne.mpr fun hke => he (hke.symm.trans hk)
      rw [List.lookup_cons, hne, ih, if_pos hk]
    · rw [List.lookup_cons, List.lookup_cons, ih, if_neg hk]

/-- A known key keeps its place, and a new one goes to the end. -/
theorem putEntry_keys (key : κ) (value : α) (es : List (κ × α)) :
    (putEntry key value es).map Prod.fst =
      if key ∈ es.map Prod.fst then es.map Prod.fst else es.map Prod.fst ++ [key] := by
  induction es with
  | nil => rfl
  | cons e es ih =>
    unfold putEntry
    by_cases he : e.1 = key
    · have hmem : key ∈ (e :: es).map Prod.fst := List.mem_cons.mpr (.inl he.symm)
      rw [if_pos he, if_pos hmem]
      rfl
    · rw [if_neg he, List.map_cons, ih, List.map_cons]
      simp only [List.mem_cons, Ne.symm he, false_or]
      split_ifs <;> rfl

end Put

variable {β : Type}

/-- Entries with distinct keys can be listed in any order. -/
theorem lookup_eq_of_perm {l l' : List (String × β)} (h : l.Perm l') (hn : (l.map Prod.fst).Nodup)
    (k : String) : l.lookup k = l'.lookup k := by
  have hn' : (l'.map Prod.fst).Nodup := (h.map Prod.fst).nodup_iff.mp hn
  refine Option.ext fun v => ?_
  rw [lookup_eq_some_iff_mem hn, lookup_eq_some_iff_mem hn', h.mem_iff]

def insertByKey (key : String) (value : β) : List (String × β) → List (String × β)
  | [] => [(key, value)]
  | (k, v) :: rest =>
    if key < k then (key, value) :: (k, v) :: rest
    else if key = k then (key, value) :: rest
    else (k, v) :: insertByKey key value rest

/-- A function with the equations of an insertion is the insertion. -/
theorem eq_insertByKey {f : String → β → List (String × β) → List (String × β)}
    (hnil : ∀ key value, f key value [] = [(key, value)])
    (hcons : ∀ key value k v rest, f key value ((k, v) :: rest) =
      if key < k then (key, value) :: (k, v) :: rest
      else if key = k then (key, value) :: rest
      else (k, v) :: f key value rest) : f = insertByKey := by
  funext key value es
  induction es with
  | nil => rw [hnil, insertByKey]
  | cons e es ih => rw [hcons, insertByKey, ih]

theorem mem_of_mem_insertByKey {key : String} {value : β} {es : List (String × β)} {e : String × β}
    (h : e ∈ insertByKey key value es) : e = (key, value) ∨ e ∈ es := by
  induction es with
  | nil => exact .inl (List.mem_singleton.mp h)
  | cons x es ih =>
    unfold insertByKey at h
    split at h
    · exact List.mem_cons.mp h
    · split at h
      · rcases List.mem_cons.mp h with h | h
        · exact .inl h
        · exact .inr (List.mem_cons_of_mem x h)
      · rcases List.mem_cons.mp h with h | h
        · exact .inr (List.mem_cons.mpr (.inl h))
        · exact (ih h).imp_right (List.mem_cons_of_mem x)

theorem lookup_insertByKey (key k : String) (value : β) (es : List (String × β)) :
    (insertByKey key value es).lookup k = if k = key then some value else es.lookup k := by
  by_cases hk : k = key
  · subst hk
    rw [if_pos rfl]
    induction es with
    | nil => exact List.lookup_cons_self
    | cons e es ih =>
      unfold insertByKey
      split_ifs with hlt heq
      · exact List.lookup_cons_self
      · exact List.lookup_cons_self
      · -- The entry before the place of the key has another key.
        rw [List.lookup_cons, beq_eq_false_iff_ne.mpr heq]
        exact ih
  · have hne : (k == key) = false := beq_eq_false_iff_ne.mpr hk
    rw [if_neg hk]
    induction es with
    | nil => rw [insertByKey, List.lookup_cons, hne]
    | cons e es ih =>
      unfold insertByKey
      split_ifs with hlt heq
      · rw [List.lookup_cons, hne]
      · rw [List.lookup_cons, List.lookup_cons, ← heq, hne]
      · rw [List.lookup_cons, List.lookup_cons, ih]

def insertAll (es acc : List (String × β)) : List (String × β) :=
  es.foldl (fun acc e => insertByKey e.1 e.2 acc) acc

/-- The last insertion of a key counts. -/
theorem lookup_insertAll (k : String) (es acc : List (String × β)) :
    (insertAll es acc).lookup k = (es.reverse.lookup k).or (acc.lookup k) := by
  induction es generalizing acc with
  | nil => rfl
  | cons e es ih =>
    change (insertAll es (insertByKey e.1 e.2 acc)).lookup k = _
    rw [ih, List.reverse_cons, List.lookup_append, Option.or_assoc, lookup_insertByKey]
    by_cases hk : k = e.1
    · rw [if_pos hk, hk, List.lookup_cons_self]
      rfl
    · rw [if_neg hk, List.lookup_cons, beq_eq_false_iff_ne.mpr hk]
      rfl

theorem lookup_reverse_of_last {k : String} {before after : List (String × β)}
    (h : ∀ e ∈ after, e.1 ≠ k) (v : β) :
    (before ++ (k, v) :: after).reverse.lookup k = some v := by
  have hlater : after.reverse.lookup k = none :=
    List.lookup_eq_none_iff.mpr fun e he => bne_iff_ne.mpr (h e (List.mem_reverse.mp he)).symm
  rw [List.reverse_append, List.reverse_cons, List.append_assoc, List.lookup_append, hlater,
    List.singleton_append, List.lookup_cons_self]
  rfl

/-- Insertions make up no entry. -/
theorem insertAll_subset (es acc : List (String × β)) : insertAll es acc ⊆ acc ++ es := by
  induction es generalizing acc with
  | nil => simp [insertAll]
  | cons x es ih =>
    intro e he
    rcases List.mem_append.mp (ih _ he) with h | h
    · rcases mem_of_mem_insertByKey h with rfl | h
      · simp
      · exact List.mem_append_left _ h
    · exact List.mem_append_right _ (List.mem_cons_of_mem x h)

end Triglot
