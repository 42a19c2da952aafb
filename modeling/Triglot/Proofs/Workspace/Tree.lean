import Triglot.Proofs.Entries
import Triglot.Workspace.Tree

/-! Places of a tree. A new entry in a directory changes no other file, and a tree that only grows keeps
the ways that lead through it. A walk comes to every file. -/
namespace Triglot

namespace Tree

variable {t a b c x : Tree} {place here other : List String} {name : String} {text : Option String}

theorem get?_append (t : Tree) (p q : List String) :
    t.get? (p ++ q) = (t.get? p).bind fun c => c.get? q := by
  induction p generalizing t with
  | nil => rfl
  | cons n p ih =>
    rw [List.cons_append, get?, get?, Option.bind_assoc]
    congr 1
    funext c
    exact ih c

def HasDirectory (t : Tree) (place : List String) : Prop := ∃ cs, t.get? place = some (.directory cs)

theorem HasDirectory.ne_file (h : t.HasDirectory place) : t.get? place ≠ some (.file text) := by
  obtain ⟨cs, hcs⟩ := h
  rw [hcs]
  nofun

theorem get?_cons_of_children_eq_nil (h : x.children = []) (n : String) (q : List String) :
    x.get? (n :: q) = none := by
  rw [get?, h]
  rfl

/-- What is above an entry is a directory. -/
theorem hasDirectory_of_get?_append {n : String} {q : List String}
    (h : t.get? (place ++ n :: q) = some x) : t.HasDirectory place := by
  rw [get?_append] at h
  obtain ⟨c, hc, h⟩ := Option.bind_eq_some_iff.mp h
  cases c with
  | file text =>
    rw [get?_cons_of_children_eq_nil rfl] at h
    cases h
  | directory cs => exact ⟨cs, hc⟩

theorem HasDirectory.dropLast (h : t.HasDirectory place) : t.HasDirectory place.dropLast := by
  obtain ⟨cs, hcs⟩ := h
  rcases List.eq_nil_or_concat place with rfl | ⟨p, n, rfl⟩
  · exact ⟨cs, hcs⟩
  · rw [List.concat_eq_append] at hcs ⊢
    rw [List.dropLast_concat]
    exact hasDirectory_of_get?_append hcs

theorem lookup_insertChild (n k : String) (c : Tree) (cs : List (String × Tree)) :
    (insertChild n c cs).lookup k = if k = n then some c else cs.lookup k := by
  have hinsert : insertChild = insertByKey := eq_insertByKey (fun _ _ => rfl) fun _ _ _ _ _ => rfl
  rw [hinsert, lookup_insertByKey]

/-- At a place that was set stands the entry, and below it what the entry has there. -/
theorem get?_set_append (t : Tree) (p : List String) (x : Tree) (q : List String) :
    (t.set p x).get? (p ++ q) = x.get? q := by
  induction p generalizing t with
  | nil => rfl
  | cons n p ih =>
    rw [set, List.cons_append, get?, children, lookup_insertChild, if_pos rfl]
    exact ih _

theorem get?_set_self (t : Tree) (p : List String) (x : Tree) : (t.set p x).get? p = some x := by
  have hset := get?_set_append t p x []
  rwa [List.append_nil] at hset

/-- Above a place that was set are directories. -/
theorem hasDirectory_set (t : Tree) (p : List String) (n : String) (q : List String) (x : Tree) :
    (t.set (p ++ n :: q) x).HasDirectory p := by
  have hx := get?_set_self t (p ++ n :: q) x
  exact hasDirectory_of_get?_append hx

/-- Beside a place that was set nothing changes. -/
theorem get?_set_beside {p q : List String} (hpq : ¬ p <+: q) (hqp : ¬ q <+: p) (t x : Tree) :
    (t.set p x).get? q = t.get? q := by
  induction p generalizing t q with
  | nil => exact absurd List.nil_prefix hpq
  | cons n p ih =>
    obtain _ | ⟨k, q⟩ := q
    · exact absurd List.nil_prefix hqp
    rw [set, get?, children, lookup_insertChild, get?]
    split
    · rename_i hkn
      subst hkn
      have hpq' : ¬ p <+: q := fun h => hpq (List.cons_prefix_cons.mpr ⟨rfl, h⟩)
      have hqp' : ¬ q <+: p := fun h => hqp (List.cons_prefix_cons.mpr ⟨rfl, h⟩)
      change (((t.children.lookup k).getD empty).set p x).get? q = _
      rw [ih hpq' hqp']
      cases t.children.lookup k with
      | some c => rfl
      | none =>
        -- An empty directory is made on the way, and has nothing at a place that goes on.
        obtain _ | ⟨i, q⟩ := q
        · exact absurd List.nil_prefix hqp'
        · rfl
    · rfl

/-- Where a place lies from another one: at it, below it, above it or beside it. -/
theorem place_cases (p q : List String) :
    q = p ∨ (∃ n r, q = p ++ n :: r) ∨ (∃ n r, p = q ++ n :: r) ∨ (¬ p <+: q ∧ ¬ q <+: p) := by
  by_cases hpq : p <+: q
  · obtain ⟨_ | ⟨n, r⟩, rfl⟩ := hpq
    · exact .inl (List.append_nil p)
    · exact .inr (.inl ⟨n, r, rfl⟩)
  · by_cases hqp : q <+: p
    · obtain ⟨_ | ⟨n, r⟩, rfl⟩ := hqp
      · exact .inl (List.append_nil q).symm
      · exact .inr (.inr (.inl ⟨n, r, rfl⟩))
    · exact .inr (.inr (.inr ⟨hpq, hqp⟩))

/-- Setting an entry where there is no directory keeps all directories. -/
theorem HasDirectory.set_entry (h : t.HasDirectory other) (hfree : ¬ t.HasDirectory place)
    (x : Tree) : (t.set place x).HasDirectory other := by
  rcases place_cases place other with rfl | ⟨n, r, rfl⟩ | ⟨n, r, hp⟩ | ⟨hpq, hqp⟩
  · exact absurd h hfree
  · obtain ⟨cs, hcs⟩ := h
    exact absurd (hasDirectory_of_get?_append hcs) hfree
  · rw [hp]
    exact hasDirectory_set t other n r x
  · obtain ⟨cs, hcs⟩ := h
    exact ⟨cs, by rw [get?_set_beside hpq hqp, hcs]⟩

/-- A new entry without children changes no other file. -/
theorem get?_set_entry_iff (hdir : t.HasDirectory here) (hfree : ¬ t.HasDirectory (here ++ [name]))
    (hx : x.children = []) (hne : other ≠ here ++ [name]) :
    (t.set (here ++ [name]) x).get? other = some (.file text) ↔ t.get? other = some (.file text) := by
  rcases place_cases (here ++ [name]) other with rfl | ⟨n, r, rfl⟩ | ⟨n, r, hp⟩ | ⟨hpq, hqp⟩
  · exact absurd rfl hne
  · rw [get?_set_append, get?_cons_of_children_eq_nil hx]
    exact ⟨nofun, fun h => absurd (hasDirectory_of_get?_append h) hfree⟩
  · -- Directories lead to the entry before and after.
    have habove : t.HasDirectory other := by
      have hhere : here = other ++ (n :: r).dropLast := by
        have hlast := congrArg List.dropLast hp
        rwa [List.dropLast_concat, List.dropLast_append_of_ne_nil (List.cons_ne_nil n r)] at hlast
      obtain ⟨cs, hcs⟩ := hdir
      cases hr : (n :: r).dropLast with
      | nil =>
        rw [hr, List.append_nil] at hhere
        exact ⟨cs, hhere ▸ hcs⟩
      | cons i q =>
        rw [hr] at hhere
        exact hasDirectory_of_get?_append (hhere ▸ hcs)
    have hafter := hasDirectory_set t other n r x
    rw [← hp] at hafter
    exact ⟨fun h => absurd h hafter.ne_file, fun h => absurd h habove.ne_file⟩
  · rw [get?_set_beside hpq hqp]

structure Grows (a b : Tree) : Prop where
  directory : ∀ {place}, a.HasDirectory place → b.HasDirectory place
  file : ∀ {place text}, a.get? place = some (.file text) → ∃ text', b.get? place = some (.file text')

theorem Grows.refl (t : Tree) : t.Grows t := ⟨id, fun h => ⟨_, h⟩⟩

theorem Grows.trans (h : a.Grows b) (k : b.Grows c) : a.Grows c where
  directory hd := k.directory (h.directory hd)
  file hf := by
    obtain ⟨text, hb⟩ := h.file hf
    exact k.file hb

theorem Grows.exists_get? (h : a.Grows b) (hx : a.get? place = some x) :
    ∃ y, b.get? place = some y := by
  cases x with
  | file text =>
    obtain ⟨text', hb⟩ := h.file hx
    exact ⟨_, hb⟩
  | directory cs =>
    obtain ⟨cs', hb⟩ := h.directory ⟨cs, hx⟩
    exact ⟨_, hb⟩

theorem grows_set_file (hdir : t.HasDirectory here) (hfree : ¬ t.HasDirectory (here ++ [name]))
    (text : Option String) : t.Grows (t.set (here ++ [name]) (.file text)) where
  directory hd := hd.set_entry hfree _
  file {place text'} hf := by
    by_cases hp : place = here ++ [name]
    · exact ⟨text, hp ▸ get?_set_self t _ _⟩
    · exact ⟨text', (get?_set_entry_iff hdir hfree rfl hp).mpr hf⟩

theorem not_hasDirectory_of_eq_none (h : t.get? place = none) : ¬ t.HasDirectory place := by
  rintro ⟨cs, hcs⟩
  rw [h] at hcs
  cases hcs

/-- A new directory changes no file. -/
theorem get?_set_empty_iff (hdir : t.HasDirectory here) (hnone : t.get? (here ++ [name]) = none) :
    (t.set (here ++ [name]) .empty).get? other = some (.file text) ↔
      t.get? other = some (.file text) := by
  by_cases hp : other = here ++ [name]
  · rw [hp, get?_set_self, hnone]
    exact ⟨nofun, nofun⟩
  · exact get?_set_entry_iff hdir (not_hasDirectory_of_eq_none hnone) rfl hp

theorem grows_set_empty (hdir : t.HasDirectory here) (hnone : t.get? (here ++ [name]) = none) :
    t.Grows (t.set (here ++ [name]) .empty) where
  directory hd := hd.set_entry (not_hasDirectory_of_eq_none hnone) _
  file hf := ⟨_, (get?_set_empty_iff hdir hnone).mpr hf⟩

theorem any_children_iff {cs : List (String × Tree)} (h : t.get? here = some (.directory cs)) :
    cs.any (·.1 == name) = true ↔ ∃ x, t.get? (here ++ [name]) = some x := by
  have hget : t.get? (here ++ [name]) = cs.lookup name := by
    rw [get?_append, h]
    exact Option.bind_fun_some _
  rw [hget]
  constructor
  · intro hany
    cases hl : cs.lookup name with
    | some x => exact ⟨x, rfl⟩
    | none =>
      obtain ⟨p, hp, heq⟩ := List.any_eq_true.mp hany
      exact absurd (beq_iff_eq.mp heq).symm (bne_iff_ne.mp (List.lookup_eq_none_iff.mp hl p hp))
  · rintro ⟨x, hx⟩
    obtain ⟨before, after, rfl, _⟩ := List.lookup_eq_some_iff.mp hx
    simp

theorem walkChildren_eq_flatMap (path : String) (cs : List (String × Tree)) :
    walkChildren path cs = cs.flatMap fun c => c.2.walk (Path.join path c.1) := by
  induction cs with
  | nil => rfl
  | cons c cs ih => rw [walkChildren, ih, List.flatMap_cons]

/-- A walk comes to every file. -/
theorem mem_walk_of_get? {names : List String} (path : String)
    (h : t.get? names = some (.file text)) : (names.foldl Path.join path, text) ∈ t.walk path := by
  induction names generalizing t path with
  | nil =>
    cases h
    exact List.mem_singleton.mpr rfl
  | cons name names ih =>
    obtain ⟨child, hchild, hget⟩ := Option.bind_eq_some_iff.mp h
    cases t with
    | file other => cases hchild
    | directory cs =>
      rw [walk, walkChildren_eq_flatMap]
      exact List.mem_flatMap.mpr ⟨(name, child), mem_of_lookup hchild, ih _ hget⟩

end Tree

namespace FileSystem

variable {root a b : Tree} {here place : List String} {names : List String}

theorem follow_append (root : Tree) (here as bs : List String) :
    follow root here (as ++ bs) = (follow root here as).bind fun p => follow root p bs := by
  induction as generalizing here with
  | nil => rfl
  | cons n as ih =>
    rw [List.cons_append, follow, follow]
    split
    · split
      · exact ih here
      · split
        · exact ih _
        · split
          · exact ih _
          · rfl
    · rfl

/-- A way that leads somewhere leads there still when the tree has grown. -/
theorem follow_mono (h : a.Grows b) (hf : follow a here names = some place) :
    follow b here names = some place := by
  -- By induction on the names: what was a directory on the way still is one, and what was there still is.
  induction names generalizing here with
  | nil => exact hf
  | cons n names ih =>
    rw [follow] at hf ⊢
    split at hf
    · rename_i cs hcs
      obtain ⟨cs', hcs'⟩ := h.directory ⟨cs, hcs⟩
      simp only [hcs']
      split at hf
      · rename_i hskip
        rw [if_pos hskip]
        exact ih hf
      · rename_i hskip
        rw [if_neg hskip]
        split at hf
        · rename_i hup
          rw [if_pos hup]
          exact ih hf
        · rename_i hup
          rw [if_neg hup]
          split at hf
          · rename_i hany
            obtain ⟨x, hx⟩ := (Tree.any_children_iff hcs).mp hany
            rw [if_pos ((Tree.any_children_iff hcs').mpr (h.exists_get? hx))]
            exact ih hf
          · cases hf
    · cases hf

/-- A way from an entry leads to an entry. -/
theorem exists_of_follow {x : Tree} (hx : root.get? here = some x)
    (hf : follow root here names = some place) : ∃ y, root.get? place = some y := by
  induction names generalizing here x with
  | nil =>
    cases hf
    exact ⟨x, hx⟩
  | cons n names ih =>
    rw [follow] at hf
    split at hf
    · rename_i cs hcs
      split at hf
      · exact ih hx hf
      · split at hf
        · obtain ⟨cs', hup⟩ := Tree.HasDirectory.dropLast ⟨cs, hcs⟩
          exact ih hup hf
        · split at hf
          · rename_i hany
            obtain ⟨y, hy⟩ := (Tree.any_children_iff hcs).mp hany
            exact ih hy hf
          · cases hf
    · cases hf

/-- Without two points, a way only leads down. -/
theorem prefix_of_follow (hup : ".." ∉ names) (hf : follow root here names = some place) :
    here <+: place := by
  induction names generalizing here with
  | nil =>
    cases hf
    exact List.prefix_refl _
  | cons n names ih =>
    obtain ⟨hn, hrest⟩ := List.ne_and_not_mem_of_not_mem_cons hup
    rw [follow] at hf
    split at hf
    · split at hf
      · exact ih hrest hf
      · split at hf
        · rename_i heq
          exact absurd heq.symm hn
        · split at hf
          · exact (List.prefix_append here [n]).trans (ih hrest hf)
          · cases hf
    · cases hf

end FileSystem

end Triglot
