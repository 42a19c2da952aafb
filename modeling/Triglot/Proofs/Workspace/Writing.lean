import Triglot.Proofs.Outcome
import Triglot.Proofs.Text.Pieces
import Triglot.Proofs.Workspace.Tree

/-! What writing files does to a tree. Making directories changes no file, writing a file changes that one
only, and ways through the tree stay open. So after a run of writes, the last text that was written to
a place can be read there. -/
namespace Triglot

namespace FileSystem

variable {fs fs' mid : FileSystem} {root root' : Tree} {here place : List String}
  {path text directory : String} {files rest : List (String × String)} {r : Option FileError}

def Grounded (fs : FileSystem) : Prop := fs.root.HasDirectory fs.current

theorem grounded_of_isDirectory (h : fs.isDirectory "." = true) : fs.Grounded := by
  have hnames : names "." = ["."] := by decide
  have hstart : fs.start "." = fs.current := rfl
  unfold isDirectory FileSystem.get? locate? at h
  rw [if_neg (by decide), hnames, hstart, follow] at h
  split at h
  · rename_i cs hcs
    exact ⟨cs, hcs⟩
  · cases h

theorem Grounded.start (h : fs.Grounded) (path : String) : fs.root.HasDirectory (fs.start path) := by
  unfold FileSystem.start
  split
  · obtain ⟨cs, hcs⟩ := h
    cases hc : fs.current with
    | nil => exact ⟨cs, hc ▸ hcs⟩
    | cons n p =>
      have hbelow : fs.root.get? ([] ++ n :: p) = some (.directory cs) := hc ▸ hcs
      exact Tree.hasDirectory_of_get?_append hbelow
  · exact h

def SameFiles (a b : Tree) : Prop :=
  ∀ place text, b.get? place = some (.file text) ↔ a.get? place = some (.file text)

/-- Making directories changes no file. -/
theorem makeAlong_grows {names : List String} (hdir : root.HasDirectory here)
    (h : makeAlong root here names = .ok root') : root.Grows root' ∧ SameFiles root root' := by
  induction names generalizing root here with
  | nil =>
    cases h
    exact ⟨.refl _, fun _ _ => Iff.rfl⟩
  | cons n names ih =>
    rw [makeAlong] at h
    split at h
    · exact ih hdir h
    · split at h
      · exact ih hdir.dropLast h
      · dsimp only at h
        split at h
        · rename_i cs hcs
          exact ih ⟨cs, hcs⟩ h
        · cases h
        · rename_i hnone
          -- The way goes on in a directory that is new, in a tree that has grown by it.
          have hnew : (root.set (here ++ [n]) .empty).HasDirectory (here ++ [n]) :=
            ⟨[], Tree.get?_set_self _ _ _⟩
          obtain ⟨hgrows, hsame⟩ := ih hnew h
          refine ⟨(Tree.grows_set_empty hdir hnone).trans hgrows, fun place text => ?_⟩
          rw [hsame, Tree.get?_set_empty_iff hdir hnone]

structure After (a b : FileSystem) : Prop where
  current : b.current = a.current
  grows : a.root.Grows b.root

theorem After.refl (fs : FileSystem) : After fs fs := ⟨rfl, .refl _⟩

theorem After.trans {a b c : FileSystem} (h : After a b) (k : After b c) : After a c :=
  ⟨k.current.trans h.current, h.grows.trans k.grows⟩

theorem After.grounded (h : After fs fs') (hg : fs.Grounded) : fs'.Grounded := by
  have hdir := h.grows.directory hg
  rwa [← h.current] at hdir

/-- A path leads to where it led before. -/
theorem After.locate? (h : After fs fs') (hl : fs.locate? path = some place) :
    fs'.locate? path = some place := by
  unfold FileSystem.locate? FileSystem.start at hl ⊢
  split at hl
  · cases hl
  · rename_i hne
    rw [if_neg hne, h.current]
    exact follow_mono h.grows hl

/-- Making directories changes no file. -/
theorem makeDirectories_after (hg : fs.Grounded) (h : fs.makeDirectories path = .ok fs') :
    After fs fs' ∧ SameFiles fs.root fs'.root := by
  obtain ⟨root', hroot, h⟩ := bind_eq_ok h
  cases h
  obtain ⟨hgrows, hsame⟩ := makeAlong_grows (hg.start path) hroot
  exact ⟨⟨rfl, hgrows⟩, hsame⟩

structure Wrote (a b : FileSystem) (path text : String) (place : List String) : Prop where
  -- A text was written to a path, which leads to a place now; no other file was changed.
  after : After a b
  located : b.locate? path = some place
  there : b.root.get? place = some (.file (some text))
  elsewhere : ∀ other content, other ≠ place →
    (b.root.get? other = some (.file content) ↔ a.root.get? other = some (.file content))

theorem names_ne_nil (path : String) : names path ≠ [] :=
  fun h => Text.pieces_ne_nil _ _ (List.map_eq_nil_iff.mp h)

/-- Names of which none is dropped at the end have a last one, which is not empty. -/
theorem eq_of_not_length_lt {all named : List String} {name : String} (hne : all ≠ [])
    (hnamed : (all.reverse.dropWhile (· == "")).reverse = named)
    (hname : named.getLast?.getD "." = name) (h : ¬ named.length < all.length) :
    named.dropLast ++ [name] = all ∧ name ≠ "" := by
  have hsuffix : all.reverse.dropWhile (· == "") <:+ all.reverse := List.dropWhile_suffix _
  have hlength : all.reverse.length ≤ (all.reverse.dropWhile (· == "")).length := by
    rw [← hnamed, List.length_reverse] at h
    rw [List.length_reverse]
    exact Nat.le_of_not_lt h
  have hall : named = all := by
    rw [← hnamed, hsuffix.eq_of_length_le hlength, List.reverse_reverse]
  subst hall
  rw [List.getLast?_eq_some_getLast hne, Option.getD_some] at hname
  subst hname
  refine ⟨List.dropLast_concat_getLast hne, fun hempty => ?_⟩
  -- An empty last name would have been dropped.
  have hreverse : named.reverse = "" :: named.dropLast.reverse := by
    rw [← hempty, ← List.reverse_concat, List.dropLast_concat_getLast hne]
  rw [hreverse, List.dropWhile_cons_of_pos (by rfl), List.length_cons] at hlength
  exact absurd (List.dropWhile_suffix _).length_le (Nat.not_le_of_lt hlength)

/-- What a path leads to after an entry was put at its last name. -/
theorem follow_set_entry {name : String} {names : List String} (hempty : name ≠ "")
    (hpoint : name ≠ ".") (hup : name ≠ "..")
    (hfollow : follow root' place names = some here) (hdir : root'.HasDirectory here)
    (hentry : ∃ x, root'.get? (here ++ [name]) = some x) :
    follow root' place (names ++ [name]) = some (here ++ [name]) := by
  obtain ⟨cs, hcs⟩ := hdir
  rw [follow_append, hfollow, Option.bind_some, follow, hcs]
  simp only [hempty, hpoint, hup, decide_false, Bool.or_self, Bool.false_eq_true, if_false]
  rw [if_pos ((Tree.any_children_iff hcs).mpr hentry), follow]

/-- A file that was written holds its text, and no other file was changed. -/
theorem wrote_of_writeFile (hg : fs.Grounded) (h : fs.writeFile path text = .ok fs') :
    ∃ place, Wrote fs fs' path text place := by
  unfold writeFile at h
  dsimp only at h
  generalize hnamed : ((names path).reverse.dropWhile (· == "")).reverse = named at h
  generalize hname : named.getLast?.getD "." = name at h
  split at h
  · cases h
  rename_i here hfollow
  split at h
  · cases h
  rename_i hpath
  split at h
  · cases h
  rename_i hfile
  split at h
  · cases h
  rename_i hfits
  simp only [Bool.or_eq_true, decide_eq_true_eq, not_or] at hfits
  obtain ⟨⟨⟨hlength, hpoint⟩, hup⟩, hfree⟩ := hfits
  -- Nothing was dropped from the end of the path, so its last name is that of the file.
  obtain ⟨hall, hempty⟩ := eq_of_not_length_lt (names_ne_nil path) hnamed hname hlength
  have hdir : fs.root.HasDirectory here := by
    obtain ⟨_, hstart⟩ := hg.start path
    obtain ⟨x, hx⟩ := exists_of_follow hstart hfollow
    cases x with
    | file text => exact absurd (by rw [hx]; rfl) hfile
    | directory cs => exact ⟨cs, hx⟩
  have hnone : ¬ fs.root.HasDirectory (here ++ [name]) := by
    rintro ⟨cs, hcs⟩
    exact hfree (by rw [hcs]; rfl)
  have hgrows := Tree.grows_set_file hdir hnone (some text)
  have hthere := Tree.get?_set_self fs.root (here ++ [name]) (.file (some text))
  cases h
  refine ⟨here ++ [name], ⟨rfl, hgrows⟩, ?_, hthere, fun other content hother =>
    Tree.get?_set_entry_iff hdir hnone rfl hother⟩
  unfold locate?
  rw [if_neg hpath, ← hall]
  exact follow_set_entry hempty hpoint hup (follow_mono hgrows hfollow) (hgrows.directory hdir)
    ⟨_, hthere⟩

theorem Wrote.of_after (h : Wrote mid fs' path text place) (hafter : After fs mid)
    (hsame : SameFiles fs.root mid.root) : Wrote fs fs' path text place :=
  ⟨hafter.trans h.after, h.located, h.there, fun other content hother =>
    (h.elsewhere other content hother).trans (hsame other content)⟩

/-- A run of writes fails at the first file, having made directories at most, or writes it and
goes on. -/
theorem writeAll_cons (hg : fs.Grounded)
    (h : writeAll directory ((path, text) :: rest) fs = (fs', r)) :
    (r ≠ none ∧ After fs fs' ∧ SameFiles fs.root fs'.root) ∨
      ∃ mid place, Wrote fs mid (Path.join directory path) text place ∧
        writeAll directory rest mid = (fs', r) := by
  rw [writeAll] at h
  split at h
  · cases h
    exact .inl ⟨nofun, .refl _, fun _ _ => Iff.rfl⟩
  · rename_i made hmade
    obtain ⟨hafter, hsame⟩ := makeDirectories_after hg hmade
    split at h
    · cases h
      exact .inl ⟨nofun, hafter, hsame⟩
    · rename_i mid hmid
      obtain ⟨place, hwrote⟩ := wrote_of_writeFile (hafter.grounded hg) hmid
      exact .inr ⟨mid, place, hwrote.of_after hafter hsame, h⟩

theorem writeAll_after (hg : fs.Grounded) (h : writeAll directory files fs = (fs', r)) :
    After fs fs' := by
  induction files generalizing fs with
  | nil =>
    cases h
    exact .refl _
  | cons f rest ih =>
    rcases writeAll_cons hg h with ⟨_, hafter, _⟩ | ⟨mid, place, hwrote, hrest⟩
    · exact hafter
    · exact hwrote.after.trans (ih (hwrote.after.grounded hg) hrest)

def lastText (fs : FileSystem) (directory : String) (files : List (String × String))
    (place : List String) : Option String :=
  (files.reverse.find? fun f => fs.locate? (Path.join directory f.1) == some place).map (·.2)

theorem lastText_cons (f : String × String) :
    lastText fs directory (f :: rest) place =
      (lastText fs directory rest place).or
        (if fs.locate? (Path.join directory f.1) = some place then some f.2 else none) := by
  unfold lastText
  rw [List.reverse_cons, List.find?_append, Option.map_or]
  congr 1
  simp only [List.find?_singleton, beq_iff_eq]
  split <;> rfl

/-- Files have been written below a directory: their paths lead somewhere, the last text for each
place stands there, and no other file was changed. -/
structure Written (before after : FileSystem) (directory : String)
    (files : List (String × String)) : Prop where
  located : ∀ f ∈ files, ∃ place, after.locate? (Path.join directory f.1) = some place
  there : ∀ place text, lastText after directory files place = some text →
    after.root.get? place = some (.file (some text))
  elsewhere : ∀ place content, lastText after directory files place = none →
    (after.root.get? place = some (.file content) ↔ before.root.get? place = some (.file content))

/-- If every write succeeds, all files have been written. -/
theorem written_of_writeAll (hg : fs.Grounded) (h : writeAll directory files fs = (fs', none)) :
    Written fs fs' directory files := by
  induction files generalizing fs with
  | nil =>
    cases h
    exact ⟨nofun, nofun, fun _ _ _ => Iff.rfl⟩
  | cons f rest ih =>
    rcases writeAll_cons hg h with ⟨hne, _⟩ | ⟨mid, place, hwrote, hrest⟩
    · exact absurd rfl hne
    have hmid := hwrote.after.grounded hg
    have hplace := (writeAll_after hmid hrest).locate? hwrote.located
    obtain ⟨hlocated, hthere, helsewhere⟩ := ih hmid hrest
    refine ⟨?_, fun p t ht => ?_, fun p content hnone => ?_⟩
    · rw [List.forall_mem_cons]
      exact ⟨⟨place, hplace⟩, hlocated⟩
    · rw [lastText_cons, hplace] at ht
      cases hlast : lastText fs' directory rest p with
      | some t' =>
        rw [hlast, Option.some_or] at ht
        exact hthere p t (hlast.trans ht)
      | none =>
        -- No later file goes to the place, so the first one stands there still.
        rw [hlast, Option.none_or] at ht
        split at ht
        · rename_i heq
          cases heq
          cases ht
          exact (helsewhere _ _ hlast).mpr hwrote.there
        · cases ht
    · rw [lastText_cons, hplace, Option.or_eq_none_iff] at hnone
      obtain ⟨hlast, hne⟩ := hnone
      have hp : p ≠ place := by
        rintro rfl
        rw [if_pos rfl] at hne
        cases hne
      exact (helsewhere p content hlast).trans (hwrote.elsewhere p content hp)

end FileSystem

end Triglot
