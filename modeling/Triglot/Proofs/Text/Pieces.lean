import Triglot.Text.Basic

/-! Pieces of a text between occurrences of a character. Two texts with that character between them have
the pieces of both, and two texts with nothing between them share one piece: the last of the first goes
on as the first of the second. Cutting off the end of a text leaves a part of it, and a carriage return
is left in a line exactly if no line feed follows it. -/
namespace Triglot.Text

variable {sep : Char} {p as bs : List Char}

theorem pieces_ne_nil (sep : Char) (cs : List Char) : pieces sep cs ≠ [] := by
  cases cs with
  | nil => nofun
  | cons c cs =>
    unfold pieces
    split
    · nofun
    · split <;> nofun

/-- A separator between two texts keeps their pieces apart. -/
theorem pieces_append (sep : Char) (as bs : List Char) :
    pieces sep (as ++ sep :: bs) = pieces sep as ++ pieces sep bs := by
  induction as with
  | nil => exact if_pos rfl
  | cons a as ih =>
    rw [List.cons_append, pieces, pieces, ih]
    split
    · rfl
    · cases hp : pieces sep as with
      | nil => exact absurd hp (pieces_ne_nil sep as)
      | cons p ps => rfl

theorem pieces_intercalate (sep : Char) {texts : List (List Char)} (h : texts ≠ []) :
    pieces sep ([sep].intercalate texts) = texts.flatMap (pieces sep) := by
  induction texts with
  | nil => exact absurd rfl h
  | cons t texts ih =>
    -- A separator stands behind each text but the last.
    by_cases hlast : texts = []
    · rw [hlast, List.intercalate_singleton, List.flatMap_singleton]
    · rw [List.intercalate_cons_of_ne_nil hlast, List.append_assoc, List.singleton_append,
        pieces_append, ih hlast, List.flatMap_cons]

theorem mem_intercalate_iff {c : Char} (h : c ≠ sep) {texts : List (List Char)} :
    c ∈ [sep].intercalate texts ↔ ∃ t ∈ texts, c ∈ t := by
  induction texts with
  | nil => simp
  | cons t texts ih =>
    by_cases hlast : texts = []
    · simp [hlast]
    · rw [List.intercalate_cons_of_ne_nil hlast]
      simp [h, ih]

theorem pieces_of_not_mem (h : sep ∉ as) : pieces sep as = [as] := by
  induction as with
  | nil => rfl
  | cons a as ih =>
    have hne : a ≠ sep := fun e => h (e ▸ List.mem_cons_self)
    have hrest : sep ∉ as := fun hm => h (List.mem_cons_of_mem a hm)
    rw [pieces, if_neg hne, ih hrest]

/-- The piece where one text ends and the next starts is one. -/
theorem pieces_append_of_eq {ps qs : List (List Char)} {q : List Char}
    (has : pieces sep as = ps ++ [p]) (hbs : pieces sep bs = q :: qs) :
    pieces sep (as ++ bs) = ps ++ (p ++ q) :: qs := by
  induction as generalizing ps p with
  | nil =>
    obtain ⟨rfl, hp⟩ := List.append_eq_singleton_iff.mp has.symm |>.resolve_right (by simp)
    cases hp
    exact hbs
  | cons a as ih =>
    obtain ⟨rs, r, hr⟩ : ∃ rs r, pieces sep as = rs ++ [r] :=
      ⟨_, _, (List.dropLast_concat_getLast (pieces_ne_nil sep as)).symm⟩
    rw [List.cons_append, pieces, ih hr]
    rw [pieces, hr] at has
    by_cases hsep : a = sep
    · rw [if_pos hsep] at has ⊢
      have hends : ([] :: rs) ++ [r] = ps ++ [p] := has
      obtain ⟨rfl, hp⟩ := List.append_inj' hends rfl
      cases hp
      rfl
    · rw [if_neg hsep] at has ⊢
      -- The character goes to the first piece, which is the shared one if there is no other.
      cases rs with
      | nil =>
        have hends : [] ++ [a :: r] = ps ++ [p] := has
        obtain ⟨rfl, hp⟩ := List.append_inj' hends rfl
        cases hp
        rfl
      | cons r' rs =>
        have hends : ((a :: r') :: rs) ++ [r] = ps ++ [p] := has
        obtain ⟨rfl, hp⟩ := List.append_inj' hends rfl
        cases hp
        rfl

theorem pieces_append_of_not_mem {qs : List (List Char)} {q : List Char} (has : sep ∉ as)
    (hbs : pieces sep bs = q :: qs) : pieces sep (as ++ bs) = (as ++ q) :: qs := by
  have hone : pieces sep as = [] ++ [as] := pieces_of_not_mem has
  exact pieces_append_of_eq hone hbs

theorem sublist_of_mem_pieces {cs : List Char} (h : p ∈ pieces sep cs) : p.Sublist cs := by
  induction cs generalizing p with
  | nil =>
    rw [pieces, List.mem_singleton] at h
    exact h ▸ List.Sublist.slnil
  | cons c cs ih =>
    rw [pieces] at h
    split at h
    · rcases List.mem_cons.mp h with rfl | hp
      · exact List.nil_sublist _
      · exact (ih hp).cons c
    · cases hps : pieces sep cs with
      | nil => exact absurd hps (pieces_ne_nil sep cs)
      | cons q qs =>
        rw [hps] at h
        rcases List.mem_cons.mp h with rfl | hp
        · exact (ih (hps ▸ List.mem_cons_self)).cons_cons c
        · exact (ih (hps ▸ List.mem_cons_of_mem q hp)).cons c

theorem not_mem_of_mem_pieces {cs : List Char} (h : p ∈ pieces sep cs) : sep ∉ p := by
  induction cs generalizing p with
  | nil =>
    rw [pieces, List.mem_singleton] at h
    exact h ▸ List.not_mem_nil
  | cons c cs ih =>
    rw [pieces] at h
    split at h
    · rcases List.mem_cons.mp h with rfl | hp
      · exact List.not_mem_nil
      · exact ih hp
    · rename_i hne
      cases hps : pieces sep cs with
      | nil => exact absurd hps (pieces_ne_nil sep cs)
      | cons q qs =>
        rw [hps] at h
        rcases List.mem_cons.mp h with rfl | hp
        · have hq : sep ∉ q := ih (hps ▸ List.mem_cons_self)
          intro hmem
          rcases List.mem_cons.mp hmem with e | hmem
          · exact hne e.symm
          · exact hq hmem
        · exact ih (hps ▸ List.mem_cons_of_mem q hp)

theorem dropReturn_sublist (cs : List Char) : (dropReturn cs).Sublist cs := by
  unfold dropReturn
  split
  · exact List.dropLast_sublist cs
  · exact List.Sublist.refl cs

/-- A line of a text has no line feed. -/
theorem not_mem_of_mem_lines {s l : String} (h : l ∈ lines s) : '\n' ∉ l.toList := by
  have hended : ∀ l ∈ (pieces '\n' s.toList).dropLast.map (fun p => String.ofList (dropReturn p)),
      '\n' ∉ l.toList := by
    intro l hl
    obtain ⟨p, hp, rfl⟩ := List.mem_map.mp hl
    rw [String.toList_ofList]
    intro hmem
    exact not_mem_of_mem_pieces ((List.dropLast_sublist _).mem hp) ((dropReturn_sublist p).mem hmem)
  unfold lines at h
  dsimp only at h
  split at h
  · rename_i c cs hlast
    rcases List.mem_append.mp h with hl | hl
    · exact hended l hl
    · rw [List.mem_singleton.mp hl, String.toList_ofList]
      exact not_mem_of_mem_pieces (List.mem_of_getLast? hlast)
  · exact hended l h

/-- A text that starts with a separator starts with an empty piece, and is not that piece alone. -/
theorem head?_eq_sep_iff {cs : List Char} {ps : List (List Char)} (h : pieces sep cs = p :: ps) :
    cs.head? = some sep ↔ p = [] ∧ ps ≠ [] := by
  cases cs with
  | nil =>
    cases h
    simp
  | cons c cs =>
    rw [pieces] at h
    split at h
    · rename_i hc
      cases h
      simp [hc, pieces_ne_nil]
    · rename_i hc
      cases hps : pieces sep cs with
      | nil => exact absurd hps (pieces_ne_nil sep cs)
      | cons q qs =>
        rw [hps] at h
        cases h
        simp [hc]

theorem return_mem_dropReturn_cons (c : Char) (p : List Char) :
    '\r' ∈ dropReturn (c :: p) ↔ (c = '\r' ∧ p ≠ []) ∨ '\r' ∈ dropReturn p := by
  cases p with
  | nil => by_cases hc : c = '\r' <;> simp [dropReturn, hc, eq_comm]
  | cons q qs =>
    have hcut : dropReturn (c :: q :: qs) = c :: dropReturn (q :: qs) := by
      unfold dropReturn
      rw [List.getLast?_cons_cons, List.dropLast_cons_cons]
      split <;> rfl
    simp [hcut, eq_comm]

def loneReturn : List Char → Bool
  | [] => false
  | c :: cs => (c == '\r' && cs.head? != some '\n') || loneReturn cs

/-- A lone carriage return is one that is not dropped: before the last piece all but one at the end is
kept, and all in the last piece. -/
theorem loneReturn_iff_pieces (cs : List Char) :
    loneReturn cs = true ↔ (∃ p ∈ (pieces '\n' cs).dropLast, '\r' ∈ dropReturn p) ∨
      ∃ p ∈ (pieces '\n' cs).getLast?, '\r' ∈ p := by
  induction cs with
  | nil => simp [loneReturn, pieces]
  | cons c cs ih =>
    cases hps : pieces '\n' cs with
    | nil => exact absurd hps (pieces_ne_nil _ cs)
    | cons p ps =>
      have hhead := head?_eq_sep_iff hps
      rw [hps] at ih
      rw [loneReturn, Bool.or_eq_true, ih, pieces, hps]
      by_cases hfeed : c = '\n'
      · simp [hfeed, dropReturn]
      · rw [if_neg hfeed]
        -- The character joins the first piece, which is kept whole only if it is the last one.
        cases ps with
        | nil => simp [hhead, eq_comm (b := '\r')]
        | cons q qs =>
          have hfirst := return_mem_dropReturn_cons c p
          simp [hhead, hfirst, or_assoc]

/-- Some line keeps a carriage return exactly if the text has one that ends no line. -/
theorem exists_return_lines_iff (s : String) :
    (∃ l ∈ lines s, '\r' ∈ l.toList) ↔ loneReturn s.toList = true := by
  have hended : (∃ l ∈ (pieces '\n' s.toList).dropLast.map fun p => String.ofList (dropReturn p),
      '\r' ∈ l.toList) ↔ ∃ p ∈ (pieces '\n' s.toList).dropLast, '\r' ∈ dropReturn p := by
    constructor
    · rintro ⟨l, hl, hmem⟩
      obtain ⟨p, hp, rfl⟩ := List.mem_map.mp hl
      rw [String.toList_ofList] at hmem
      exact ⟨p, hp, hmem⟩
    · rintro ⟨p, hp, hmem⟩
      exact ⟨_, List.mem_map_of_mem hp, String.toList_ofList.symm ▸ hmem⟩
  rw [loneReturn_iff_pieces, ← hended]
  unfold lines
  dsimp only
  split
  · rename_i c cs hlast
    simp only [List.mem_append, List.mem_singleton, or_and_right, exists_or, exists_eq_left, hlast,
      Option.mem_some_iff, exists_eq_left', String.toList_ofList]
  · rename_i hlast
    -- An empty last piece is no line, and has no carriage return either.
    have hempty : ¬ ∃ p ∈ (pieces '\n' s.toList).getLast?, '\r' ∈ p := by
      rintro ⟨p, hp, hmem⟩
      cases p with
      | nil => cases hmem
      | cons c cs => exact hlast c cs hp
    rw [or_iff_left hempty]

/-- Read from its end, a text without the separator is skipped as a whole. -/
theorem bne_of_mem_reverse {cs : List Char} (h : sep ∉ cs) : ∀ c ∈ cs.reverse, (c != sep) = true := by
  intro c hc
  rw [bne_iff_ne]
  rintro rfl
  exact h (List.mem_reverse.mp hc)

theorem dropTailWhile_sublist (p : Char → Bool) (cs : List Char) :
    (dropTailWhile p cs).Sublist cs := by
  have hreverse := (List.dropWhile_sublist (l := cs.reverse) p).reverse
  rw [List.reverse_reverse] at hreverse
  exact hreverse

/-- What is not cut off at an end stays when something follows it. -/
theorem dropTailWhile_append {p : Char → Bool} (h : dropTailWhile p as = as) (bs : List Char) :
    dropTailWhile p (as ++ bs) = as ++ dropTailWhile p bs := by
  unfold dropTailWhile at h ⊢
  rw [List.reverse_append, List.dropWhile_append]
  by_cases hnone : (bs.reverse.dropWhile p).isEmpty = true
  · rw [if_pos hnone, h, List.isEmpty_iff.mp hnone, List.reverse_nil, List.append_nil]
  · rw [if_neg hnone, List.reverse_append, List.reverse_reverse]

end Triglot.Text
