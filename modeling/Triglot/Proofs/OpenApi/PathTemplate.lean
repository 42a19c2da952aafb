import Triglot.OpenApi.Path

/-! The parameters of a path. A placeholder is a name between braces; the name is not empty and has
neither a brace nor a slash in it. Two placeholders never share a character, and no text that almost is
one hides the next, so the placeholders of a path are those that a search from left to right finds when
it goes on behind each of them. -/
namespace Triglot.OpenApi

def IsParameterName (name : String) : Prop :=
  name ≠ "" ∧ ∀ c ∈ name.toList, c ≠ '\x7b' ∧ c ≠ '\x7d' ∧ c ≠ '/'

def StandsAt (cs : List Char) (start : Nat) (name : String) : Prop :=
  IsParameterName name ∧ '\x7b' :: (name.toList ++ ['\x7d']) <+: cs.drop start

/-- What a search finds that takes the first placeholder and goes on right behind it. -/
inductive LeftmostMatches : List Char → List String → Prop
  | none {cs : List Char} (h : ∀ start name, ¬ StandsAt cs start name) : LeftmostMatches cs []
  | next {cs : List Char} {start : Nat} {name : String} {names : List String}
    (hstands : StandsAt cs start name) (hfirst : ∀ i n, StandsAt cs i n → start ≤ i)
    (hrest : LeftmostMatches (cs.drop (start + (name.toList.length + 2))) names) :
    LeftmostMatches cs (name :: names)

variable {cs rest : List Char} {c : Char} {start : Nat} {name : String}

theorem isParameterChar_iff : isParameterChar c = true ↔ c ≠ '\x7b' ∧ c ≠ '\x7d' ∧ c ≠ '/' := by
  simp [isParameterChar, and_assoc]

theorem standsAt_succ : StandsAt (c :: rest) (start + 1) name ↔ StandsAt rest start name := Iff.rfl

theorem not_standsAt_nil : ¬ StandsAt [] start name := by
  rintro ⟨-, h⟩
  simp at h

theorem standsAt_zero_iff : StandsAt cs 0 name ↔
    IsParameterName name ∧ ∃ after, cs = '\x7b' :: (name.toList ++ '\x7d' :: after) := by
  refine and_congr_right fun _ => exists_congr fun after => ?_
  simp [eq_comm]

/-- A placeholder is read with its name: the brace that closes it is the first character that cannot stand
in a name. -/
theorem parameters_of_standsAt (h : StandsAt (c :: rest) 0 name) :
    parameters (c :: rest) = name :: parameters rest := by
  obtain ⟨⟨hne, hname⟩, after, htext⟩ := standsAt_zero_iff.mp h
  obtain ⟨rfl, rfl⟩ := List.cons.inj htext
  have hchars : ∀ c ∈ name.toList, isParameterChar c = true :=
    fun c hc => isParameterChar_iff.mpr (hname c hc)
  have htake : (name.toList ++ '\x7d' :: after).takeWhile isParameterChar = name.toList := by
    rw [List.takeWhile_append_of_pos hchars]
    simp [isParameterChar]
  have hdrop : (name.toList ++ '\x7d' :: after).dropWhile isParameterChar = '\x7d' :: after := by
    rw [List.dropWhile_append_of_pos hchars]
    simp [isParameterChar]
  rw [parameters, if_pos rfl, htake, hdrop]
  simp [hne]

theorem parameters_of_not_standsAt (h : ∀ name, ¬ StandsAt (c :: rest) 0 name) :
    parameters (c :: rest) = parameters rest := by
  rw [parameters]
  split
  · rename_i hc
    dsimp only
    split
    · rename_i after hdrop
      split
      · rfl
      -- What stands up to the brace that closes would be a name.
      · rename_i hne
        refine absurd ?_ (h (String.ofList (rest.takeWhile isParameterChar)))
        refine standsAt_zero_iff.mpr ⟨⟨?_, ?_⟩, after, ?_⟩
        · simpa using hne
        · intro c hc
          rw [String.toList_ofList] at hc
          exact isParameterChar_iff.mp (List.all_eq_true.mp List.all_takeWhile c hc)
        · rw [hc, String.toList_ofList, ← hdrop, List.takeWhile_append_dropWhile]
    · rfl
  · rfl

/-- A position tells the name. -/
theorem StandsAt.name_unique {other : String} (h : StandsAt cs 0 name) (h' : StandsAt cs 0 other) :
    name = other := by
  cases cs with
  | nil => exact absurd h not_standsAt_nil
  | cons c rest =>
    exact (List.cons.inj ((parameters_of_standsAt h).symm.trans (parameters_of_standsAt h'))).1

/-- The names are those of the placeholders, told with their positions from left to right. -/
theorem exists_positions (cs : List Char) :
    ∃ found : List (Nat × String), found.map Prod.snd = parameters cs ∧
      found.Pairwise (fun a b => a.1 < b.1) ∧
      ∀ start name, (start, name) ∈ found ↔ StandsAt cs start name := by
  induction cs with
  | nil => exact ⟨[], rfl, .nil, fun _ _ => iff_of_false List.not_mem_nil not_standsAt_nil⟩
  | cons c rest ih =>
    obtain ⟨found, hnames, horder, hfound⟩ := ih
    -- The positions in the rest are counted from one character before it.
    let later := found.map fun p => (p.1 + 1, p.2)
    have hlaterNames : later.map Prod.snd = parameters rest := by
      rw [List.map_map, ← hnames]
      rfl
    have hlaterOrder : later.Pairwise fun a b => a.1 < b.1 :=
      List.pairwise_map.mpr (horder.imp fun h => Nat.succ_lt_succ h)
    have hzero (name : String) : (0, name) ∉ later := by simp [later]
    have hsucc (start : Nat) (name : String) :
        (start + 1, name) ∈ later ↔ StandsAt (c :: rest) (start + 1) name := by
      simp [later, hfound, standsAt_succ]
    by_cases hopens : ∃ name, StandsAt (c :: rest) 0 name
    · obtain ⟨name, hname⟩ := hopens
      refine ⟨(0, name) :: later, ?_, List.pairwise_cons.mpr ⟨?_, hlaterOrder⟩, fun i n => ?_⟩
      · rw [List.map_cons, hlaterNames, parameters_of_standsAt hname]
      · rintro ⟨i, n⟩ hp
        obtain ⟨p, _, hp⟩ := List.mem_map.mp hp
        obtain ⟨rfl, rfl⟩ := Prod.mk.inj hp
        exact Nat.succ_pos _
      · cases i with
        | zero =>
          rw [List.mem_cons, or_iff_left (hzero n), Prod.mk.injEq, eq_self, true_and]
          exact ⟨fun hn => hn ▸ hname, fun hn => hn.name_unique hname⟩
        | succ i => rw [List.mem_cons, or_iff_right (by simp), hsucc]
    · rw [not_exists] at hopens
      refine ⟨later, hlaterNames.trans (parameters_of_not_standsAt hopens).symm, hlaterOrder, ?_⟩
      intro i n
      cases i with
      | zero => exact iff_of_false (hzero n) (hopens n)
      | succ i => exact hsucc i n

/-- The text before the first placeholder adds no name. -/
theorem parameters_drop (h : ∀ i < start, ∀ name, ¬ StandsAt cs i name) :
    parameters (cs.drop start) = parameters cs := by
  induction start generalizing cs with
  | zero => rw [List.drop_zero]
  | succ start ih =>
    cases cs with
    | nil => rw [List.drop_nil]
    | cons c rest =>
      rw [parameters_of_not_standsAt (h 0 (Nat.succ_pos _)), List.drop_succ_cons]
      exact ih fun i hi name => h (i + 1) (Nat.succ_lt_succ hi) name

theorem parameters_append {as bs : List Char} (h : '\x7b' ∉ as) :
    parameters (as ++ bs) = parameters bs := by
  induction as with
  | nil => rfl
  | cons a as ih =>
    rw [List.mem_cons, not_or] at h
    rw [List.cons_append, parameters_of_not_standsAt, ih h.2]
    intro name hname
    obtain ⟨-, after, htext⟩ := standsAt_zero_iff.mp hname
    exact h.1 (List.cons.inj htext).1.symm

/-- After a placeholder come those behind it: none begins within it. -/
theorem StandsAt.parameters_eq (h : StandsAt cs 0 name) :
    parameters cs = name :: parameters (cs.drop (name.toList.length + 2)) := by
  obtain ⟨⟨-, hname⟩, after, rfl⟩ := standsAt_zero_iff.mp h
  have hinside : '\x7b' ∉ name.toList ++ ['\x7d'] := by
    intro hmem
    rcases List.mem_append.mp hmem with hmem | hmem
    · exact (hname _ hmem).1 rfl
    · simp at hmem
  have hbody : name.toList ++ '\x7d' :: after = (name.toList ++ ['\x7d']) ++ after := by simp
  have hlength : name.toList.length + 1 = (name.toList ++ ['\x7d']).length := by simp
  rw [parameters_of_standsAt h, List.drop_succ_cons, hbody, hlength, List.drop_left,
    parameters_append hinside]

/-- The scan takes the first placeholder and goes on right behind it. -/
theorem StandsAt.parameters_of_first (h : StandsAt cs start name)
    (hfirst : ∀ i n, StandsAt cs i n → start ≤ i) :
    parameters cs = name :: parameters (cs.drop (start + (name.toList.length + 2))) := by
  have hbefore : ∀ i < start, ∀ n, ¬ StandsAt cs i n :=
    fun i hi n hn => absurd (hfirst i n hn) (Nat.not_le.mpr hi)
  have hhere : StandsAt (cs.drop start) 0 name := h
  rw [← parameters_drop hbefore, hhere.parameters_eq, List.drop_drop]

theorem LeftmostMatches.eq_parameters {names : List String} (h : LeftmostMatches cs names) :
    names = parameters cs := by
  induction h with
  | @none cs hnone =>
    rw [← parameters_drop fun i (_ : i < cs.length) => hnone i, List.drop_length]
    rfl
  | next hstands hfirst _ ih => rw [hstands.parameters_of_first hfirst, ih]

/-- What the scan finds are the leftmost matches. -/
theorem leftmostMatches_parameters (cs : List Char) : LeftmostMatches cs (parameters cs) := by
  -- The search goes on behind a placeholder and not at the next character, so the induction is on the
  -- length of the text.
  induction hlength : cs.length using Nat.strongRecOn generalizing cs with
  | ind length ih =>
    obtain ⟨found, hnames, horder, hfound⟩ := exists_positions cs
    cases found with
    | nil =>
      rw [← hnames]
      exact .none fun start name h => absurd ((hfound start name).mpr h) List.not_mem_nil
    | cons first more =>
      obtain ⟨start, name⟩ := first
      have hstands : StandsAt cs start name := (hfound start name).mp List.mem_cons_self
      have hfirst : ∀ i n, StandsAt cs i n → start ≤ i := by
        intro i n hn
        rcases List.mem_cons.mp ((hfound i n).mpr hn) with he | hmore
        · exact Nat.le_of_eq (Prod.mk.inj he).1.symm
        · exact Nat.le_of_lt ((List.pairwise_cons.mp horder).1 _ hmore)
      have hne : cs ≠ [] := fun he => not_standsAt_nil (he ▸ hstands)
      have hshorter : (cs.drop (start + (name.toList.length + 2))).length < length := by
        have hpos := List.length_pos_iff.mpr hne
        rw [List.length_drop]
        omega
      rw [hstands.parameters_of_first hfirst]
      exact .next hstands hfirst (ih _ hshorter _ rfl)

/-- The parameters of a path are the names of its placeholders: each occurrence is listed once, from left
to right, and nothing else is. They are also what a search gives that takes the first placeholder and goes
on behind it, whatever else stands in the path. -/
theorem pathParameters_exact (path : String) :
    (∃ found : List (Nat × String), found.map Prod.snd = pathParameters path ∧
      found.Pairwise (fun a b => a.1 < b.1) ∧
      ∀ start name, (start, name) ∈ found ↔ StandsAt path.toList start name) ∧
    ∀ names, LeftmostMatches path.toList names ↔ names = pathParameters path :=
  ⟨exists_positions path.toList, fun _ =>
    ⟨LeftmostMatches.eq_parameters, fun h => h ▸ leftmostMatches_parameters path.toList⟩⟩

/-- A doubled brace, a slash between braces and braces around nothing hide no placeholder. -/
example : pathParameters "/\x7b\x7bid\x7d/\x7ba/b\x7d\x7bc\x7d/\x7b\x7d\x7bd" = ["id", "c"] := by
  decide

end Triglot.OpenApi
