import Triglot.Proofs.Workspace.Inside

/-! Names of entries. Where names are the way a file system promises them, the path under which a walk
comes to a file leads back to this file, and the way to a directory can be spelled without slashes and
single points at its end. -/
namespace Triglot

def IsEntryName (n : String) : Prop := n ≠ "" ∧ n ≠ "." ∧ n ≠ ".." ∧ '/' ∉ n.toList

instance (n : String) : Decidable (IsEntryName n) :=
  inferInstanceAs (Decidable (n ≠ "" ∧ n ≠ "." ∧ n ≠ ".." ∧ '/' ∉ n.toList))

namespace Tree

/-- The names in every directory are those of entries, and each stands for one entry. -/
inductive Proper : Tree → Prop
  | file (text : Option String) : Proper (.file text)
  | directory {cs : List (String × Tree)} : (cs.map Prod.fst).Nodup → (∀ c ∈ cs, IsEntryName c.1) →
      (∀ c ∈ cs, Proper c.2) → Proper (.directory cs)

/-- A file that a walk comes to stands at the names of its path. -/
theorem get?_of_mem_walk {t : Tree} (h : t.Proper) {base path : String} {text : Option String}
    (hm : (path, text) ∈ t.walk base) :
    ∃ ns, (∀ n ∈ ns, IsEntryName n) ∧ path = ns.foldl Path.join base ∧
      t.get? ns = some (.file text) := by
  induction h generalizing base with
  | file text' =>
    cases List.mem_singleton.mp hm
    exact ⟨[], nofun, rfl, rfl⟩
  | @directory cs hnodup hnames _ ih =>
    rw [walk, walkChildren_eq_flatMap] at hm
    obtain ⟨c, hc, hm⟩ := List.mem_flatMap.mp hm
    obtain ⟨ns, hns, hpath, hget⟩ := ih c hc hm
    refine ⟨c.1 :: ns, List.forall_mem_cons.mpr ⟨hnames c hc, hns⟩, hpath, ?_⟩
    have hlookup : cs.lookup c.1 = some c.2 := (lookup_eq_some_iff_mem hnodup).mpr hc
    rw [get?, children, hlookup]
    exact hget

end Tree

namespace FileSystem

variable {fs : FileSystem} {here : List String} {base path : String}

theorem ne_empty_of_locate? (h : fs.locate? base = some here) : base ≠ "" := by
  rintro rfl
  cases h

theorem ne_empty_of_get? {x : Tree} (h : fs.get? base = some x) : base ≠ "" := by
  obtain ⟨here, hhere, -⟩ := Option.bind_eq_some_iff.mp h
  exact ne_empty_of_locate? hhere

theorem names_of_isEntryName {n : String} (h : IsEntryName n) : names n = [n] := by
  unfold names
  rw [Text.pieces_of_not_mem h.2.2.2, List.map_singleton, String.ofList_toList]

/-- A path from the root starts with an empty name. -/
theorem not_startsWith_of_names (h : ∀ n ∈ names path, IsEntryName n) :
    Text.startsWith path "/" = false := by
  rw [← Bool.not_eq_true, Text.startsWith_slash_iff]
  intro hhead
  obtain ⟨cs, hcs⟩ := List.head?_eq_some_iff.mp hhead
  have hempty : "" ∈ names path := by
    unfold names
    rw [hcs, Text.pieces, if_pos rfl]
    exact List.mem_cons_self
  exact (h "" hempty).1 rfl

theorem forall_names_of_isEntryName {n : String} (h : IsEntryName n) : ∀ k ∈ names n, IsEntryName k := by
  rw [names_of_isEntryName h]
  exact List.forall_mem_singleton.mpr h

theorem not_startsWith_of_isEntryName {n : String} (h : IsEntryName n) :
    Text.startsWith n "/" = false := not_startsWith_of_names (forall_names_of_isEntryName h)

/-- Names are put behind those of a path that has no empty name at its end. -/
theorem names_join_entry (hbase : base ≠ "") (h : ∀ n ∈ names base, IsEntryName n) {n : String}
    (hn : IsEntryName n) : names (Path.join base n) = names base ++ [n] := by
  obtain ⟨ns, hns | hns, hjoin⟩ := names_join hbase (not_startsWith_of_isEntryName hn)
  · rw [hjoin, hns, names_of_isEntryName hn]
  · exact absurd rfl (h "" (hns ▸ List.mem_append_right ns List.mem_cons_self)).1

/-- The names that a path was joined from. -/
theorem names_foldl_join {ns : List String} (hne : ns ≠ []) (h : ∀ n ∈ ns, IsEntryName n) :
    names (ns.foldl Path.join "") = ns := by
  have hrun (ns : List String) (base : String) (hbase : base ≠ "")
      (hnames : ∀ n ∈ names base, IsEntryName n) (h : ∀ n ∈ ns, IsEntryName n) :
      names (ns.foldl Path.join base) = names base ++ ns := by
    induction ns generalizing base with
    | nil => exact (List.append_nil _).symm
    | cons n ns ih =>
      obtain ⟨hn, hrest⟩ := List.forall_mem_cons.mp h
      have hstep := names_join_entry hbase hnames hn
      have hlonger : ∀ k ∈ names (Path.join base n), IsEntryName k := by
        rw [hstep]
        exact List.forall_mem_append.mpr ⟨hnames, List.forall_mem_singleton.mpr hn⟩
      have hsome : Path.join base n ≠ "" := by
        intro hempty
        exact (hlonger "" (by rw [hempty]; exact List.mem_cons_self)).1 rfl
      rw [List.foldl_cons, ih _ hsome hlonger hrest, hstep, List.append_assoc]
      rfl
  cases ns with
  | nil => exact absurd rfl hne
  | cons n ns =>
    obtain ⟨hn, hrest⟩ := List.forall_mem_cons.mp h
    have hfirst : Path.join "" n = n := if_pos (by simp)
    rw [List.foldl_cons, hfirst, hrun ns n hn.1 (forall_names_of_isEntryName hn) hrest,
      names_of_isEntryName hn]
    rfl

/-- Names of entries lead to the place that they name. -/
theorem follow_of_get? {root x : Tree} {ns : List String} (hns : ∀ n ∈ ns, IsEntryName n)
    (h : root.get? (here ++ ns) = some x) : follow root here ns = some (here ++ ns) := by
  induction ns generalizing here with
  | nil => exact congrArg some (List.append_nil here).symm
  | cons n ns ih =>
    obtain ⟨⟨hempty, hpoint, hup, -⟩, hrest⟩ := List.forall_mem_cons.mp hns
    obtain ⟨cs, hcs⟩ := Tree.hasDirectory_of_get?_append h
    rw [List.append_cons] at h ⊢
    have hchild : ∃ y, root.get? (here ++ [n]) = some y := by
      rw [Tree.get?_append] at h
      obtain ⟨y, hy, -⟩ := Option.bind_eq_some_iff.mp h
      exact ⟨y, hy⟩
    have hany := (Tree.any_children_iff hcs).mpr hchild
    rw [follow, hcs]
    dsimp only
    rw [if_neg (by simp [hempty, hpoint]), if_neg hup, if_pos hany]
    exact ih hrest h

/-- A path that is joined from a directory and the names of an entry below leads to this entry. -/
theorem get?_join_names {cs : List (String × Tree)} {x : Tree} {ns : List String}
    (hbase : fs.get? base = some (.directory cs)) (hne : ns ≠ []) (hns : ∀ n ∈ ns, IsEntryName n)
    (h : (Tree.directory cs).get? ns = some x) :
    fs.get? (Path.join base (ns.foldl Path.join "")) = some x := by
  obtain ⟨here, hhere, hcs⟩ := Option.bind_eq_some_iff.mp hbase
  have hnames := names_foldl_join hne hns
  have hrel : Text.startsWith (ns.foldl Path.join "") "/" = false :=
    not_startsWith_of_names (by rwa [hnames])
  have hget : fs.root.get? (here ++ ns) = some x := by
    rw [Tree.get?_append, hcs]
    exact h
  unfold get?
  rw [locate?_join hhere hrel, hnames, follow_of_get? hns hget]
  exact hget

/-- The last name of a path is its file name. -/
theorem fileName?_of_names {before : List String} {n : String} (h : names path = before ++ [n])
    (hn : IsEntryName n) : Path.fileName? path = some n := by
  have hlast : (Path.components path).getLast? = some n := by
    have hpieces : (Text.pieces '/' path.toList).map String.ofList = before ++ [n] := h
    unfold Path.components
    rw [hpieces]
    cases before with
    | nil => simp [hn.1]
    | cons first rest => simp [hn.1, hn.2.1]
  unfold Path.fileName?
  rw [hlast, Option.filter_some, if_pos (by simp [hn.2.1, hn.2.2.1])]

/-- Behind a directory, a path of names keeps its file name. -/
theorem fileName?_join (hbase : base ≠ "") {ns : List String} (hpath : names path = ns) (hne : ns ≠ [])
    (hns : ∀ n ∈ ns, IsEntryName n) :
    Path.fileName? (Path.join base path) = Path.fileName? path := by
  obtain ⟨before, n, rfl⟩ : ∃ before n, ns = before ++ [n] :=
    ⟨_, _, (List.dropLast_concat_getLast hne).symm⟩
  have hn : IsEntryName n := hns n (List.mem_append_right before List.mem_cons_self)
  have hrel : Text.startsWith path "/" = false := not_startsWith_of_names (by rwa [hpath])
  obtain ⟨upper, -, hjoin⟩ := names_join hbase hrel
  rw [hpath, ← List.append_assoc] at hjoin
  rw [fileName?_of_names hjoin hn, fileName?_of_names hpath hn]

/-- Where a path starts is told by its first character. -/
theorem start_eq_of_head? {a b : String} (h : a.toList.head? = b.toList.head?) :
    fs.start a = fs.start b := by
  have hslash : Text.startsWith a "/" = Text.startsWith b "/" := by
    rw [Bool.eq_iff_iff, Text.startsWith_slash_iff, Text.startsWith_slash_iff, h]
  unfold start
  rw [hslash]

theorem names_slash (base : String) : names (base ++ "/") = names base ++ [""] := by
  have happend := names_append base ""
  rwa [String.append_empty] at happend

/-- Behind a slash, a path leads on only if it has come to a directory. -/
theorem locate?_slash (hbase : base ≠ "") :
    fs.locate? (base ++ "/") = (fs.locate? base).bind fun p => follow fs.root p [""] := by
  have hchars : base.toList ≠ [] := fun h => hbase (String.toList_eq_nil_iff.mp h)
  have hhead : (base ++ "/").toList.head? = base.toList.head? := by
    rw [String.toList_append, List.head?_append_of_ne_nil _ hchars]
  have hempty : ¬ base.isEmpty = true := by rwa [String.isEmpty_iff]
  have hlonger : ¬ (base ++ "/").isEmpty = true := by
    rwa [isEmpty_iff_head?, hhead, ← isEmpty_iff_head?]
  unfold locate?
  rw [if_neg hempty, if_neg hlonger, start_eq_of_head? hhead, names_slash, follow_append]

/-- A single point behind a slash is as good as none. -/
theorem locate?_slash_point (base : String) : fs.locate? (base ++ "/.") = fs.locate? (base ++ "/") := by
  have hhead : (base ++ "/.").toList.head? = (base ++ "/").toList.head? := by
    rw [String.toList_append, String.toList_append, List.head?_append, List.head?_append]
    rfl
  have hempty : (base ++ "/.").isEmpty = (base ++ "/").isEmpty := by
    rw [Bool.eq_iff_iff, isEmpty_iff_head?, isEmpty_iff_head?, hhead]
  have hpoint : names (base ++ "/.") = names base ++ ["."] := by
    have happend := names_append base "."
    rwa [String.append_assoc] at happend
  have hsame (p : List String) : follow fs.root p ["."] = follow fs.root p [""] := rfl
  unfold locate?
  rw [hempty, start_eq_of_head? hhead, names_slash, hpoint, follow_append, follow_append]
  simp only [hsame]

/-- Slashes and single points at the end of a path lead nowhere else. -/
theorem locate?_dropTail {cs : List Char} (h : fs.locate? (String.ofList cs.reverse) = some here) :
    fs.locate? (String.ofList (Path.dropTail cs).reverse) = some here := by
  fun_induction Path.dropTail cs with
  | case1 => exact h
  | case2 cs hmore ih =>
    have hne : String.ofList cs.reverse ≠ "" := by
      intro hempty
      exact hmore (by simpa using congrArg String.toList hempty)
    have htext : String.ofList ('/' :: cs).reverse = String.ofList cs.reverse ++ "/" := by
      rw [List.reverse_cons, String.ofList_append]
    rw [htext, locate?_slash hne] at h
    obtain ⟨there, hthere, hlast⟩ := Option.bind_eq_some_iff.mp h
    apply ih
    rw [follow] at hlast
    split at hlast
    · exact hthere.trans hlast
    · cases hlast
  | case3 cs ih =>
    have hpoint : String.ofList ('.' :: '/' :: cs).reverse = String.ofList cs.reverse ++ "/." := by
      rw [List.reverse_cons, List.reverse_cons, List.append_assoc, String.ofList_append]
      rfl
    have hslash : String.ofList ('/' :: cs).reverse = String.ofList cs.reverse ++ "/" := by
      rw [List.reverse_cons, String.ofList_append]
    apply ih
    rw [hslash, ← locate?_slash_point, ← hpoint]
    exact h
  | case4 cs => exact h

/-- A name stays at the end of a path. -/
theorem dropTail_of_isEntryName {n : String} (hn : IsEntryName n) (rest : List Char) :
    Path.dropTail (n.toList.reverse ++ '/' :: rest) = n.toList.reverse ++ '/' :: rest := by
  have hslash : '/' ∉ n.toList.reverse := fun h => hn.2.2.2 (List.mem_reverse.mp h)
  cases hcs : n.toList.reverse with
  | nil => exact absurd (String.toList_eq_nil_iff.mp (List.reverse_eq_nil_iff.mp hcs)) hn.1
  | cons c cs =>
    rw [hcs] at hslash
    obtain ⟨hc, hrest⟩ := List.ne_and_not_mem_of_not_mem_cons hslash
    rw [List.cons_append]
    unfold Path.dropTail
    split
    · rename_i heq
      exact absurd (List.cons.inj heq).1.symm hc
    · rename_i heq
      exact absurd (List.cons.inj heq).1.symm hc
    · rename_i ds heq
      obtain ⟨rfl, htail⟩ := List.cons.inj heq
      cases cs with
      | nil =>
        -- The name would be a single point.
        have hpoint : n.toList = ['.'] := by rw [← List.reverse_reverse n.toList, hcs]; rfl
        exact absurd (String.toList_inj.mp hpoint) hn.2.1
      | cons d ds' =>
        exact absurd (List.cons.inj htail).1.symm (List.ne_and_not_mem_of_not_mem_cons hrest).1
    · rfl

/-- The path above a name is what stands before it, up to slashes and points. -/
theorem parent_append {n upper : String} (hn : IsEntryName n) {rest : List Char}
    (hupper : upper.toList.reverse = '/' :: rest) :
    Path.parent (upper ++ n) = String.ofList (Path.dropTail upper.toList.reverse).reverse := by
  have hskip := Text.bne_of_mem_reverse hn.2.2.2
  unfold Path.parent
  rw [String.toList_append, List.reverse_append, hupper, dropTail_of_isEntryName hn,
    List.dropWhile_append_of_pos hskip, List.dropWhile_cons_of_neg (by simp)]

/-- The directory above an entry, as its path tells it, is the one that the path was joined from. -/
theorem locate?_parent_join (hbase : fs.locate? base = some here) (hdir : fs.root.HasDirectory here)
    {n : String} (hn : IsEntryName n) : fs.locate? (Path.parent (Path.join base n)) = some here := by
  have hne := ne_empty_of_locate? hbase
  obtain ⟨upper, rest, hjoin, hupper, hlocate⟩ : ∃ upper rest, Path.join base n = upper ++ n ∧
      upper.toList.reverse = '/' :: rest ∧ fs.locate? upper = some here := by
    rcases join_cases hne (not_startsWith_of_isEntryName hn) with ⟨hends, hjoin⟩ | hjoin
    · obtain ⟨cs, hcs⟩ := List.isSuffixOf_iff_suffix.mp hends
      refine ⟨base, cs.reverse, hjoin, ?_, hbase⟩
      rw [← hcs, List.reverse_append]
      rfl
    · refine ⟨base ++ "/", base.toList.reverse, hjoin, by rw [String.toList_append]; simp, ?_⟩
      obtain ⟨cs, hcs⟩ := hdir
      rw [locate?_slash hne, hbase, Option.bind_some, follow, hcs]
      rfl
  rw [hjoin, parent_append hn hupper]
  apply locate?_dropTail
  rwa [List.reverse_reverse, String.ofList_toList]

end FileSystem

end Triglot
