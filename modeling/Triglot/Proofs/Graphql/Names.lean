import Triglot.Proofs.Graphql.Closure
import Triglot.Proofs.Graphql.Origin
import Triglot.Proofs.Symbol.Conflict

/-! The names of the definitions in a GraphQL document. Names that no declaration asks for, those of
map types, input forms and roots, never clash among themselves. So a document has distinct names
exactly if no declaration is written under one of them. -/
namespace Triglot.Graphql

theorem inputName_injective : Function.Injective inputName :=
  fun _ _ h => (String.append_left_inj "Input").mp h

def NoInput (n : String) : Prop := ∀ x, n ≠ inputName x

theorem noInput_of_getLast {n : String} (h : n.toList.getLast? ≠ some 't') : NoInput n := by
  rintro x rfl
  exact h (by simp [inputName])

def opening (n : String) : List Char := n.toList.take 2

def Numbering (number : String) : Prop := number = "" ∨ ∃ k : Nat, number = toString k

/-- Behind a numbering, a name ends in a digit or in what it ended in before. -/
theorem Numbering.noInput {number : String} (h : Numbering number) {base : String}
    (hb : base.toList.getLast? ≠ some 't') : NoInput (base ++ number) := by
  apply noInput_of_getLast
  rcases h with rfl | ⟨k, rfl⟩
  · simpa using hb
  · intro hlast
    have hmem : 't' ∈ Nat.toDigits 10 k := by
      rw [Nat.toString_eq_ofList_toDigits, String.toList_append, String.toList_ofList,
        List.getLast?_append_of_ne_nil _ Nat.toDigits_ne_nil] at hlast
      exact List.mem_of_getLast? hlast
    have hdigit := Nat.isDigit_of_mem_toDigits (by decide) (by decide) hmem
    revert hdigit
    decide

section Wrappers

/-- Wrappers of different numbers have different names. -/
theorem wrapperName_injective : Function.Injective Arena.wrapperName :=
  fun _ _ h => natText_injective ((String.append_right_inj "MapWrapper").mp h)

theorem wrapperName_noInput (i : Nat) : NoInput (Arena.wrapperName i) :=
  Numbering.noInput (.inr ⟨i, rfl⟩) (by decide)

theorem wrapperName_opening (i : Nat) : opening (Arena.wrapperName i) = ['M', 'a'] := by
  simp [opening, Arena.wrapperName]

def Arena.Numbered (a : Arena) : Prop :=
  a.wrappers.map Wrapper.name = (List.range a.wrappers.length).map Arena.wrapperName

/-- Wrappers keep their names, and a new one takes the next number. -/
theorem numbered_steps : Arena.Steps fun a b => a.Numbered → b.Numbered where
  refl := fun _ h => h
  trans := fun hab hbc h => hbc (hab h)
  intern := by
    intro a e h
    unfold Arena.Numbered
    rw [intern_wrappers]
    exact h
  allocate := by
    intro a signature h
    simp only [Arena.Numbered, Arena.allocate, List.map_append, List.length_append,
      List.map_cons, List.map_nil, List.length_singleton, List.range_succ] at h ⊢
    rw [h]
  complete := by
    intro a index entry h
    unfold Arena.Numbered
    rw [a.complete_wrapperNames, h]
    simp [Arena.complete]
  unknownValue := by
    intro a shape ns h
    unfold Arena.Numbered
    rw [(unknownValue_sameTypes a shape ns).wrappers]
    exact h

end Wrappers

section Entries

/-- The name that is found for an entry is its base, or the base with a number behind. -/
theorem Arena.freeName_eq_append (a : Arena) (base : String) :
    ∃ number, Numbering number ∧ a.freeName base = base ++ number := by
  rcases List.mem_cons.mp (a.freeName_mem_candidates base) with hbase | hmem
  · exact ⟨"", .inl rfl, hbase.trans String.append_empty.symm⟩
  · obtain ⟨i, _, hi⟩ := List.mem_map.mp hmem
    exact ⟨_, .inr ⟨i + 2, rfl⟩, hi.symm⟩

def IsEntryName (n : String) : Prop :=
  ∃ key ∈ builtinNames, ∃ label number, Numbering number ∧ n = key ++ label ++ "Entry" ++ number

theorem upperFirst_builtin : ∀ key ∈ builtinNames, Text.upperFirst key = key := by
  decide +kernel

/-- Every entry that is made for a map has a name of the scheme. -/
theorem EntryType.MadeFor.isEntryName {scope : Scope} {b : Arena} {key : String} {value : TypeExpr}
    {e : EntryType} (h : e.MadeFor scope b key value) : IsEntryName e.name := by
  obtain ⟨a, c, _, rfl⟩ := h
  have hkey := keyText_mem_builtinNames key
  obtain ⟨number, hnumber, hname⟩ :=
    c.freeName_eq_append (entryFor key value (valueSpelling scope value a).1).name
  refine ⟨keyText key, hkey, Text.upperFirst (valueSpelling scope value a).1.label, number, hnumber,
    hname.trans ?_⟩
  simp only [entryFor, upperFirst_builtin _ hkey]

/-- No entry is named like an input form. -/
theorem IsEntryName.noInput {n : String} (h : IsEntryName n) : NoInput n := by
  obtain ⟨key, _, label, number, hnumber, rfl⟩ := h
  exact hnumber.noInput (by simp)

/-- Entries begin like the scalars that are their keys. -/
theorem IsEntryName.opening {n : String} (h : IsEntryName n) :
    opening n ∈ builtinNames.map opening := by
  obtain ⟨key, hkey, label, number, _, rfl⟩ := h
  have hlong : ∀ k ∈ builtinNames, 2 ≤ k.toList.length := by decide
  refine List.mem_map.mpr ⟨key, hkey, ?_⟩
  simp only [Graphql.opening, String.toList_append, List.append_assoc]
  rw [List.take_append_of_le_length (hlong key hkey)]

end Entries

section Arena

def Arena.mapNames (a : Arena) : List String :=
  a.wrappers.map Wrapper.name ++ a.entries.map EntryType.name

def Arena.placeholderNames (a : Arena) : List String :=
  if a.unknownUsed then [placeholderName] else []

theorem flatMap_pair_perm {α β : Type} (xs : List α) (f g : α → β) :
    (xs.flatMap fun x => [f x, g x]).Perm (xs.map f ++ xs.map g) := by
  rw [List.map_eq_flatMap, List.map_eq_flatMap]
  exact (List.flatMap_append_perm xs (fun x => [f x]) fun x => [g x]).symm

/-- The names of an arena are those of its map types in each direction, and that of the placeholder.
-/
theorem Arena.names_perm (a : Arena) :
    a.names.Perm (a.placeholderNames ++ a.mapNames ++ a.mapNames.map inputName) := by
  have hplaceholder : a.names = a.placeholderNames ++
      (a.wrappers.flatMap fun w => [w.name, inputName w.name]) ++
      (a.entries.flatMap fun e => [e.name, inputName e.name]) := by
    simp only [names, arenaDefs, List.map_append, List.map_flatMap, List.map_cons, List.map_nil,
      placeholderNames]
    congr 2
    split <;> rfl
  have hw := flatMap_pair_perm a.wrappers Wrapper.name fun w => inputName w.name
  have he := flatMap_pair_perm a.entries EntryType.name fun e => inputName e.name
  rw [List.perm_iff_count] at hw he ⊢
  intro n
  have hwn := hw n
  have hen := he n
  simp only [hplaceholder, mapNames, List.map_append, List.map_map, List.count_append] at hwn hen ⊢
  simp only [Function.comp_def]
  omega

structure Arena.WellNamed (a : Arena) : Prop where
  wrappers : a.Numbered
  distinct : (a.entries.map EntryType.name).Nodup
  entries : ∀ e ∈ a.entries, IsEntryName e.name

theorem Arena.Numbered.exists_of_mem {a : Arena} (h : a.Numbered) {n : String}
    (hn : n ∈ a.wrappers.map Wrapper.name) : ∃ i, n = wrapperName i := by
  rw [h] at hn
  obtain ⟨i, _, rfl⟩ := List.mem_map.mp hn
  exact ⟨i, rfl⟩

theorem Arena.Numbered.nodup {a : Arena} (h : a.Numbered) :
    (a.wrappers.map Wrapper.name).Nodup := by
  rw [h]
  exact List.nodup_range.map wrapperName_injective

variable {a : Arena}

theorem Arena.WellNamed.isEntryName (h : a.WellNamed) {n : String}
    (hn : n ∈ a.entries.map EntryType.name) : IsEntryName n := by
  obtain ⟨e, he, rfl⟩ := List.mem_map.mp hn
  exact h.entries e he

theorem Arena.WellNamed.noInput (h : a.WellNamed) :
    ∀ n ∈ a.placeholderNames ++ a.mapNames, NoInput n := by
  simp only [mapNames, List.forall_mem_append]
  refine ⟨?_, ?_, ?_⟩
  · unfold placeholderNames
    split
    · simpa using noInput_of_getLast (n := placeholderName) (by decide)
    · simp
  · intro n hn
    obtain ⟨i, rfl⟩ := h.wrappers.exists_of_mem hn
    exact wrapperName_noInput i
  · exact fun n hn => (h.isEntryName hn).noInput

def mapOpenings : List (List Char) := ['U', 'n'] :: ['M', 'a'] :: builtinNames.map opening

theorem Arena.WellNamed.opening (h : a.WellNamed) :
    ∀ n ∈ a.placeholderNames ++ a.mapNames, opening n ∈ mapOpenings := by
  simp only [mapNames, List.forall_mem_append]
  refine ⟨?_, ?_, ?_⟩
  · unfold placeholderNames
    split
    · simp [Graphql.opening, placeholderName, mapOpenings]
    · simp
  · intro n hn
    obtain ⟨i, rfl⟩ := h.wrappers.exists_of_mem hn
    simp [wrapperName_opening, mapOpenings]
  · intro n hn
    exact List.mem_cons_of_mem _ (List.mem_cons_of_mem _ (h.isEntryName hn).opening)

/-- Wrappers begin otherwise than entries and the placeholder, so no two map types share a name. -/
theorem Arena.WellNamed.nodup (h : a.WellNamed) :
    (a.placeholderNames ++ a.mapNames).Nodup := by
  have hentry {n : String} (hn : n ∈ a.entries.map EntryType.name) :=
    (h.isEntryName hn).opening
  have hmaps : a.mapNames.Nodup := by
    refine List.nodup_append.mpr ⟨h.wrappers.nodup, h.distinct, ?_⟩
    -- A wrapper opens with other characters than any key scalar, and so than any entry.
    rintro x hx y hy rfl
    obtain ⟨i, rfl⟩ := h.wrappers.exists_of_mem hx
    have hopening := hentry hy
    rw [wrapperName_opening] at hopening
    revert hopening
    decide
  refine List.nodup_append.mpr ⟨?_, hmaps, ?_⟩
  · unfold placeholderNames
    split <;> simp
  · rintro x hx y hy rfl
    have hplaceholder : x = placeholderName := by
      unfold placeholderNames at hx
      split at hx
      · exact List.mem_singleton.mp hx
      · cases hx
    subst hplaceholder
    rcases List.mem_append.mp hy with hy | hy
    · obtain ⟨i, hi⟩ := h.wrappers.exists_of_mem hy
      have hopening := congrArg Graphql.opening hi
      rw [wrapperName_opening] at hopening
      revert hopening
      decide
    · have hopening := hentry hy
      revert hopening
      decide

end Arena

section Document

theorem rootDefs_names_sublist (fields : List (RootKind × FieldDef)) :
    ((rootDefs fields).map Definition.name).Sublist (RootKind.all.map rootName) := by
  unfold rootDefs
  induction RootKind.all with
  | nil => exact List.Sublist.refl _
  | cons k ks ih =>
    rw [List.filterMap_cons]
    split
    · exact ih.trans (List.sublist_cons_self _ _)
    · rename_i d hd
      split at hd
      · cases hd
      · cases hd
        exact ih.cons_cons _

def inputForms (m : Model) (names : NameTable) (usage : UsageMap) : List String :=
  ((m.types.filter fun t => usage.needsInput t.ns t.name).map fun t =>
    names.declaredName t.ns t.name) ++ m.unions.map fun u => names.declaredName u.ns u.name

theorem objectNames_perm (ts : List ObjectType) (names : NameTable) (usage : UsageMap) :
    (ts.flatMap (objectNames names usage)).Perm
      ((ts.map fun t => names.declaredName t.ns t.name) ++
        ((ts.filter fun t => usage.needsInput t.ns t.name).map fun t =>
          inputName (names.declaredName t.ns t.name))) := by
  induction ts with
  | nil => exact List.Perm.refl _
  | cons t ts ih =>
    rw [List.perm_iff_count] at ih ⊢
    intro n
    have hn := ih n
    simp only [List.count_append] at hn
    simp only [List.flatMap_cons, List.count_append, List.map_cons, List.filter_cons, hn,
      objectNames]
    split <;> simp only [List.map_cons, List.count_cons, List.count_nil] <;> omega

/-- Declarations are defined under their names, and some of them also as input forms. -/
theorem declaredNames_perm (m : Model) (names : NameTable) (usage : UsageMap) :
    (declaredNames m names usage).Perm
      (m.writtenNames names ++ (inputForms m names usage).map inputName) := by
  have ht := objectNames_perm m.types names usage
  have hu := flatMap_pair_perm m.unions (fun u => names.declaredName u.ns u.name) fun u =>
    inputName (names.declaredName u.ns u.name)
  rw [List.perm_iff_count] at ht hu ⊢
  intro n
  have htn := ht n
  have hun := hu n
  simp only [List.count_append] at htn hun
  simp only [declaredNames, inputForms, Model.writtenNames, Model.perDeclaration, List.map_append,
    List.map_map, List.count_append, Function.comp_def, htn, hun]
  omega

theorem inputForms_sublist (m : Model) (names : NameTable) (usage : UsageMap) :
    (inputForms m names usage).Sublist (m.writtenNames names) := by
  have ht := (List.filter_sublist (l := m.types)
    (p := fun t => usage.needsInput t.ns t.name)).map fun t => names.declaredName t.ns t.name
  unfold inputForms Model.writtenNames Model.perDeclaration
  exact (ht.trans (List.sublist_append_right _ _)).append (List.Sublist.refl _)

variable {m : Model} {p : Parts}

/-- The arena of a document is named by the schemes. -/
theorem Parts.Of.wellNamed {table : SymbolTable} (h : p.Of m table) : p.arena.WellNamed where
  wrappers := (numbered_steps.run _).allObjectDefs h.objects rfl
  distinct :=
    ((Arena.coherent_steps.run _).allObjectDefs h.objects (Arena.coherent_start _)).names
  entries := by
    intro e he
    obtain ⟨ns, type, _, q, _, hmade⟩ := h.original e he
    exact hmade.isEntryName

/-- The names of a document that no declaration asks for: those of map types in both directions and
of the placeholder, of input forms, and of roots. -/
def Parts.synthesizedNames (p : Parts) (m : Model) : List String :=
  p.arena.names ++
    (inputForms m (.build m .graphql) (.classify m (.of m) .graphql)).map inputName ++
    (rootDefs p.roots).map Definition.name

/-- The names of a document: those of the arena, of the declarations and of the roots. -/
theorem Parts.Of.map_name (h : p.Of m (.of m)) :
    (p.definitions m (.flat m (.of m) .graphql)).map Definition.name =
      p.arena.names ++ declaredNames m (.build m .graphql) (.classify m (.of m) .graphql) ++
        (rootDefs p.roots).map Definition.name := by
  have hobjects :=
    (allObjectDefs_known (Scope.flatOver_flat m .graphql) (Arena.coherent_start _) h.objects).2
  have hunions := renderUnions_names h.unions
  simp only [definitions, declaredNames, List.map_append, hobjects, hunions, List.map_map,
    List.append_assoc]
  rfl

/-- A document has a definition for each declaration and each synthesized name. -/
theorem Parts.Of.map_name_perm (h : p.Of m (.of m)) :
    ((p.definitions m (.flat m (.of m) .graphql)).map Definition.name).Perm
      (m.writtenNames (.build m .graphql) ++ p.synthesizedNames m) := by
  have hdeclared := declaredNames_perm m (.build m .graphql) (.classify m (.of m) .graphql)
  rw [h.map_name]
  rw [List.perm_iff_count] at hdeclared ⊢
  intro n
  have hn := hdeclared n
  simp only [synthesizedNames, List.count_append] at hn ⊢
  omega

theorem rootName_facts : ∀ n ∈ RootKind.all.map rootName,
    n.toList.getLast? ≠ some 't' ∧ opening n ∉ mapOpenings := by decide

/-- Where no declaration is in the way, the synthesized names are distinct. -/
theorem Parts.Of.synthesizedNames_nodup (h : p.Of m (.of m))
    (hw : (m.writtenNames (.build m .graphql)).Nodup)
    (hclear : ∀ n ∈ m.writtenNames (.build m .graphql), n ∉ p.synthesizedNames m) :
    (p.synthesizedNames m).Nodup := by
  have hnamed := h.wellNamed
  have hroots := rootDefs_names_sublist p.roots
  have hforms := inputForms_sublist m (.build m .graphql) (.classify m (.of m) .graphql)
  have harena := p.arena.names_perm
  -- Names as they are for output come first, and after them the input forms of both kinds.
  have hperm : (p.synthesizedNames m).Perm
      ((p.arena.placeholderNames ++ p.arena.mapNames ++ (rootDefs p.roots).map Definition.name) ++
        (p.arena.mapNames ++
          inputForms m (.build m .graphql) (.classify m (.of m) .graphql)).map inputName) := by
    rw [List.perm_iff_count] at harena ⊢
    intro n
    have hn := harena n
    simp only [synthesizedNames, List.map_append, List.count_append] at hn ⊢
    omega
  rw [hperm.nodup_iff]
  refine List.nodup_append.mpr ⟨List.nodup_append.mpr ⟨hnamed.nodup, ?_, ?_⟩, ?_, ?_⟩
  · exact hroots.nodup (by decide)
  · rintro x hx y hy rfl
    exact (rootName_facts x (hroots.subset hy)).2 (hnamed.opening x hx)
  · refine List.Nodup.map inputName_injective (List.nodup_append.mpr ⟨?_, hforms.nodup hw, ?_⟩)
    · exact (List.nodup_append.mp hnamed.nodup).2.1
    · rintro x hx y hy rfl
      refine hclear x (hforms.subset hy) (hperm.mem_iff.mpr ?_)
      simp [hx]
  · intro x hx y hy
    obtain ⟨z, _, rfl⟩ := List.mem_map.mp hy
    rcases List.mem_append.mp hx with hx | hx
    · exact hnamed.noInput x hx z
    · exact noInput_of_getLast (rootName_facts x (hroots.subset hx)).1 z

end Document

/-- The definitions of a document have distinct names exactly if no declaration is written under the
name of a map type, of the placeholder, of a root or of an input form. Nothing else can clash. -/
theorem render_names_nodup_iff (m : Model) (r : Rendered) (h : render m (.of m) = .ok r) :
    ∃ p : Parts, p.Of m (.of m) ∧
      r.document.definitions = p.definitions m (.flat m (.of m) .graphql) ∧
      ((r.document.definitions.map Definition.name).Nodup ↔
        ∀ n ∈ m.writtenNames (.build m .graphql), n ∉ p.synthesizedNames m) := by
  obtain ⟨hconflicts, p, hp, _, hdefs⟩ := render_eq_ok h
  have hw := (flatConflicts_of_eq_nil_iff m (.build m .graphql)).mp hconflicts
  refine ⟨p, hp, hdefs, ?_⟩
  rw [hdefs, hp.map_name_perm.nodup_iff, List.nodup_append]
  constructor
  · rintro ⟨_, _, hdisjoint⟩ n hn hs
    exact hdisjoint n hn n hs rfl
  · intro hclear
    refine ⟨hw, hp.synthesizedNames_nodup hw hclear, ?_⟩
    rintro x hx y hy rfl
    exact hclear x hx hy

theorem render_names_ledgers :
    ∃ r, render ledgers (.of ledgers) = .ok r ∧
      (r.document.definitions.map Definition.name).Nodup ∧
      ∃ p : Parts, p.Of ledgers (.of ledgers) ∧
        ∀ n ∈ ledgers.writtenNames (.build ledgers .graphql), n ∉ p.synthesizedNames ledgers := by
  have hnames : (render ledgers (.of ledgers)).toOption.map
      (fun r => decide (r.document.definitions.map Definition.name).Nodup) = some true := by
    decide +kernel
  obtain ⟨r, hr, hnodup⟩ := exists_ok_of_toOption hnames
  obtain ⟨p, hp, _, hiff⟩ := render_names_nodup_iff ledgers r hr
  exact ⟨r, hr, of_decide_eq_true hnodup, p, hp, hiff.mp (of_decide_eq_true hnodup)⟩

def orders : Model :=
  -- A type that is named as the input form of another one.
  { ns := "shop"
    types :=
      [{ name := "Order", ns := "shop"
         fields := [{ name := "item", type := .named "string" false }] },
       { name := "OrderInput", ns := "shop"
         fields := [{ name := "source", type := .named "string" false }] },
       { name := "Receipt", ns := "shop"
         fields := [{ name := "total", type := .named "int32" false }] }]
    services := [{ name := "Shop", ns := "shop"
                   methods := [{ name := "PlaceOrder", input := "Order", output := "Receipt" }] }] }

/-- A model without findings whose document defines one name twice. -/
theorem render_names_orders :
    (validate orders {}).entries = [] ∧
      ∃ r, render orders (.of orders) = .ok r ∧
        r.document.definitions.map Definition.name =
          ["Order", "OrderInput", "OrderInput", "Receipt", "Mutation"] ∧
        ¬(r.document.definitions.map Definition.name).Nodup := by
  have hnames : (render orders (.of orders)).toOption.map
      (fun r => r.document.definitions.map Definition.name) =
      some ["Order", "OrderInput", "OrderInput", "Receipt", "Mutation"] := by decide +kernel
  obtain ⟨r, hr, hlist⟩ := exists_ok_of_toOption hnames
  refine ⟨by decide +kernel, r, hr, hlist, ?_⟩
  rw [hlist]
  decide

end Triglot.Graphql
