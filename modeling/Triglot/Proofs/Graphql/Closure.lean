import Triglot.Proofs.Graphql.Known
import Triglot.Proofs.Graphql.Success

/-! Every type name that a GraphQL document uses is that of a builtin scalar or of a definition of the
same document. -/
namespace Triglot

/-- An option of a union travels as an input. -/
theorem UsageMap.needsInput_of_option {m : Model} {table : SymbolTable} {target : Target}
    {u : UnionType} (hu : u ∈ m.unions) {o : String} (ho : o ∈ u.options) {s : Symbol}
    (hq : s.qualified = qualify s.ns s.name) (hs : table.resolve o u.ns = .ok s) :
    (UsageMap.classify m table target).needsInput s.ns s.name = true := by
  have hmem : qualify s.ns s.name ∈ (UsageMap.classify m table target).options := by
    refine List.mem_flatMap.mpr ⟨u, hu, List.mem_filterMap.mpr ⟨o, ho, ?_⟩⟩
    simp only [UsageMap.resolved, hs, hq]
  simp [UsageMap.needsInput, UsageMap.usage, hmem]

namespace Graphql

variable {scope : Scope} {m : Model}

theorem namedRef_known (h : scope.FlatOver m) {a : Arena} {d : Direction} {name : String}
    {r : TypeRef} (hr : namedRef scope a.usage d name = .ok r) : Knows m scope.names a r.base := by
  unfold namedRef at hr
  split at hr
  · cases hr
    exact .inl (scalarText_mem_builtinNames _)
  · obtain ⟨s, hs, rfl⟩ := map_eq_ok hr
    exact .inr (.inl (directedName_mem_declaredNames h (h.declares hs) a.usage d))

/-- What a field refers to has a definition in the arena that its type leaves. -/
theorem typeRef_known (h : scope.FlatOver m) {d : Direction} {type : TypeExpr} {a b : Arena}
    (ha : a.Coherent) {r : TypeRef} (he : typeRef scope d type a = .ok (r, b)) :
    Knows m scope.names b r.base := by
  induction type generalizing r with
  | named name o =>
    obtain ⟨t, ht, he⟩ := map_eq_ok he
    cases he
    exact namedRef_known h ht
  | array items o ih =>
    obtain ⟨⟨t, b⟩, ht, he⟩ := map_eq_ok he
    cases he
    have hbase : Knows m scope.names b t.base := ih ht
    exact hbase
  | map key value o =>
    cases he
    exact .entry (synthesizeMap_mem_entries scope key value ha) d

/-- The names in the fields of an object are known when the last of them is made. -/
theorem fieldDefs_known (h : scope.FlatOver m) {ns : String} {d : Direction} {fs : List Field}
    {a b : Arena} (ha : a.Coherent) {defs : List FieldDef}
    (he : fieldDefs (scope.within ns) d fs a = .ok (defs, b)) :
    ∀ f ∈ defs, f.argument = none ∧ Knows m scope.names b f.type.base := by
  have hrun := Arena.extends_steps.run scope
  induction fs generalizing a defs with
  | nil =>
    cases he
    simp
  | cons f fs ih =>
    obtain ⟨⟨t, c⟩, ht, he⟩ := bind_eq_ok he
    obtain ⟨⟨rest, b⟩, hrest, he⟩ := bind_eq_ok he
    cases he
    have hext : c.Extends b := hrun.fieldDefs hrest
    have hknown : Knows m scope.names c t.base := typeRef_known (h.within ns) ha ht
    have hc : c.Coherent := ((hrun.runOver fun _ _ => True).typeRef trivial ht).coherent ha
    refine List.forall_mem_cons.mpr ⟨⟨rfl, ?_⟩, ih hc hrest⟩
    dsimp only
    split <;> exact hknown.mono hext

def Definition.Known (m : Model) (names : NameTable) (a : Arena) (d : Definition) : Prop :=
  ∀ n ∈ d.usedNames, Knows m names a n

theorem Definition.Known.mono {names : NameTable} {a b : Arena} (h : a.Extends b) {d : Definition}
    (hd : d.Known m names a) : d.Known m names b := fun n hn => (hd n hn).mono h

/-- An object uses the names in the arguments and types of its fields. -/
theorem known_object {names : NameTable} {a : Arena} {o : ObjectDef}
    (h : ∀ f ∈ o.fields, (∀ t, f.argument = some t → Knows m names a t.base) ∧
      Knows m names a f.type.base) : (Definition.object o).Known m names a := by
  intro n hn
  obtain ⟨f, hf, hn⟩ := List.mem_flatMap.mp hn
  obtain ⟨harg, htype⟩ := h f hf
  rcases List.mem_append.mp hn with hn | hn
  · obtain ⟨t, ht, rfl⟩ := Option.map_eq_some_iff.mp (Option.mem_toList.mp hn)
    exact harg t ht
  · rw [List.mem_singleton.mp hn]
    exact htype

theorem objectDef_known (h : scope.FlatOver m) {t : ObjectType} {d : Direction} {a b : Arena}
    (ha : a.Coherent) {o : Definition} (he : objectDef scope t d a = .ok (o, b)) :
    o.Known m scope.names b ∧ o.name = d.name (scope.names.declaredName t.ns t.name) := by
  obtain ⟨⟨fields, b⟩, hf, he⟩ := bind_eq_ok he
  cases he
  refine ⟨known_object fun f hmem => ?_, rfl⟩
  obtain ⟨hnone, hknown⟩ := fieldDefs_known h ha hf f hmem
  refine ⟨fun t ht => ?_, hknown⟩
  rw [hnone] at ht
  cases ht

/-- Each form of an object type refers to known names and has the name of the type in its direction.
-/
theorem objectDefs_known (h : scope.FlatOver m) {t : ObjectType} {a b : Arena} (ha : a.Coherent)
    {defs : List Definition} (he : objectDefs scope t a = .ok (defs, b)) :
    (∀ d ∈ defs, d.Known m scope.names b) ∧
      defs.map Definition.name = objectNames scope.names a.usage t := by
  have hrun := Arena.extends_steps.run scope
  obtain ⟨⟨output, c⟩, ho, he⟩ := bind_eq_ok he
  obtain ⟨hout, honame⟩ := objectDef_known h ha ho
  have husage : c.usage = a.usage := (hrun.objectDef ho).usage
  dsimp only at he
  rw [husage] at he
  unfold objectNames
  split at he
  · rename_i hneeds
    obtain ⟨⟨input, b⟩, hi, he⟩ := bind_eq_ok he
    cases he
    obtain ⟨hin, hiname⟩ := objectDef_known h ((hrun.objectDef ho).coherent ha) hi
    refine ⟨by simp [hin, hout.mono (hrun.objectDef hi)], ?_⟩
    simp [hneeds, honame, hiname, Direction.name]
  · rename_i hneeds
    cases he
    exact ⟨by simp [hout], by simp [hneeds, honame, Direction.name]⟩

/-- Over all object types: what their definitions use is known in the end, and their names are those
that were promised. -/
theorem allObjectDefs_known (h : scope.FlatOver m) {ts : List ObjectType} {a b : Arena}
    (ha : a.Coherent) {defs : List Definition} (he : allObjectDefs scope ts a = .ok (defs, b)) :
    (∀ d ∈ defs, d.Known m scope.names b) ∧
      defs.map Definition.name = ts.flatMap (objectNames scope.names a.usage) := by
  have hrun := Arena.extends_steps.run scope
  induction ts generalizing a defs with
  | nil =>
    cases he
    simp
  | cons t ts ih =>
    obtain ⟨⟨own, c⟩, hd, he⟩ := bind_eq_ok he
    obtain ⟨⟨rest, b⟩, hrest, he⟩ := bind_eq_ok he
    cases he
    obtain ⟨hown, hownNames⟩ := objectDefs_known h ha hd
    obtain ⟨hlater, hlaterNames⟩ := ih ((hrun.objectDefs hd).coherent ha) hrest
    have husage : c.usage = a.usage := (hrun.objectDefs hd).usage
    have hext : c.Extends b := hrun.allObjectDefs hrest
    refine ⟨List.forall_mem_append.mpr ⟨fun d hmem => (hown d hmem).mono hext, hlater⟩, ?_⟩
    rw [List.map_append, List.flatMap_cons, hownNames, hlaterNames, husage]

theorem renderUnion_known (h : scope.FlatOver m) {a : Arena}
    (ha : a.usage = .classify m (.of m) .graphql) {u : UnionType} (hu : u ∈ m.unions)
    {defs : UnionDefs} (he : renderUnion (scope.within u.ns) u = .ok defs) :
    defs.output.Known m scope.names a ∧ defs.input.Known m scope.names a := by
  obtain ⟨symbols, hsym, he⟩ := bind_eq_ok he
  cases he
  have hsymbol : ∀ s ∈ symbols, m.Declares s ∧
      UsageMap.needsInput (.classify m (.of m) .graphql) s.ns s.name = true := by
    intro s hs
    obtain ⟨o, ho, hr⟩ := exists_of_mem_mapM hsym hs
    have hdeclared := (h.within u.ns).declares hr
    refine ⟨hdeclared, ?_⟩
    unfold Scope.resolve at hr
    rw [(h.within u.ns).table] at hr
    exact UsageMap.needsInput_of_option hu ho hdeclared.qualified hr
  constructor
  · intro n hn
    obtain ⟨s, hs, rfl⟩ := List.mem_map.mp hn
    have hdeclared := (hsymbol s hs).1
    rw [(h.within u.ns).write hdeclared]
    exact .inr (.inl (declaredName_mem_declaredNames hdeclared))
  · apply known_object
    rw [List.forall_mem_map]
    intro s hs
    obtain ⟨hdeclared, hneeds⟩ := hsymbol s hs
    refine ⟨fun t ht => (by cases ht), .inr (.inl ?_)⟩
    simp only [optionField, (h.within u.ns).write hdeclared, TypeRef.base]
    split
    · exact declaredName_mem_declaredNames hdeclared
    -- Input names of options are written without a look at usage, which has all options as inputs.
    · rename_i hkind
      have hi : hasInput a.usage s = true := by
        unfold hasInput
        split
        · rw [ha]
          exact hneeds
        · rfl
        · exact absurd ‹_› hkind
      exact inputName_mem_declaredNames hdeclared hi

theorem renderUnions_names {us : List UnionType} {defs : List UnionDefs}
    (he : (us.mapM fun u => renderUnion (scope.within u.ns) u) = .ok defs) :
    (defs.flatMap fun u => [u.output, u.input]).map Definition.name =
      us.flatMap fun u => [scope.names.declaredName u.ns u.name,
        inputName (scope.names.declaredName u.ns u.name)] := by
  have hall := mapM_eq_ok he
  clear he
  induction hall with
  | nil => rfl
  | cons hu _ ih =>
    obtain ⟨symbols, _, hu⟩ := bind_eq_ok hu
    cases hu
    rw [List.flatMap_cons, List.map_append, ih]
    rfl

/-- The argument and the type of a root field are known. -/
theorem rootFields_known (h : scope.FlatOver m) {a : Arena} {services : List Service}
    {fields : List (RootKind × FieldDef)} (he : rootFields scope a.usage services = .ok fields) :
    ∀ f ∈ fields, (∀ t, f.2.argument = some t → Knows m scope.names a t.base) ∧
      Knows m scope.names a f.2.type.base := by
  intro f hf
  obtain ⟨⟨ns, k⟩, _, hk⟩ := exists_of_mem_mapM he hf
  obtain ⟨field, hfield, hk⟩ := bind_eq_ok hk
  cases hk
  obtain ⟨input, hi, hfield⟩ := bind_eq_ok hfield
  obtain ⟨output, ho, hfield⟩ := bind_eq_ok hfield
  cases hfield
  refine ⟨fun t ht => ?_, namedRef_known (h.within ns) ho⟩
  cases ht
  exact namedRef_known (h.within ns) hi

theorem rootDefs_known {names : NameTable} {a : Arena} {fields : List (RootKind × FieldDef)}
    (h : ∀ f ∈ fields, (∀ t, f.2.argument = some t → Knows m names a t.base) ∧
      Knows m names a f.2.type.base) : ∀ d ∈ rootDefs fields, d.Known m names a := by
  intro d hd
  obtain ⟨k, _, hk⟩ := List.mem_filterMap.mp hd
  split at hk
  · cases hk
  · cases hk
    apply known_object
    rw [List.forall_mem_map]
    exact fun f hf => h f (List.mem_filter.mp hf).1

/-- The definitions of an arena refer to one another and to declarations. -/
theorem arenaDefs_known {names : NameTable} {a : Arena} (h : a.Sound m names) :
    ∀ d ∈ arenaDefs a, d.Known m names a := by
  intro d hd
  simp only [arenaDefs, List.mem_append, List.mem_flatMap] at hd
  rcases hd with (hd | ⟨w, hw, hd⟩) | ⟨e, he, hd⟩
  · split at hd
    · cases List.mem_singleton.mp hd
      exact fun n hn => by cases hn
    · cases hd
  · have hfield (d : Direction) : (wrapperDef w d).Known m names a :=
      known_object (by simpa using .entry (h.wrappers w hw) d)
    rcases List.mem_pair.mp hd with rfl | rfl <;> exact hfield _
  · have hk := h.entries e he
    have hkey : Knows m names a e.key := .inl hk.key
    have hfield (d : Direction) : (entryDef e d).Known m names a := by
      cases d with
      | output => exact known_object (by simpa [TypeRef.base] using ⟨hkey, hk.value⟩)
      | input => exact known_object (by simpa [TypeRef.base] using ⟨hkey, hk.valueInput⟩)
    rcases List.mem_pair.mp hd with rfl | rfl <;> exact hfield _

section

variable {p : Parts}

theorem Parts.Of.usage (h : p.Of m (.of m)) :
    p.arena.usage = .classify m (.of m) .graphql :=
  ((Arena.extends_steps.run _).allObjectDefs h.objects).usage

theorem Parts.Of.sound (h : p.Of m (.of m)) : p.arena.Sound m (.build m .graphql) := by
  have hflat := Scope.flatOver_flat m .graphql
  refine (sound_run hflat).allObjectDefs h.objects ⟨Arena.coherent_start _, ?_, ?_⟩
  · intro e he
    cases he
  · intro w hw
    cases hw

/-- Every definition of a document uses names that are known in the end. -/
theorem Parts.Of.known (h : p.Of m (.of m)) :
    ∀ d ∈ p.definitions m (.flat m (.of m) .graphql), d.Known m (.build m .graphql) p.arena := by
  have hflat := Scope.flatOver_flat m .graphql
  have hroots := h.roots
  rw [← h.usage] at hroots
  simp only [Parts.definitions, List.forall_mem_append, List.forall_mem_map]
  refine ⟨⟨⟨⟨arenaDefs_known h.sound, fun e _ n hn => ?_⟩, ?_⟩, fun d hd => ?_⟩, ?_⟩
  · cases hn
  · exact (allObjectDefs_known hflat (Arena.coherent_start _) h.objects).1
  · obtain ⟨defs, hdefs, hd⟩ := List.mem_flatMap.mp hd
    obtain ⟨u, hu, he⟩ := exists_of_mem_mapM h.unions hdefs
    obtain ⟨hout, hin⟩ := renderUnion_known hflat h.usage hu he
    rcases List.mem_pair.mp hd with rfl | rfl
    · exact hout
    · exact hin
  · exact rootDefs_known (rootFields_known hflat hroots)

/-- In the end, known names are those of builtin scalars and of definitions. -/
theorem Parts.Of.mem_names_of_knows (h : p.Of m (.of m)) {n : String}
    (hn : Knows m (.build m .graphql) p.arena n) :
    n ∈ builtinNames ∨ n ∈ (p.definitions m (.flat m (.of m) .graphql)).map Definition.name := by
  have hflat := Scope.flatOver_flat m .graphql
  have hobjects := (allObjectDefs_known hflat (Arena.coherent_start _) h.objects).2
  have hunions := renderUnions_names h.unions
  simp only [Parts.definitions, List.map_append, List.mem_append, hobjects, hunions]
  rcases hn with hn | hn | hn
  · exact .inl hn
  -- The parts of the document stand in the order in which declared names are listed.
  · rw [h.usage] at hn
    simp only [declaredNames, List.mem_append] at hn
    rcases hn with (hn | hn) | hn
    · refine .inr (.inl (.inl (.inl (.inr ?_))))
      rw [List.map_map]
      exact hn
    · exact .inr (.inl (.inl (.inr hn)))
    · exact .inr (.inl (.inr hn))
  · exact .inr (.inl (.inl (.inl (.inl hn))))

end

/-- A document is closed under names: whatever its definitions use is a builtin scalar or the name of
a definition. Each wrapper of a nested map holds an entry type that is written too, in both
directions, and the placeholder is there if anything uses it. -/
theorem render_closed (m : Model) (r : Rendered) (h : render m (.of m) = .ok r) :
    (∀ d ∈ r.document.definitions, ∀ n ∈ d.usedNames,
      n ∈ builtinNames ∨ n ∈ r.document.definitions.map Definition.name) ∧
    (∃ p : Parts, p.Of m (.of m) ∧
      r.document.definitions = p.definitions m (.flat m (.of m) .graphql) ∧
      ∀ w ∈ p.arena.wrappers, w.entry ≠ "" ∧ ∃ e ∈ p.arena.entries, e.name = w.entry ∧
        ∀ d, wrapperDef w d ∈ r.document.definitions ∧ entryDef e d ∈ r.document.definitions) ∧
    ∀ d ∈ r.document.definitions, placeholderName ∈ d.usedNames →
      placeholderName ∈ r.document.definitions.map Definition.name := by
  obtain ⟨_, p, hp, _, hdefs⟩ := render_eq_ok h
  have hclosed : ∀ d ∈ r.document.definitions, ∀ n ∈ d.usedNames,
      n ∈ builtinNames ∨ n ∈ r.document.definitions.map Definition.name := by
    rw [hdefs]
    exact fun d hd n hn => hp.mem_names_of_knows (hp.known d hd n hn)
  refine ⟨hclosed, ⟨p, hp, hdefs, fun w hw => ⟨hp.sound.entry_ne_empty hw, ?_⟩⟩, ?_⟩
  · obtain ⟨e, he, hname⟩ := List.mem_map.mp (hp.sound.wrappers w hw)
    have harena : arenaDefs p.arena ⊆ r.document.definitions := by
      intro d hd
      rw [hdefs]
      simp [Parts.definitions, hd]
    refine ⟨e, he, hname, fun d => ⟨harena ?_, harena ?_⟩⟩
    · simp only [arenaDefs, List.mem_append, List.mem_flatMap]
      exact .inl (.inr ⟨w, hw, by cases d <;> simp⟩)
    · simp only [arenaDefs, List.mem_append, List.mem_flatMap]
      exact .inr ⟨e, he, by cases d <;> simp⟩
  · intro d hd hn
    rcases hclosed d hd placeholderName hn with hb | hmem
    · simp [builtinNames, placeholderName] at hb
    · exact hmem

def ledgers : Model :=
  -- A nested map, a list in a list that only the placeholder stands for, and a union.
  { ns := "bank"
    enums := [{ name := "Kind", ns := "bank", members := [{ name := "CASH" }] }]
    types :=
      [{ name := "Ledger", ns := "bank"
         fields :=
          [{ name := "kind", type := .named "Kind" false },
           { name := "books"
             type := .map "string" (.map "int32" (.named "Entry" false) false) false },
           { name := "grid"
             type := .map "string" (.array (.array (.named "Entry" false) false) false) false }] },
       { name := "Entry", ns := "bank"
         fields := [{ name := "note", type := .named "string" false }] }]
    unions := [{ name := "Posting", ns := "bank", options := ["Entry", "Kind"] }]
    services := [{ name := "Bank", ns := "bank"
                   methods := [{ name := "GetLedger", input := "Ledger", output := "Posting" }] }] }

theorem render_ledgers :
    ∃ r, render ledgers (.of ledgers) = .ok r ∧
      r.document.definitions.map Definition.name =
        ["UnknownValue", "MapWrapper0", "MapWrapper0Input", "IntEntryEntry", "IntEntryEntryInput",
          "StringMapWrapper0Entry", "StringMapWrapper0EntryInput", "StringUnknownValueListEntry",
          "StringUnknownValueListEntryInput", "Kind", "Ledger", "LedgerInput", "Entry", "EntryInput",
          "Posting", "PostingInput", "Query"] ∧
      ∀ d ∈ r.document.definitions, ∀ n ∈ d.usedNames,
        n ∈ builtinNames ∨ n ∈ r.document.definitions.map Definition.name := by
  have hnames : (render ledgers (.of ledgers)).toOption.map
      (fun r => r.document.definitions.map Definition.name) =
      some ["UnknownValue", "MapWrapper0", "MapWrapper0Input", "IntEntryEntry", "IntEntryEntryInput",
        "StringMapWrapper0Entry", "StringMapWrapper0EntryInput", "StringUnknownValueListEntry",
        "StringUnknownValueListEntryInput", "Kind", "Ledger", "LedgerInput", "Entry", "EntryInput",
        "Posting", "PostingInput", "Query"] := by decide +kernel
  cases h : render ledgers (.of ledgers) with
  | error err =>
    rw [h] at hnames
    cases hnames
  | ok r =>
    rw [h] at hnames
    exact ⟨r, rfl, Option.some.inj hnames, (render_closed ledgers r h).1⟩

end Graphql

end Triglot
