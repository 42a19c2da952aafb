import Triglot.Proofs.Graphql.Names
import Triglot.Proofs.Graphql.Trace
import Triglot.Proofs.TypeGraph

/-! Input positions of a GraphQL document: the fields of inputs and the arguments of root fields. They
name input types exactly if the object types with input forms are closed under what the written
inputs refer to, which can only fail at options of unions and at values of map entries. -/
namespace Triglot

/-- A declaration that is written as an object type is, is that object type. -/
theorem Model.Declares.eq_type {m : Model} {names : NameTable} (hn : (m.writtenNames names).Nodup)
    {s : Symbol} (hs : m.Declares s) {t : ObjectType} (ht : t ∈ m.types)
    (he : names.declaredName s.ns s.name = names.declaredName t.ns t.name) :
    s.kind = .type ∧ s.ns = t.ns ∧ s.name = t.name := by
  obtain ⟨hleft, _, hunions⟩ := List.nodup_append.mp hn
  obtain ⟨_, htypes, henums⟩ := List.nodup_append.mp hleft
  have hmem := List.mem_map_of_mem (f := fun t : ObjectType => names.declaredName t.ns t.name) ht
  have hs := hs.declared
  split at hs <;> rename_i hkind <;> obtain ⟨x, hx, hns, hname⟩ := hs <;> rw [← hns, ← hname] at he
  · exact absurd he (henums _ (List.mem_map_of_mem hx) _ hmem)
  · have hxt : x = t := List.inj_on_of_nodup_map htypes hx ht he
    rw [← hns, ← hname, hxt]
    exact ⟨hkind, rfl, rfl⟩
  · exact absurd he.symm (hunions _ (List.mem_append_right _ hmem) _ (List.mem_map_of_mem hx))

namespace Graphql

def Definition.isInputType : Definition → Bool
  | .scalar _ _ => true
  | .enum _ _ _ => true
  | .object o => o.direction = .input
  | .union _ _ _ => false

def Definition.inputUses : Definition → List String
  | .object o =>
    (o.fields.flatMap fun f => (f.argument.map TypeRef.base).toList) ++
      if o.direction = .input then o.fields.map fun f => f.type.base else []
  | _ => []

def Document.Accepts (doc : Document) (n : String) : Prop :=
  (n ∈ builtinNames ∨ ∃ d ∈ doc.definitions, d.name = n ∧ d.isInputType = true) ∧
    ∀ d ∈ doc.definitions, d.name = n → d.isInputType = true

def Document.InputsOnly (doc : Document) : Prop :=
  ∀ d ∈ doc.definitions, ∀ n ∈ d.inputUses, doc.Accepts n

instance (doc : Document) (n : String) : Decidable (doc.Accepts n) :=
  inferInstanceAs (Decidable (_ ∧ _))

instance (doc : Document) : Decidable doc.InputsOnly :=
  inferInstanceAs (Decidable (∀ d ∈ doc.definitions, ∀ n ∈ d.inputUses, doc.Accepts n))

/-- An object holds in input positions what its arguments hold and, for input, its fields. -/
theorem forall_inputUses {Q : String → Prop} {o : ObjectDef}
    (h : ∀ f ∈ o.fields, (∀ t, f.argument = some t → Q t.base) ∧
      (o.direction = .input → Q f.type.base)) : ∀ n ∈ (Definition.object o).inputUses, Q n := by
  refine List.forall_mem_append.mpr ⟨fun n hn => ?_, fun n hn => ?_⟩
  · obtain ⟨f, hf, hn⟩ := List.mem_flatMap.mp hn
    obtain ⟨t, ht, rfl⟩ := Option.map_eq_some_iff.mp (Option.mem_toList.mp hn)
    exact (h f hf).1 t ht
  · split at hn
    · rename_i hd
      obtain ⟨f, hf, rfl⟩ := List.mem_map.mp hn
      exact (h f hf).2 hd
    · cases hn

theorem mem_inputUses {o : ObjectDef} (hd : o.direction = .input) {f : FieldDef}
    (hf : f ∈ o.fields) : f.type.base ∈ (Definition.object o).inputUses := by
  refine List.mem_append_right _ ?_
  rw [if_pos hd]
  exact List.mem_map_of_mem hf

inductive TakesInput (m : Model) (names : NameTable) (a : Arena) (n : String) : Prop where
  -- The names of input types while a document is made: those that stand for the same in both
  -- directions, and input forms.
  | builtin (h : n ∈ builtinNames)
  | placeholder (used : a.unknownUsed = true) (h : n = placeholderName)
  | enum (e : EnumType) (he : e ∈ m.enums) (h : n = names.declaredName e.ns e.name)
  | form (x : String) (hx : x ∈ inputForms m names a.usage) (h : n = inputName x)
  | map (x : String) (hx : x ∈ a.mapNames) (h : n = inputName x)

/-- A declaration is written for input as an input type, unless it is an object type without an input
form. -/
theorem takesInput_directedName {scope : Scope} {m : Model} (h : scope.FlatOver m) {a : Arena}
    {s : Symbol} (hd : m.Declares s)
    (hneeds : s.kind = .type → a.usage.needsInput s.ns s.name = true) :
    TakesInput m scope.names a (directedName scope a.usage .input s) := by
  simp only [directedName, h.write hd, hasInput]
  have hd := hd.declared
  split at hd <;> rename_i hkind <;> obtain ⟨x, hx, hns, hname⟩ := hd <;> simp only [hkind]
  · rw [← hns, ← hname]
    exact .enum x hx rfl
  · have hform := hneeds hkind
    rw [← hns, ← hname] at hform ⊢
    rw [hform]
    refine .form _ (List.mem_append_left _ ?_) rfl
    exact List.mem_map_of_mem (List.mem_filter.mpr ⟨hx, hform⟩)
  · rw [← hns, ← hname]
    refine .form _ (List.mem_append_right _ ?_) rfl
    exact List.mem_map_of_mem hx

/-- The object types with input forms are closed under what inputs refer to: in fields of the options
of unions, maps apart, and in the values of map entries. -/
structure Parts.InputClosed (m : Model) (p : Parts) : Prop where
  options : ∀ t ∈ m.types, qualify t.ns t.name ∈ (UsageMap.classify m (.of m) .graphql).options →
    ∀ f ∈ t.includedFields .graphql, f.type.outerMap? = none → isScalar f.type.leafName = false →
      ∀ s, (SymbolTable.of m).resolve f.type.leafName t.ns = .ok s → s.kind = .type →
        (UsageMap.classify m (.of m) .graphql).needsInput s.ns s.name = true
  entries : ∀ e ∈ p.arena.entries, ∀ t ∈ m.types,
    e.value.base = (NameTable.build m .graphql).declaredName t.ns t.name →
      (UsageMap.classify m (.of m) .graphql).needsInput t.ns t.name = true

section

variable {m : Model} {p : Parts}

theorem Parts.mem_definitions {scope : Scope} {d : Definition} :
    d ∈ p.definitions m scope ↔ d ∈ arenaDefs p.arena ∨ (∃ e ∈ m.enums, d = enumDef scope e) ∨
      d ∈ p.objects ∨ (∃ u ∈ p.unions, d = u.output ∨ d = u.input) ∨ d ∈ rootDefs p.roots := by
  simp only [definitions, List.mem_append, List.mem_map, List.mem_flatMap, List.mem_pair, or_assoc,
    eq_comm]

theorem mem_arenaDefs {a : Arena} {d : Definition} :
    d ∈ arenaDefs a ↔ (a.unknownUsed = true ∧ d = .scalar
        "Placeholder for map values without a GraphQL representation" placeholderName) ∨
      (∃ w ∈ a.wrappers, d = wrapperDef w .output ∨ d = wrapperDef w .input) ∨
      ∃ e ∈ a.entries, d = entryDef e .output ∨ d = entryDef e .input := by
  simp only [arenaDefs, List.mem_append, List.mem_flatMap, List.mem_pair, or_assoc]
  split <;> simp_all

theorem Parts.Of.objectsMade (h : p.Of m (.of m)) :
    ObjectsMade (.flat m (.of m) .graphql) Arena.Extends
      { usage := .classify m (.of m) .graphql } p.arena m.types p.objects :=
  allObjectDefs_made ((Arena.extends_steps.run _).runOver fun _ _ => True)
    (fun _ _ _ _ => trivial) h.objects

theorem Parts.Of.exists_output (h : p.Of m (.of m)) {t : ObjectType} (ht : t ∈ m.types) :
    ∃ d ∈ p.definitions m (.flat m (.of m) .graphql),
      d.name = (NameTable.build m .graphql).declaredName t.ns t.name ∧ d.isInputType = false := by
  obtain ⟨o, ho, hname, hdir, _⟩ := h.objectsMade.complete t ht .output (.inl rfl)
  refine ⟨.object o, Parts.mem_definitions.mpr (.inr (.inr (.inl ho))), hname, ?_⟩
  simp [Definition.isInputType, hdir]

/-- Every name that takes input is a builtin one or has an input type as its definition. -/
theorem Parts.Of.exists_of_takesInput (h : p.Of m (.of m)) {n : String}
    (hn : TakesInput m (.build m .graphql) p.arena n) :
    n ∈ builtinNames ∨ ∃ d ∈ p.definitions m (.flat m (.of m) .graphql),
      d.name = n ∧ d.isInputType = true := by
  simp only [Parts.mem_definitions, mem_arenaDefs]
  cases hn with
  | builtin hb => exact .inl hb
  | placeholder used hn => exact .inr ⟨_, .inl (.inl ⟨used, rfl⟩), hn.symm, rfl⟩
  | enum e he hn => exact .inr ⟨_, .inr (.inl ⟨e, he, rfl⟩), hn.symm, rfl⟩
  | form x hx hn =>
    rw [h.usage] at hx
    rcases List.mem_append.mp hx with hx | hx
    · obtain ⟨t, ht, rfl⟩ := List.mem_map.mp hx
      obtain ⟨ht, hneeds⟩ := List.mem_filter.mp ht
      obtain ⟨o, ho, hname, hdir, _⟩ := h.objectsMade.complete t ht .input (.inr hneeds)
      exact .inr ⟨.object o, .inr (.inr (.inl ho)), hname.trans hn.symm, decide_eq_true hdir⟩
    · obtain ⟨u, hu, rfl⟩ := List.mem_map.mp hx
      obtain ⟨defs, hdefs, he⟩ := exists_of_mem_forall₂ (mapM_eq_ok h.unions) hu
      obtain ⟨symbols, _, he⟩ := bind_eq_ok he
      cases he
      exact .inr ⟨_, .inr (.inr (.inr (.inl ⟨_, hdefs, .inr rfl⟩))), hn.symm, rfl⟩
  | map x hx hn =>
    rcases List.mem_append.mp hx with hx | hx
    · obtain ⟨w, hw, rfl⟩ := List.mem_map.mp hx
      exact .inr ⟨_, .inl (.inr (.inl ⟨w, hw, .inr rfl⟩)), hn.symm, rfl⟩
    · obtain ⟨e, he, rfl⟩ := List.mem_map.mp hx
      exact .inr ⟨_, .inl (.inr (.inr ⟨e, he, .inr rfl⟩)), hn.symm, rfl⟩

/-- A reference in an input position names an input type if the object type that it may go to has an
input form. -/
theorem namedRef_takesInput {scope : Scope} (h : scope.FlatOver m) {a : Arena} {name n : String}
    (he : namedRef scope a.usage .input name = .ok (.named n))
    (hneeds : isScalar name = false → ∀ s, (SymbolTable.of m).resolve name scope.ns = .ok s →
      s.kind = .type → a.usage.needsInput s.ns s.name = true) :
    TakesInput m scope.names a n := by
  unfold namedRef at he
  split at he
  · cases he
    exact .builtin (scalarText_mem_builtinNames _)
  · rename_i hscalar
    obtain ⟨s, hs, he⟩ := map_eq_ok he
    cases he
    refine takesInput_directedName h (h.declares hs) (hneeds (by simp [isScalar, hscalar]) s ?_)
    rwa [Scope.resolve, h.table] at hs

theorem ObjectMade.takesInput (h : p.Of m (.of m)) (hc : p.InputClosed m) {t : ObjectType}
    (ht : t ∈ m.types)
    (hneeds : (UsageMap.classify m (.of m) .graphql).needsInput t.ns t.name = true) {a : Arena}
    (ha : a.Coherent) {o : ObjectDef}
    (ho : ObjectMade (.flat m (.of m) .graphql) Arena.Extends a p.arena t .input o) :
    ∀ f ∈ o.fields, TakesInput m (.build m .graphql) p.arena f.type.base := by
  have hflat := (Scope.flatOver_flat m .graphql).within t.ns
  intro fd hfd
  obtain ⟨f, hf, _, _, c, c', type, hac, he, hext, hbase⟩ := exists_of_mem_forall₂ ho.2.2.flip hfd
  rw [hbase]
  cases hmap : f.type.outerMap? with
  | some q =>
    obtain ⟨htype, hc'⟩ := typeRef_of_map hmap he
    rw [hc'] at hext
    refine .map _ (List.mem_append_right _ ?_) htype
    exact List.map_subset _ hext.entries (synthesizeMap_mem_entries _ _ _ (hac.coherent ha))
  | none =>
    have hstep := ((Arena.extends_steps.run _).runOver fun _ _ => True).typeRef trivial he
    have hnamed := typeRef_of_name hmap he
    rw [← (Arena.extends_steps.trans hstep hext).usage] at hnamed
    refine namedRef_takesInput hflat hnamed fun hscalar s hs hkind => ?_
    rw [h.usage]
    -- Payloads are closed over what their fields mention; options are not.
    rcases (UsageMap.needsInput_iff _ _ _).mp hneeds with hoption | hin
    · exact hc.options t ht hoption f hf hmap hscalar s hs hkind
    · refine (UsageMap.needsInput_iff _ _ _).mpr (.inr ?_)
      rw [← (SymbolTable.declares_of_resolve hs).qualified]
      exact UsageMap.mem_input_of_field ht hf hscalar hs (by simp [hkind]) hin

/-- Where the input forms are closed, the value of an entry takes input. -/
theorem EntryType.takesInput (h : p.Of m (.of m)) (hc : p.InputClosed m) {e : EntryType}
    (he : e ∈ p.arena.entries) :
    TakesInput m (.build m .graphql) p.arena e.valueInput.base := by
  obtain ⟨ns, s, hs, hvalue, hinput⟩ := h.stands he
  have hflat := (Scope.flatOver_flat m .graphql).within ns
  rw [hinput]
  cases hs with
  | builtin hb same => exact .builtin (same ▸ hb)
  | placeholder used _ input => exact .placeholder used input
  | declared symbol hd output input =>
    rw [input]
    refine takesInput_directedName hflat hd fun hkind => ?_
    rw [directedName, hflat.write hd, ← hvalue] at output
    obtain ⟨t, ht, hns, hname⟩ := hd.exists_type hkind
    rw [← hns, ← hname] at output ⊢
    rw [h.usage]
    exact hc.entries e he t ht output
  | wrapper hw input => exact .map _ (List.mem_append_left _ hw) input

theorem renderUnion_takesInput (h : p.Of m (.of m)) {u : UnionType} (hu : u ∈ m.unions)
    {defs : UnionDefs}
    (he : renderUnion ((Scope.flat m (.of m) .graphql).within u.ns) u = .ok defs) :
    ∀ n ∈ defs.input.inputUses, TakesInput m (.build m .graphql) p.arena n := by
  have hflat := (Scope.flatOver_flat m .graphql).within u.ns
  obtain ⟨symbols, hsymbols, he⟩ := bind_eq_ok he
  cases he
  refine forall_inputUses (List.forall_mem_map.mpr fun s hs => ⟨fun t ht => ?_, fun _ => ?_⟩)
  · cases ht
  · obtain ⟨o, ho, hr⟩ := exists_of_mem_mapM hsymbols hs
    have hneeds : p.arena.usage.needsInput s.ns s.name = true := by
      rw [h.usage]
      exact UsageMap.needsInput_of_option hu ho (hflat.declares hr).qualified hr
    have htakes := takesInput_directedName hflat (hflat.declares hr) fun _ => hneeds
    have hsame : (optionField ((Scope.flat m (.of m) .graphql).within u.ns) s).type.base =
        directedName ((Scope.flat m (.of m) .graphql).within u.ns) p.arena.usage .input s := by
      cases hkind : s.kind <;>
        simp [optionField, TypeRef.base, directedName, hasInput, hkind, hneeds]
    exact hsame ▸ htakes

/-- Payloads have input forms, so the arguments of root fields take input. -/
theorem rootFields_takesInput (h : p.Of m (.of m)) :
    ∀ f ∈ p.roots, ∀ t, f.2.argument = some t →
      TakesInput m (.build m .graphql) p.arena t.base := by
  intro f hf t ht
  obtain ⟨⟨ns, k⟩, hk, hroot⟩ := exists_of_mem_mapM h.roots hf
  obtain ⟨service, hservice, hk⟩ := List.mem_flatMap.mp hk
  obtain ⟨k, hk, hpair⟩ := List.mem_map.mp hk
  cases hpair
  obtain ⟨field, hfield, hroot⟩ := bind_eq_ok hroot
  cases hroot
  obtain ⟨input, hin, hfield⟩ := bind_eq_ok hfield
  obtain ⟨output, _, hfield⟩ := bind_eq_ok hfield
  cases hfield
  cases ht
  have hflat := (Scope.flatOver_flat m .graphql).within service.ns
  rw [← h.usage] at hin
  rw [namedRef_eq_named hin] at hin
  refine namedRef_takesInput hflat hin fun _ s hs _ => ?_
  rw [h.usage]
  refine (UsageMap.needsInput_iff _ _ _).mpr (.inr ?_)
  rw [← (SymbolTable.declares_of_resolve hs).qualified]
  exact UsageMap.mem_input_of_payload hservice hk hs

/-- Where the input forms are closed, all input positions of a document take input. -/
theorem Parts.Of.takesInput (h : p.Of m (.of m)) (hc : p.InputClosed m) :
    ∀ d ∈ p.definitions m (.flat m (.of m) .graphql), ∀ n ∈ d.inputUses,
      TakesInput m (.build m .graphql) p.arena n := by
  intro d hd
  rcases Parts.mem_definitions.mp hd with hd | ⟨e, _, rfl⟩ | hd | ⟨defs, hdefs, hd⟩ | hd
  · rcases mem_arenaDefs.mp hd with ⟨_, rfl⟩ | ⟨w, hw, rfl | rfl⟩ | ⟨e, he, rfl | rfl⟩
    · exact fun n hn => by cases hn
    · exact fun n hn => by cases hn
    · refine forall_inputUses ?_
      have hentry := h.sound.wrappers w hw
      simpa [TypeRef.base, Direction.name] using
        TakesInput.map _ (List.mem_append_right _ hentry) rfl
    · exact fun n hn => by cases hn
    · refine forall_inputUses ?_
      have hkey := (h.sound.entries e he).key
      simpa [TypeRef.base] using ⟨TakesInput.builtin hkey, EntryType.takesInput h hc he⟩
  · exact fun n hn => by cases hn
  · obtain ⟨t, ht, dir, hdir, o, rfl, ho⟩ := h.objectsMade.sound d hd
    refine forall_inputUses fun f hf => ⟨fun type htype => ?_, fun hin => ?_⟩
    · obtain ⟨_, _, _, hnone, _⟩ := exists_of_mem_forall₂ ho.2.2.flip hf
      rw [hnone] at htype
      cases htype
    · cases ho.2.1.symm.trans hin
      have hneeds := hdir.resolve_left (by simp)
      exact ho.takesInput h hc ht hneeds (Arena.coherent_start _) f hf
  · obtain ⟨u, hu, he⟩ := exists_of_mem_mapM h.unions hdefs
    rcases hd with rfl | rfl
    · obtain ⟨_, _, he⟩ := bind_eq_ok he
      cases he
      exact fun n hn => by cases hn
    · exact renderUnion_takesInput h hu he
  · obtain ⟨k, _, hk⟩ := List.mem_filterMap.mp hd
    split at hk
    · cases hk
    · cases hk
      refine forall_inputUses (List.forall_mem_map.mpr fun f hf => ⟨?_, fun hin => by cases hin⟩)
      exact rootFields_takesInput h f (List.mem_filter.mp hf).1

theorem namedRef_of_resolve {scope : Scope} {usage : UsageMap} {d : Direction} {name : String}
    {s : Symbol} (hscalar : isScalar name = false) (hs : scope.resolve name = .ok s) :
    namedRef scope usage d name = .ok (.named (directedName scope usage d s)) := by
  have hnone : Scalar.ofName? name = none := by simpa [isScalar] using hscalar
  simp only [namedRef, hnone, hs]
  rfl

/-- An option of a union has an input form, so what its fields name needs one too. -/
theorem Parts.Of.options_closed (h : p.Of m (.of m))
    (hnot : ∀ d ∈ p.definitions m (.flat m (.of m) .graphql), ∀ t ∈ m.types,
      (NameTable.build m .graphql).declaredName t.ns t.name ∉ d.inputUses)
    {t : ObjectType} (ht : t ∈ m.types)
    (hoption : qualify t.ns t.name ∈ (UsageMap.classify m (.of m) .graphql).options) {f : Field}
    (hf : f ∈ t.includedFields .graphql) (hmap : f.type.outerMap? = none)
    (hscalar : isScalar f.type.leafName = false) {s : Symbol}
    (hs : (SymbolTable.of m).resolve f.type.leafName t.ns = .ok s) (hkind : s.kind = .type) :
    (UsageMap.classify m (.of m) .graphql).needsInput s.ns s.name = true := by
  by_contra hneeds
  have htneeds := (UsageMap.needsInput_iff _ _ _).mpr (.inl hoption)
  obtain ⟨o, ho, hmade⟩ := h.objectsMade.complete t ht .input (.inr htneeds)
  have hflat := (Scope.flatOver_flat m .graphql).within t.ns
  obtain ⟨fd, hfd, _, _, c, _, type, hext, he, _, hbase⟩ := exists_of_mem_forall₂ hmade.2.2 hf
  -- Without an input form, the field is written in the input as the object type itself.
  have hsame := (typeRef_of_name hmap he).symm.trans (namedRef_of_resolve hscalar hs)
  have hd : m.Declares s := hflat.declares hs
  simp only [hext.usage, directedName, hasInput, hkind, hneeds, hflat.write hd] at hsame
  obtain ⟨u, hu, hns, hname⟩ := hd.exists_type hkind
  refine hnot _ (Parts.mem_definitions.mpr (.inr (.inr (.inl ho)))) u hu ?_
  have hused := mem_inputUses hmade.2.1 hfd
  rw [hbase, TypeRef.named.inj (Except.ok.inj hsame)] at hused
  rw [hns, hname]
  exact hused

/-- Entries are always written as inputs, so an object type that is the value of one needs an input
form. -/
theorem Parts.Of.entries_closed (h : p.Of m (.of m))
    (hnames : ((p.definitions m (.flat m (.of m) .graphql)).map Definition.name).Nodup)
    (hnot : ∀ d ∈ p.definitions m (.flat m (.of m) .graphql), ∀ t ∈ m.types,
      (NameTable.build m .graphql).declaredName t.ns t.name ∉ d.inputUses)
    {e : EntryType} (he : e ∈ p.arena.entries) {t : ObjectType} (ht : t ∈ m.types)
    (hvalue : e.value.base = (NameTable.build m .graphql).declaredName t.ns t.name) :
    (UsageMap.classify m (.of m) .graphql).needsInput t.ns t.name = true := by
  rw [h.map_name_perm.nodup_iff, List.nodup_append] at hnames
  obtain ⟨hwritten, _, hdisjoint⟩ := hnames
  by_contra hneeds
  have hmem : entryDef e .input ∈ p.definitions m (.flat m (.of m) .graphql) :=
    Parts.mem_definitions.mpr (.inl (mem_arenaDefs.mpr (.inr (.inr ⟨e, he, .inr rfl⟩))))
  have hused : e.valueInput.base ∈ (entryDef e .input).inputUses := by
    simp [entryDef, Definition.inputUses, TypeRef.base]
  have hwrong : e.valueInput.base ≠ e.value.base :=
    fun hsame => hnot _ hmem t ht (hvalue ▸ hsame ▸ hused)
  -- So the two values of the entry differ, which leaves declarations with an input form, and
  -- wrappers, whose names no declaration has.
  obtain ⟨ns, s, hs, hout, hin⟩ := h.stands he
  rw [hout, hin] at hwrong
  have hflat := (Scope.flatOver_flat m .graphql).within ns
  cases hs with
  | builtin _ same => exact hwrong same
  | placeholder _ output input => exact hwrong (input.trans output.symm)
  | declared symbol hd output input =>
    rw [hout, output, directedName, hflat.write hd] at hvalue
    obtain ⟨hkind, hns, hname⟩ := hd.eq_type hwritten ht hvalue
    refine hwrong (input.trans (Eq.trans ?_ output.symm))
    simp [directedName, hasInput, hkind, hns, hname, h.usage, hneeds]
  | wrapper hw _ =>
    have hmade : s.output.base ∈ p.synthesizedNames m :=
      List.mem_append_left _ (List.mem_append_left _
        (Arena.mem_names.mpr (.inr (.inl ⟨_, hw, .output, rfl⟩))))
    have hdeclared : s.output.base ∈ m.writtenNames (.build m .graphql) := by
      rw [← hout, hvalue]
      exact List.mem_append_left _ (List.mem_append_right _ (List.mem_map_of_mem ht))
    exact hdisjoint _ hdeclared _ hmade rfl

/-- Where names are distinct and input positions only use input types, the input forms are closed. -/
theorem Parts.Of.inputClosed (h : p.Of m (.of m))
    (hnames : ((p.definitions m (.flat m (.of m) .graphql)).map Definition.name).Nodup)
    (hinputs : ∀ d ∈ p.definitions m (.flat m (.of m) .graphql), ∀ n ∈ d.inputUses,
      ∀ e ∈ p.definitions m (.flat m (.of m) .graphql), e.name = n → e.isInputType = true) :
    p.InputClosed m := by
  have hnot : ∀ d ∈ p.definitions m (.flat m (.of m) .graphql), ∀ t ∈ m.types,
      (NameTable.build m .graphql).declaredName t.ns t.name ∉ d.inputUses := by
    intro d hd t ht hn
    obtain ⟨e, he, hname, hout⟩ := h.exists_output ht
    rw [hinputs d hd _ hn e he hname] at hout
    cases hout
  exact ⟨fun t ht hoption f hf hmap hscalar s hs hkind =>
      h.options_closed hnot ht hoption hf hmap hscalar hs hkind,
    fun e he t ht hvalue => h.entries_closed hnames hnot he ht hvalue⟩

end

/-- Input positions only use input types exactly if the object types with input forms are closed under
what inputs refer to, where names are distinct. -/
theorem render_inputs_iff (m : Model) (r : Rendered) (h : render m (.of m) = .ok r) :
    ∃ p : Parts, p.Of m (.of m) ∧
      r.document.definitions = p.definitions m (.flat m (.of m) .graphql) ∧
      (p.InputClosed m → ∀ d ∈ r.document.definitions, ∀ n ∈ d.inputUses,
        n ∈ builtinNames ∨ ∃ e ∈ r.document.definitions, e.name = n ∧ e.isInputType = true) ∧
      ((builtinNames ++ r.document.definitions.map Definition.name).Nodup →
        (r.document.InputsOnly ↔ p.InputClosed m)) := by
  obtain ⟨_, p, hp, _, hdefs⟩ := render_eq_ok h
  refine ⟨p, hp, hdefs, ?_⟩
  have hdefined : p.InputClosed m → ∀ d ∈ r.document.definitions, ∀ n ∈ d.inputUses,
      n ∈ builtinNames ∨ ∃ e ∈ r.document.definitions, e.name = n ∧ e.isInputType = true := by
    rw [hdefs]
    exact fun hc d hd n hn => hp.exists_of_takesInput (hp.takesInput hc d hd n hn)
  refine ⟨hdefined, fun hnames => ⟨fun hinputs => ?_, fun hc d hd n hn => ?_⟩⟩
  · obtain ⟨_, hnodup, _⟩ := List.nodup_append.mp hnames
    rw [hdefs] at hnodup
    refine hp.inputClosed hnodup ?_
    rw [← hdefs]
    exact fun d hd n hn => (hinputs d hd n hn).2
  · obtain ⟨_, hnodup, hdisjoint⟩ := List.nodup_append.mp hnames
    have hdef := hdefined hc d hd n hn
    refine ⟨hdef, fun e he hname => ?_⟩
    rcases hdef with hb | ⟨x, hx, hxname, hinput⟩
    · exact absurd hname.symm (hdisjoint n hb _ (List.mem_map_of_mem he))
    · rwa [List.inj_on_of_nodup_map hnodup he hx (hname.trans hxname.symm)]

theorem render_inputs_ledgers :
    ∃ r, render ledgers (.of ledgers) = .ok r ∧
      (builtinNames ++ r.document.definitions.map Definition.name).Nodup ∧
      r.document.InputsOnly ∧
      ∃ p : Parts, p.Of ledgers (.of ledgers) ∧ p.InputClosed ledgers := by
  have hinputs : (render ledgers (.of ledgers)).toOption.map
      (fun r => decide ((builtinNames ++ r.document.definitions.map Definition.name).Nodup ∧
        r.document.InputsOnly)) = some true := by decide +kernel
  obtain ⟨r, hr, hboth⟩ := exists_ok_of_toOption hinputs
  obtain ⟨hnames, honly⟩ := of_decide_eq_true hboth
  obtain ⟨p, hp, _, _, hiff⟩ := render_inputs_iff ledgers r hr
  exact ⟨r, hr, hnames, honly, p, hp, (hiff hnames).mp honly⟩

def wallets : Model :=
  -- An object type that only an option of a union and a map refer to.
  { ns := "pay"
    types :=
      [{ name := "Person", ns := "pay"
         fields := [{ name := "name", type := .named "string" false }] },
       { name := "Card", ns := "pay"
         fields := [{ name := "owner", type := .named "Person" false }] },
       { name := "Directory", ns := "pay"
         fields := [{ name := "people", type := .map "string" (.named "Person" false) false }] }]
    unions := [{ name := "Payment", ns := "pay", options := ["Card"] }] }

/-- A model without findings, with two inputs that hold an output type. -/
theorem render_inputs_wallets :
    (validate wallets {}).entries = [] ∧
      ∃ r, render wallets (.of wallets) = .ok r ∧
        (builtinNames ++ r.document.definitions.map Definition.name).Nodup ∧
        ((r.document.definitions.filter fun d => "Person" ∈ d.inputUses).map Definition.name) =
          ["StringPersonEntryInput", "CardInput"] ∧
        ¬r.document.Accepts "Person" ∧ ¬r.document.InputsOnly := by
  have hinputs : (render wallets (.of wallets)).toOption.map
      (fun r => decide ((builtinNames ++ r.document.definitions.map Definition.name).Nodup ∧
        ((r.document.definitions.filter fun d => "Person" ∈ d.inputUses).map Definition.name) =
          ["StringPersonEntryInput", "CardInput"] ∧
        ¬r.document.Accepts "Person" ∧ ¬r.document.InputsOnly)) = some true := by decide +kernel
  obtain ⟨r, hr, hall⟩ := exists_ok_of_toOption hinputs
  exact ⟨by decide +kernel, r, hr, of_decide_eq_true hall⟩

end Graphql

end Triglot
