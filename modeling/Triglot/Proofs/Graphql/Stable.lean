import Triglot.Proofs.Graphql.Input
import Triglot.Proofs.Graphql.Interning

/-! Maps that are written more than once. An arena recalls what it was asked before, so a map that was
written once is written the same way ever after, whatever is written between, and nothing is added for
it. This is why the output and the input form of a type can be written one after the other. -/
namespace Triglot.Graphql

namespace Arena

/-- Wrappers are allocated once for each signature: no signature is listed twice, and the listed
numbers are those of the wrappers, the latest first. -/
structure AllocatedOnce (a : Arena) : Prop where
  signatures : (a.signatures.map Prod.fst).Nodup
  numbers : a.signatures.map Prod.snd = (List.range a.wrappers.length).reverse

theorem allocatedOnce_start (usage : UsageMap) : AllocatedOnce { usage } :=
  ⟨List.nodup_nil, rfl⟩

theorem AllocatedOnce.of_eq {a b : Arena} (h : a.AllocatedOnce) (hs : b.signatures = a.signatures)
    (hw : b.wrappers.length = a.wrappers.length) : b.AllocatedOnce := by
  constructor
  · rw [hs]
    exact h.signatures
  · rw [hs, hw]
    exact h.numbers

/-- Numbers that are those of the wrappers lead to a wrapper each. -/
theorem AllocatedOnce.indexed {a : Arena} (h : a.AllocatedOnce) : a.Indexed := by
  intro p hp
  have hnumber : p.2 ∈ a.signatures.map Prod.snd := List.mem_map_of_mem hp
  rw [h.numbers, List.mem_reverse, List.mem_range] at hnumber
  exact hnumber

/-- A new signature gets a number of its own. -/
theorem AllocatedOnce.allocate {a : Arena} (h : a.AllocatedOnce) {signature : String}
    (hnone : a.wrapperFor signature = none) : (a.allocate signature).2.AllocatedOnce := by
  have hnew : signature ∉ a.signatures.map Prod.fst := by
    intro hmem
    obtain ⟨name, hn⟩ := h.indexed.mem_signatures_iff.mp hmem
    rw [hnone] at hn
    cases hn
  constructor
  · exact List.nodup_cons.mpr ⟨hnew, h.signatures⟩
  · simp only [Arena.allocate, List.map_cons, List.length_append, List.length_singleton,
      List.range_succ, List.reverse_append, List.reverse_singleton, List.singleton_append, h.numbers]

structure Recalls (a b : Arena) : Prop extends Extends a b where
  -- All that a spelling or a name may rest on in one arena is there in another.
  pairings : a.pairings <+: b.pairings
  keeps : a.Keeps b
  reported : a.reported ⊆ b.reported

theorem Recalls.refl (a : Arena) : a.Recalls a where
  toExtends := extends_steps.refl a
  pairings := List.prefix_refl _
  keeps := fun _ _ hn => hn
  reported := List.Subset.refl _

theorem Recalls.trans {a b c : Arena} (h : a.Recalls b) (k : b.Recalls c) : a.Recalls c where
  toExtends := extends_steps.trans h.toExtends k.toExtends
  pairings := h.pairings.trans k.pairings
  keeps := h.keeps.trans k.keeps
  reported := List.Subset.trans h.reported k.reported

def Continues (a b : Arena) : Prop := a.AllocatedOnce → b.AllocatedOnce ∧ a.Recalls b

/-- Every operation recalls what was asked before, where only new signatures are allocated. -/
theorem continues_steps : FreshSteps Continues where
  refl := fun a ha => ⟨ha, .refl a⟩
  trans := by
    intro a b c hab hbc ha
    obtain ⟨hb, hfirst⟩ := hab ha
    obtain ⟨hc, hsecond⟩ := hbc hb
    exact ⟨hc, hfirst.trans hsecond⟩
  intern := by
    intro a e ha
    have hreported := (a.perform_reported (.intern e)).1
    refine ⟨?_, extends_steps.intern a e, pairings_prefix_steps.intern a e,
      .of_eq (a.intern_wrapperFor e), ?_⟩
    · rcases a.intern_cases e with ⟨name, _, hi⟩ | ⟨_, hi⟩ <;> rw [hi] <;> exact ha.of_eq rfl rfl
    · exact fun p hp => hreported ▸ hp
  allocate := fun a signature hnone ha => ⟨ha.allocate hnone, extends_steps.allocate a signature,
    List.prefix_refl _, keeps_allocate ha.indexed hnone, List.Subset.refl _⟩
  complete := fun a index entry ha => ⟨ha.of_eq rfl (List.length_modify ..),
    extends_steps.complete a index entry, List.prefix_refl _,
    .of_eq (a.complete_wrapperFor index entry), List.Subset.refl _⟩
  unknownValue := by
    intro a shape ns ha
    have hreported := (a.perform_reported (.unknownValue shape ns)).1
    refine ⟨?_, extends_steps.unknownValue a shape ns,
      pairings_prefix_steps.unknownValue a shape ns, .of_eq (a.unknownValue_wrapperFor shape ns),
      fun p hp => ?_⟩
    · unfold Arena.unknownValue
      split <;> exact ha.of_eq rfl rfl
    · exact hreported ▸ List.mem_append_right _ hp

end Arena

section Again

variable {scope : Scope} {a b : Arena}

/-- A shape that was reported is not reported again. -/
theorem Arena.Recalls.unknownValue {shape ns : String}
    (h : (a.unknownValue shape ns).Recalls b) : b.unknownValue shape ns = b := by
  have hmem : (shape, ns) ∈ b.reported :=
    h.reported ((a.mem_reported_perform (.unknownValue shape ns) _).mpr (.inr rfl))
  have hused : b.unknownUsed = true := h.unknownUsed (unknownValue_unknownUsed a shape ns)
  rw [Arena.unknownValue, if_pos (List.contains_iff_mem.mpr hmem), ← hused]

/-- A name keeps its spelling and leaves a later arena as it is. -/
theorem namedSpelling_again {name : String} (h : (namedSpelling scope name a).2.Recalls b) :
    namedSpelling scope name b = ((namedSpelling scope name a).1, b) := by
  unfold namedSpelling at h ⊢
  cases hs : Scalar.ofName? name with
  | some s => rfl
  | none =>
    cases hr : scope.resolve name with
    | ok symbol =>
      simp only [hs, hr] at h ⊢
      rw [h.usage]
    | error err =>
      simp only [hs, hr] at h ⊢
      rw [h.unknownValue]

theorem elementSpelling_again {items : TypeExpr} (h : (elementSpelling scope items a).2.Recalls b) :
    elementSpelling scope items b = ((elementSpelling scope items a).1, b) := by
  cases items with
  | named name o => exact namedSpelling_again h
  | array items o => exact Prod.ext rfl h.unknownValue
  | map key value o => exact Prod.ext rfl h.unknownValue

/-- A value keeps its spelling. A nested map needs no induction: its wrapper is recalled. -/
theorem valueSpelling_again (ha : a.Indexed) {value : TypeExpr}
    (h : (valueSpelling scope value a).2.Recalls b) :
    valueSpelling scope value b = ((valueSpelling scope value a).1, b) := by
  cases value with
  | named name o => exact namedSpelling_again h
  | array items o =>
    have hitems : elementSpelling scope items b = ((elementSpelling scope items a).1, b) :=
      elementSpelling_again h
    simp only [valueSpelling, hitems]
  | map key value o =>
    obtain ⟨name, hspelled, hw⟩ := valueSpelling_map_wrapperFor scope key value o ha
    have hb : b.wrapperFor (TypeExpr.map key value o).signature = some name := h.keeps _ _ hw
    rw [hspelled]
    simp only [valueSpelling, hb]

/-- A map keeps its name and leaves a later arena as it is. -/
theorem synthesizeMap_again (ha : a.AllocatedOnce) {key : String} {value : TypeExpr}
    (h : (synthesizeMap scope key value a).2.Recalls b) :
    synthesizeMap scope key value b = ((synthesizeMap scope key value a).1, b) := by
  have hspelled := (Arena.continues_steps.valueSpelling scope value a ha).1
  have hinterned := (Arena.continues_steps.intern _
    (entryFor key value (valueSpelling scope value a).1) hspelled).2
  -- The spelling is repeated first; it leaves the arena in which the entry is then found.
  have hvalue := valueSpelling_again ha.indexed (hinterned.trans h)
  simp only [synthesizeMap, hvalue]
  exact Arena.intern_again h.pairings

end Again

section Calls

structure MapCall where
  scope : Scope
  key : String
  value : TypeExpr

def MapCall.make (c : MapCall) (a : Arena) : String × Arena := synthesizeMap c.scope c.key c.value a

def Arena.afterCalls (a : Arena) (calls : List MapCall) : Arena :=
  calls.foldl (fun a c => (c.make a).2) a

/-- What each map respects, a run does. -/
theorem Arena.afterCalls_of_make {R : Arena → Arena → Prop} (refl : ∀ a, R a a)
    (trans : ∀ {a b c}, R a b → R b c → R a c) (make : ∀ (c : MapCall) a, R a (c.make a).2)
    (a : Arena) (calls : List MapCall) : R a (a.afterCalls calls) := by
  induction calls generalizing a with
  | nil => exact refl a
  | cons c calls ih => exact trans (make c a) (ih (c.make a).2)

theorem Arena.continues_afterCalls (a : Arena) (calls : List MapCall) :
    a.Continues (a.afterCalls calls) :=
  afterCalls_of_make continues_steps.refl continues_steps.trans
    (fun c a => continues_steps.synthesizeMap c.scope c.key c.value a) a calls

theorem Arena.afterCalls_filled (usage : UsageMap) (calls : List MapCall) :
    ∀ w ∈ (({ usage } : Arena).afterCalls calls).wrappers,
      w.Filled (({ usage } : Arena).afterCalls calls) := by
  have hrun := afterCalls_of_make
    (R := fun a b => a.Coherent ∧ (∀ w ∈ a.wrappers, w.Filled a) →
      b.Coherent ∧ ∀ w ∈ b.wrappers, w.Filled b)
    (fun _ ha => ha) (fun hab hbc ha => hbc (hab ha))
    (fun c a ha => ⟨coherent_steps.synthesizeMap c.scope c.key c.value a ha.1,
      synthesizeMap_filled c.key c.value ha.1 ha.2⟩) { usage } calls
  exact (hrun ⟨coherent_start usage, fun w hw => nomatch hw⟩).2

/-- A map that is written again gets the name it got, and the arena stays as it is. -/
theorem MapCall.make_again (c : MapCall) {a : Arena} (ha : a.AllocatedOnce)
    (between : List MapCall) : c.make ((c.make a).2.afterCalls between) =
      ((c.make a).1, (c.make a).2.afterCalls between) := by
  have hmade := (Arena.continues_steps.synthesizeMap c.scope c.key c.value a ha).1
  exact synthesizeMap_again ha ((c.make a).2.continues_afterCalls between hmade).2

end Calls

section Forms

/-- Two forms of an object type refer to the same entries: for each field that is a map, or a list of
maps, there is one entry type, written in both directions, that one form names as it is and the other
as an input. -/
def SameEntries (defs : List Definition) (t : ObjectType) (output input : ObjectDef) : Prop :=
  ∀ (i : Nat) (f : Field), (t.includedFields .graphql)[i]? = some f → ∃ fo fi : FieldDef,
    output.fields[i]? = some fo ∧ input.fields[i]? = some fi ∧
      ∀ q, f.type.outerMap? = some q → ∃ e, entryDef e .output ∈ defs ∧ entryDef e .input ∈ defs ∧
        fo.type.base = e.name ∧ fi.type.base = inputName e.name

variable {m : Model} {p : Parts}

theorem Arena.continues_run (scope : Scope) : Run scope Continues :=
  ⟨continues_steps.refl, continues_steps.trans,
    fun ns key value a => continues_steps.synthesizeMap (scope.within ns) key value a⟩

theorem Parts.Of.objectsContinue (h : p.Of m (.of m)) :
    ObjectsMade (.flat m (.of m) .graphql) Arena.Continues
      { usage := .classify m (.of m) .graphql } p.arena m.types p.objects :=
  allObjectDefs_made ((Arena.continues_run _).runOver fun _ _ => True) (fun _ _ _ _ => trivial)
    h.objects

/-- A field that is a map refers to the entry that the last arena has for it. -/
theorem FieldMade.exists_entry {scope : Scope} {d : Direction} {a b : Arena} (ha : a.AllocatedOnce)
    (hcoherent : a.Coherent) {f : Field} {fd : FieldDef}
    (h : FieldMade scope Arena.Continues d a b f fd) {key : String} {value : TypeExpr}
    (hmap : f.type.outerMap? = some (key, value)) :
    ∃ e ∈ b.entries, synthesizeMap scope key value b = (e.name, b) ∧
      fd.type.base = d.name e.name := by
  obtain ⟨_, _, c, c', type, hbefore, he, hafter, hbase⟩ := h
  obtain ⟨htype, rfl⟩ := typeRef_of_map hmap he
  obtain ⟨hc, hfirst⟩ := hbefore ha
  have hmade := (Arena.continues_steps.synthesizeMap scope key value c hc).1
  have hrecalls := (hafter hmade).2
  obtain ⟨e, hmem, hentry⟩ := List.mem_map.mp
    (synthesizeMap_mem_entries scope key value (hfirst.coherent hcoherent))
  refine ⟨e, hrecalls.entries hmem, ?_, ?_⟩
  · rw [hentry]
    exact synthesizeMap_again hc hrecalls
  · rw [hbase, htype, hentry]

/-- The two forms of a type that needs both refer to the same entries. -/
theorem Parts.Of.exists_forms (h : p.Of m (.of m)) {t : ObjectType} (ht : t ∈ m.types)
    (hneeds : (UsageMap.classify m (.of m) .graphql).needsInput t.ns t.name = true) :
    ∃ output input : ObjectDef,
      .object output ∈ p.definitions m (.flat m (.of m) .graphql) ∧
      .object input ∈ p.definitions m (.flat m (.of m) .graphql) ∧
      output.name = (NameTable.build m .graphql).declaredName t.ns t.name ∧
      input.name = inputName ((NameTable.build m .graphql).declaredName t.ns t.name) ∧
      SameEntries (p.definitions m (.flat m (.of m) .graphql)) t output input := by
  have hstart := Arena.allocatedOnce_start (.classify m (.of m) .graphql)
  obtain ⟨output, hout, hname, _, hfields⟩ := h.objectsContinue.complete t ht .output (.inl rfl)
  obtain ⟨input, hin, hname', _, hfields'⟩ := h.objectsContinue.complete t ht .input (.inr hneeds)
  refine ⟨output, input, Parts.mem_definitions.mpr (.inr (.inr (.inl hout))),
    Parts.mem_definitions.mpr (.inr (.inr (.inl hin))), hname, hname', fun i f hf => ?_⟩
  obtain ⟨fo, hfo, hmade⟩ := exists_getElem?_of_forall₂ hfields hf
  obtain ⟨fi, hfi, hmade'⟩ := exists_getElem?_of_forall₂ hfields' hf
  refine ⟨fo, fi, hfo, hfi, fun q hmap => ?_⟩
  obtain ⟨e, he, hlast, hbase⟩ := hmade.exists_entry hstart (Arena.coherent_start _) hmap
  obtain ⟨e', _, hlast', hbase'⟩ := hmade'.exists_entry hstart (Arena.coherent_start _) hmap
  -- Both are the entry that the last arena has for the map, whichever form was written first.
  have hsame : e'.name = e.name := congrArg Prod.fst (hlast'.symm.trans hlast)
  have hdefs (d : Direction) : entryDef e d ∈ p.definitions m (.flat m (.of m) .graphql) :=
    Parts.mem_definitions.mpr (.inl (mem_arenaDefs.mpr (.inr (.inr ⟨e, he, by cases d <;> simp⟩))))
  rw [hsame] at hbase'
  exact ⟨e, hdefs .output, hdefs .input, hbase, hbase'⟩

end Forms

/-- Maps are written the same way throughout. A map that was written once gets the same name again and
leaves the arena as it is, whatever maps are written between, in whatever namespaces. After any maps,
every wrapper holds an entry that is there, and no two wrappers were allocated for one signature. So
where a document has both forms of a type, they refer to the same entries. -/
theorem synthesizeMap_stable :
    (∀ (usage : UsageMap) (before between : List MapCall) (c : MapCall),
      let first := c.make (({ usage } : Arena).afterCalls before)
      let later := first.2.afterCalls between
      c.make later = (first.1, later)) ∧
    (∀ (usage : UsageMap) (calls : List MapCall),
      let a := ({ usage } : Arena).afterCalls calls
      (∀ w ∈ a.wrappers, ∃ e ∈ a.entries, e.name = w.entry) ∧ a.AllocatedOnce) ∧
    ∀ m r, render m (.of m) = .ok r → ∀ t ∈ m.types,
      (UsageMap.classify m (.of m) .graphql).needsInput t.ns t.name = true →
      ∃ output input : ObjectDef,
        .object output ∈ r.document.definitions ∧ .object input ∈ r.document.definitions ∧
        output.name = (NameTable.build m .graphql).declaredName t.ns t.name ∧
        input.name = inputName ((NameTable.build m .graphql).declaredName t.ns t.name) ∧
        SameEntries r.document.definitions t output input := by
  have honce (usage : UsageMap) (calls : List MapCall) :
      (({ usage } : Arena).afterCalls calls).AllocatedOnce :=
    (Arena.continues_afterCalls _ calls (Arena.allocatedOnce_start usage)).1
  refine ⟨fun usage before between c => c.make_again (honce usage before) between, ?_, ?_⟩
  · intro usage calls a
    refine ⟨fun w hw => ?_, honce usage calls⟩
    exact List.mem_map.mp (Arena.afterCalls_filled usage calls w hw)
  · intro m r h t ht hneeds
    obtain ⟨_, p, hp, _, hdefs⟩ := render_eq_ok h
    rw [hdefs]
    exact hp.exists_forms ht hneeds

theorem synthesizeMap_stable_ledgers :
    ∃ r, render ledgers (.of ledgers) = .ok r ∧
      (UsageMap.classify ledgers (.of ledgers) .graphql).needsInput "bank" "Ledger" = true ∧
      ∃ output input : ObjectDef,
        .object output ∈ r.document.definitions ∧ .object input ∈ r.document.definitions ∧
        output.name = "Ledger" ∧ input.name = "LedgerInput" ∧
        ∃ fo fi : FieldDef, output.fields[1]? = some fo ∧ input.fields[1]? = some fi ∧
          ∃ e, entryDef e .output ∈ r.document.definitions ∧
            entryDef e .input ∈ r.document.definitions ∧
            fo.type.base = e.name ∧ fi.type.base = inputName e.name := by
  have hok : (render ledgers (.of ledgers)).toOption.map (fun _ => true) = some true := by
    decide +kernel
  obtain ⟨r, h, _⟩ := exists_ok_of_toOption hok
  have hneeds : (UsageMap.classify ledgers (.of ledgers) .graphql).needsInput "bank" "Ledger" =
      true := by decide +kernel
  obtain ⟨output, input, hout, hin, hname, hname', hsame⟩ :=
    synthesizeMap_stable.2.2 ledgers r h _ List.mem_cons_self hneeds
  obtain ⟨fo, fi, hfo, hfi, hentry⟩ := hsame 1 _ rfl
  exact ⟨r, h, hneeds, output, input, hout, hin, hname.trans (by decide +kernel),
    hname'.trans (by decide +kernel), fo, fi, hfo, hfi, hentry _ rfl⟩

end Triglot.Graphql
