import Triglot.Proofs.Symbol.Conflict
import Triglot.Proofs.Symbol.Spelling
import Triglot.Proofs.Union.Rendering

/-! Alternatives of a union as they are written. The check compares the options as texts, while what is
written comes from the symbols they find: a declaration has a bare and a qualified name, and
declarations of different namespaces can have one name. -/
namespace Triglot

namespace Validation

theorem code_of_mem_repeatedOptions {union path : String} {seen : List String} {j : Nat}
    {os : List String} {d : Diagnostic} (h : d ∈ repeatedOptions union path seen j os) :
    d.code = Code.duplicateUnionOption := by
  induction os generalizing seen j with
  | nil => cases h
  | cons o os ih =>
    unfold repeatedOptions at h
    dsimp only at h
    split at h
    · rcases List.mem_cons.mp h with rfl | h
      · rfl
      · exact ih h
    · exact ih h

/-- Without a finding, options differ from each other and from those seen before. -/
theorem nodup_of_repeatedOptions {union path : String} {seen : List String} {j : Nat}
    {os : List String} (h : repeatedOptions union path seen j os = []) :
    os.Nodup ∧ ∀ o ∈ os, o ∉ seen := by
  induction os generalizing seen j with
  | nil => exact ⟨List.nodup_nil, fun o ho => nomatch ho⟩
  | cons o os ih =>
    unfold repeatedOptions at h
    dsimp only at h
    split at h
    · cases h
    · rename_i hseen
      have ho : o ∉ seen := fun hmem => hseen (List.contains_iff_mem.mpr hmem)
      exact nodup_cons_of_fresh (ih h) ho

theorem unionOptions_subset_entries (m : Model) (o : Options) :
    unionOptions m ⊆ (validate m o).entries := by
  intro d hd
  rw [validate_entries]
  refine List.mem_append_left _ (List.mem_append_left _ (List.mem_append_left _ ?_))
  exact List.mem_append_left _ (List.mem_append_right _ hd)

/-- A report that tells no repeated option leaves every union with options that differ as texts. -/
theorem options_nodup {m : Model} {o : Options}
    (h : ∀ d ∈ (validate m o).entries, d.code ≠ Code.duplicateUnionOption) {u : UnionType}
    (hu : u ∈ m.unions) : u.options.Nodup := by
  obtain ⟨i, hi, rfl⟩ := List.getElem_of_mem hu
  by_cases hempty : m.unions[i].options.isEmpty = true
  · rw [List.isEmpty_iff.mp hempty]
    exact List.nodup_nil
  · have hnil : repeatedOptions m.unions[i].name s!"$.unions[{i}].options" [] 0
        m.unions[i].options = [] := by
      apply List.eq_nil_iff_forall_not_mem.mpr
      intro d hd
      refine h d (unionOptions_subset_entries m o ?_) (code_of_mem_repeatedOptions hd)
      refine List.mem_flatten.mpr ⟨_, List.mem_mapIdx.mpr ⟨i, hi, rfl⟩, ?_⟩
      dsimp only
      rw [if_neg hempty]
      exact hd
    exact (nodup_of_repeatedOptions hnil).1

end Validation

namespace UnionType

variable {u : UnionType} {table : SymbolTable}

def found (u : UnionType) (table : SymbolTable) (o : String) : Option Symbol :=
  (table.resolve o u.ns).toOption

theorem found_eq_some_iff {o : String} {s : Symbol} :
    u.found table o = some s ↔ table.resolve o u.ns = .ok s := by
  unfold found
  cases table.resolve o u.ns with
  | error e => simp [Except.toOption]
  | ok x => simp [Except.toOption]

def Respells (u : UnionType) (table : SymbolTable) : Prop :=
  ∃ o ∈ u.options, ∃ q ∈ u.options, isQualified o = false ∧ isQualified q = true ∧
    (u.found table o).isSome = true ∧ u.found table o = u.found table q

instance (u : UnionType) (table : SymbolTable) : Decidable (u.Respells table) :=
  inferInstanceAs (Decidable (∃ o ∈ u.options, ∃ q ∈ u.options, isQualified o = false ∧
    isQualified q = true ∧ (u.found table o).isSome = true ∧ u.found table o = u.found table q))

/-- No declaration is listed by both of its names, and a label keeps those that are listed apart. -/
structure Separates (u : UnionType) (table : SymbolTable) (label : Symbol → String) : Prop where
  once : ¬u.Respells table
  apart : ∀ o ∈ u.options, ∀ o' ∈ u.options, u.found table o ≠ u.found table o' →
    (u.found table o).map label ≠ (u.found table o').map label

instance (u : UnionType) (table : SymbolTable) (label : Symbol → String) :
    Decidable (u.Separates table label) :=
  decidable_of_iff (¬u.Respells table ∧ ∀ o ∈ u.options, ∀ o' ∈ u.options,
      u.found table o ≠ u.found table o' →
        (u.found table o).map label ≠ (u.found table o').map label)
    ⟨fun h => ⟨h.1, h.2⟩, fun h => ⟨h.once, h.apart⟩⟩

/-- Two options that find one declaration are the same one, unless one is bare and one qualified. -/
theorem eq_of_not_respells (ht : table.Coherent) (h : ¬u.Respells table) {o o' : String}
    (ho : o ∈ u.options) (ho' : o' ∈ u.options) {s : Symbol} (hs : u.found table o = some s)
    (hs' : u.found table o' = some s) : o = o' := by
  have hmixed {a b : String} (ha : a ∈ u.options) (hb : b ∈ u.options)
      (hsa : u.found table a = some s) (hsb : u.found table b = some s)
      (hqa : isQualified a = false) (hqb : isQualified b = true) : False := by
    refine h ⟨a, ha, b, hb, hqa, hqb, ?_, hsa.trans hsb.symm⟩
    rw [hsa]
    rfl
  have hr := found_eq_some_iff.mp hs
  have hr' := found_eq_some_iff.mp hs'
  cases hq : isQualified o with
  | true =>
    cases hq' : isQualified o' with
    | true => exact ht.eq_of_resolve_eq hr hr' (hq.trans hq'.symm)
    | false => exact (hmixed ho' ho hs' hs hq' hq).elim
  | false =>
    cases hq' : isQualified o' with
    | true => exact (hmixed ho ho' hs hs' hq hq').elim
    | false => exact ht.eq_of_resolve_eq hr hr' (hq.trans hq'.symm)

/-- Labels of the symbols that distinct options find are distinct exactly if the options separate
them. -/
theorem nodup_labels_iff (ht : table.Coherent) {symbols : List Symbol} (hnodup : u.options.Nodup)
    (hfinds : List.Forall₂ (fun o s => table.resolve o u.ns = .ok s) u.options symbols)
    (label : Symbol → String) :
    (symbols.map label).Nodup ↔ u.Separates table label := by
  -- Labels as a function of the options, which are distinct themselves.
  have hmap : (symbols.map label).map some = u.options.map fun o => (u.found table o).map label := by
    rw [List.map_map]
    apply map_eq_of_mapM (mapM_of_forall₂ hfinds)
    intro o _ s hs
    rw [found_eq_some_iff.mpr hs]
    rfl
  rw [← List.nodup_map_iff (Option.some_injective _), hmap, List.nodup_map_iff_inj_on hnodup]
  constructor
  · intro hinj
    refine ⟨?_, ?_⟩
    · rintro ⟨o, ho, q, hq, hbare, hqualified, _, hsame⟩
      have heq : o = q := hinj o ho q hq (by rw [hsame])
      rw [heq, hqualified] at hbare
      cases hbare
    · intro o ho o' ho' hne hlabel
      exact hne (by rw [hinj o ho o' ho' hlabel])
  · intro hsep o ho o' ho' hlabel
    have hsame : u.found table o = u.found table o' := by
      by_contra hne
      exact hsep.apart o ho o' ho' hne hlabel
    obtain ⟨s, _, hs⟩ := exists_of_mem_forall₂ hfinds ho
    have hs := found_eq_some_iff.mpr hs
    exact eq_of_not_respells ht hsep.once ho ho' hs (hsame ▸ hs)

/-- Where emitted names are distinct, only a declaration that is listed twice repeats one. -/
theorem separates_emitted_iff {emitted : Symbol → String}
    (h : table.flatConflicts emitted = []) :
    u.Separates table emitted ↔ ¬u.Respells table := by
  have hnodup := (table.flatConflicts_eq_nil_iff emitted).mp h
  refine ⟨Separates.once, fun honce => ⟨honce, ?_⟩⟩
  intro o _ o' _ hne heq
  have hdeclared {n : String} {x : Symbol} (hx : u.found table n = some x) :
      x ∈ table.declarations :=
    List.mem_append_left _ (SymbolTable.mem_entries_of_resolve (found_eq_some_iff.mp hx))
  cases hs : u.found table o with
  | none =>
    rw [hs] at hne heq
    exact hne (Option.map_eq_none_iff.mp heq.symm).symm
  | some s =>
    rw [hs] at hne heq
    obtain ⟨s', hs', hlabel⟩ := Option.map_eq_some_iff.mp heq.symm
    have hsame : s' = s := List.inj_on_of_nodup_map hnodup (hdeclared hs') (hdeclared hs) hlabel
    exact hne (by rw [hs', hsame])

end UnionType

/-- If the report is good and tells no repeated option, the three targets write every union, and what
they write for its alternatives is free of repetition exactly if the options separate them: by the
declared name with a small first letter where alternatives are fields, and by the emitted name where
they are types. For a target that was checked for conflicts, emitted names are repeated only by a union
that lists a declaration by both of its names. -/
theorem unionAlternatives_nodup_iff (m : Model) (o : Validation.Options)
    (h : (validate m o).ok = true)
    (hrep : ∀ d ∈ (validate m o).entries, d.code ≠ Code.duplicateUnionOption)
    (u : UnionType) (hu : u ∈ m.unions) :
    (∀ scope : Scope, scope.table = .of m →
      ∃ b, Proto.renderUnion (scope.within u.ns) u = .ok b ∧
        ((b.members.map (·.name)).Nodup ↔
          u.Separates (.of m) fun s => Text.lowerFirst s.name)) ∧
    (∃ d, Graphql.renderUnion ((Scope.flat m (.of m) .graphql).within u.ns) u = .ok d ∧
      ((d.input.fields.map (·.name)).Nodup ↔
        u.Separates (.of m) fun s => Text.lowerFirst s.name) ∧
      (d.output.usedNames.Nodup ↔
        u.Separates (.of m) (NameTable.build m .graphql).emitted)) ∧
    (∃ v, OpenApi.renderUnion ((Scope.flat m (.of m) .openapi).within u.ns) u = .ok v ∧
      (OpenApi.KeepsAlternatives u →
        ((OpenApi.oneOfReferences v).Nodup ↔
          u.Separates (.of m) (NameTable.build m .openapi).emitted))) ∧
    ∀ target ∈ o.flatTargets,
      (u.Separates (.of m) (NameTable.build m target).emitted ↔ ¬u.Respells (.of m)) := by
  have hacc := Validation.accepted_of_ok h
  have hoptions : u.options.Nodup := Validation.options_nodup hrep hu
  obtain ⟨symbols, hfinds⟩ := hacc.referable.finds hu
  have hlabels := UnionType.nodup_labels_iff (SymbolTable.of_coherent m) hoptions hfinds
  refine ⟨?_, ?_, ?_, ?_⟩
  · intro scope htable
    obtain ⟨b, hb, _, hnames⟩ := Proto.renderUnion_of_finds (Scope.finds_within htable hfinds)
    refine ⟨b, hb, ?_⟩
    rw [hnames]
    exact hlabels _
  · have hflat : ((Scope.flat m (.of m) .graphql).within u.ns).Finds u.options symbols :=
      Scope.finds_within rfl hfinds
    obtain ⟨d, hd, hout, hin⟩ := Graphql.renderUnion_of_finds hflat
    refine ⟨d, hd, ?_, ?_⟩
    · rw [hin, List.map_map]
      exact hlabels _
    · rw [hout]
      exact hlabels _
  · have hflat : ((Scope.flat m (.of m) .openapi).within u.ns).Finds u.options symbols :=
      Scope.finds_within rfl hfinds
    obtain ⟨v, hv, hrefs⟩ := OpenApi.renderUnion_of_finds hflat
    refine ⟨v, hv, fun hkeeps => ?_⟩
    rw [hrefs hkeeps, ← hlabels]
    -- The paths of components differ as their names do.
    have hpaths : (symbols.map fun s => OpenApi.schemaPath
        (((Scope.flat m (.of m) .openapi).within u.ns).write s)) =
          (symbols.map (NameTable.build m .openapi).emitted).map OpenApi.schemaPath := by
      rw [List.map_map]
      rfl
    rw [hpaths, List.nodup_map_iff OpenApi.schemaPath_injective]
  · intro target htarget
    exact UnionType.separates_emitted_iff (hacc.distinct target htarget)

def payment : UnionType :=
  -- Options that are bare, qualified, and found as the only one of a name.
  { name := "Payment", ns := "shop", options := ["Card", "bank.Transfer", "Voucher"]
    annotations :=
      { proto := {}, graphql := {}, openapi := { options := ["\x7b\"x-order\": 1\x7d"] } } }

def stock : UnionType := { name := "Stock", ns := "shop", options := ["north.Item", "south.Item"] }

def checkout : Model :=
  { ns := "shop"
    types :=
      [{ name := "Card", ns := "shop"
         fields := [{ name := "digits", type := .named "string" false }] },
       { name := "Transfer", ns := "bank", fields := [] },
       { name := "Voucher", ns := "bank", fields := [] },
       { name := "Item", ns := "north", fields := [] },
       { name := "Item", ns := "south", fields := []
         annotations := .replicate { name := some "SouthItem" } }]
    unions := [payment, stock] }

/-- The alternatives of the first union are distinct everywhere; those of the second are where they are
types, and not where they are fields. -/
theorem unionAlternatives_nodup_checkout :
    (validate checkout {}).ok = true ∧
      (∀ d ∈ (validate checkout {}).entries, d.code ≠ Code.duplicateUnionOption) ∧
      ((∃ b, Proto.renderUnion ((Scope.flat checkout (.of checkout) .proto).within payment.ns)
          payment = .ok b ∧ (b.members.map (·.name)).Nodup) ∧
        (∃ d, Graphql.renderUnion ((Scope.flat checkout (.of checkout) .graphql).within payment.ns)
          payment = .ok d ∧ (d.input.fields.map (·.name)).Nodup ∧ d.output.usedNames.Nodup) ∧
        ∃ v, OpenApi.renderUnion ((Scope.flat checkout (.of checkout) .openapi).within payment.ns)
          payment = .ok v ∧ (OpenApi.oneOfReferences v).Nodup) ∧
      ∃ d, Graphql.renderUnion ((Scope.flat checkout (.of checkout) .graphql).within stock.ns)
        stock = .ok d ∧ ¬(d.input.fields.map (·.name)).Nodup ∧ d.output.usedNames.Nodup := by
  have hok : (validate checkout {}).ok = true := by decide +kernel
  have hrep : ∀ d ∈ (validate checkout {}).entries, d.code ≠ Code.duplicateUnionOption := by
    decide +kernel
  have honce : ∀ u ∈ checkout.unions, ¬u.Respells (.of checkout) := by decide +kernel
  have hfields : payment.Separates (.of checkout) fun s => Text.lowerFirst s.name := by
    decide +kernel
  have hshared : ¬stock.Separates (.of checkout) fun s => Text.lowerFirst s.name := by
    decide +kernel
  have hkeeps : OpenApi.KeepsAlternatives payment := by
    unfold OpenApi.KeepsAlternatives
    decide +kernel
  have hpayment : payment ∈ checkout.unions := List.mem_cons_self
  have hstock : stock ∈ checkout.unions := List.mem_cons_of_mem _ List.mem_cons_self
  obtain ⟨hproto, ⟨d, hd, hin, hout⟩, ⟨v, hv, hrefs⟩, hflat⟩ :=
    unionAlternatives_nodup_iff checkout {} hok hrep payment hpayment
  obtain ⟨b, hb, hmembers⟩ := hproto (.flat checkout (.of checkout) .proto) rfl
  have htypes (target : Target) (ht : target ∈ ({} : Validation.Options).flatTargets) :=
    (hflat target ht).mpr (honce payment hpayment)
  obtain ⟨_, ⟨e, he, hein, heout⟩, _, heflat⟩ :=
    unionAlternatives_nodup_iff checkout {} hok hrep stock hstock
  refine ⟨hok, hrep, ⟨⟨b, hb, hmembers.mpr hfields⟩, ⟨d, hd, hin.mpr hfields, ?_⟩, v, hv, ?_⟩,
    e, he, fun hnodup => hshared (hein.mp hnodup), ?_⟩
  · exact hout.mpr (htypes .graphql (by decide))
  · exact (hrefs hkeeps).mpr (htypes .openapi (by decide))
  · exact heout.mpr ((heflat .graphql (by decide)).mpr (honce stock hstock))

def tills : Model :=
  -- One declaration, listed by both of its names.
  { ns := "shop"
    types :=
      [{ name := "Card", ns := "shop"
         fields := [{ name := "digits", type := .named "string" false }] }]
    unions := [{ name := "Payment", ns := "shop", options := ["Card", "shop.Card"] }] }

/-- The report has no entry at all, and every target writes the same alternative twice. -/
theorem unionAlternatives_tills :
    (validate tills {}).entries = [] ∧
      ∃ u ∈ tills.unions,
        (∃ b, Proto.renderUnion ((Scope.flat tills (.of tills) .proto).within u.ns) u = .ok b ∧
          b.members.map (·.name) = ["card", "card"]) ∧
        (∃ d, Graphql.renderUnion ((Scope.flat tills (.of tills) .graphql).within u.ns) u = .ok d ∧
          (d.input.fields.map (·.name), d.output.usedNames) = (["card", "card"], ["Card", "Card"])) ∧
        ∃ v, OpenApi.renderUnion ((Scope.flat tills (.of tills) .openapi).within u.ns) u = .ok v ∧
          OpenApi.oneOfReferences v =
            ["#/components/schemas/Card", "#/components/schemas/Card"] := by
  refine ⟨by decide +kernel, _, List.mem_cons_self, ?_, ?_, ?_⟩
  · exact exists_ok_of_toOption (by decide +kernel)
  · exact exists_ok_of_toOption (by decide +kernel)
  · exact exists_ok_of_toOption (by decide +kernel)

end Triglot
