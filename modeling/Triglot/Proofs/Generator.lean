import Triglot.Output.Generator
import Triglot.Proofs.Graphql.Success
import Triglot.Proofs.OpenApi.Success
import Triglot.Proofs.Proto.Success

/-! A run over several targets. Each emitter adds its own files and findings, so a run tells an error
only if the table of the model or one of the emitters does. -/
namespace Triglot

namespace Emitter

theorem target_of_create {t : Target} {settings : Settings} {e : Emitter}
    (h : create t settings = .ok e) : e.target = t := by
  cases t with
  | proto =>
    cases h
    rfl
  | graphql =>
    cases h
    rfl
  | openapi =>
    unfold create at h
    dsimp only at h
    split at h
    · cases h
      rfl
    · cases h

theorem create_succeeds {settings : Settings} (t : Target)
    (hv : Text.startsWith settings.openapi.version "3." = true) : Succeeds (create t settings) := by
  cases t with
  | proto => exact .ok _
  | graphql => exact .ok _
  | openapi =>
    unfold create
    simp only [hv, if_true]
    exact .ok _

/-- What an emitter tells beside its files are warnings. -/
theorem emit_harmless {e : Emitter} {m : Model} {table : SymbolTable} {emission : Emission}
    (h : e.emit m table = .ok emission) : Harmless emission.diagnostics := by
  cases e with
  | proto filename layout => exact Proto.emit_harmless h
  | graphql filename =>
    obtain ⟨r, hr, rfl⟩ := map_eq_ok h
    exact Graphql.render_warnings_harmless hr
  | openapi filename settings =>
    unfold emit OpenApi.emit at h
    dsimp only at h
    split at h
    · rename_i e he
      cases h
      exact OpenApi.exportModel_warnings_harmless he
    · cases h

/-- Emitters without namespaces make something of any model that was checked for their targets. -/
theorem emit_succeeds {m : Model} {o : Validation.Options} (ha : Validation.Accepted m o)
    (hs : o.splitProto = false) {t : Target} (ht : t ∈ o.targets) {settings : Settings} {e : Emitter}
    (hsplit : settings.proto.splitByNamespace = false) (he : create t settings = .ok e) :
    Succeeds (e.emit m (.of m)) := by
  -- Without the layout by namespace, all targets are checked for conflicts of names.
  have hn : (NameTable.build m t).flatConflicts (.of m) = [] := by
    apply ha.distinct
    exact List.mem_filter.mpr ⟨ht, by simp [hs]⟩
  cases t with
  | proto =>
    unfold create at he
    simp only [hsplit, Bool.false_eq_true, if_false] at he
    cases he
    have hr := Proto.renderSingle_succeeds ⟨ha.referable, ha.numbered ht⟩ hn
    exact hr.map _
  | graphql =>
    cases he
    have hr := Graphql.render_succeeds ha.referable hn
    exact hr.map _
  | openapi =>
    unfold create at he
    dsimp only at he
    split at he
    · rename_i hv
      cases he
      obtain ⟨x, hx⟩ := OpenApi.exportModel_succeeds hv ha.referable hn
      unfold emit OpenApi.emit
      simp only [hx]
      exact .ok _
    · cases he

end Emitter

namespace Generator

theorem mem_distinctTargets {t : Target} {ts : List Target} : t ∈ distinctTargets ts ↔ t ∈ ts := by
  have hfold (ts seen : List Target) :
      t ∈ ts.foldl (fun seen t => if seen.contains t then seen else seen ++ [t]) seen ↔
        t ∈ seen ∨ t ∈ ts := by
    induction ts generalizing seen with
    | nil => simp
    | cons u ts ih =>
      rw [List.foldl_cons, ih, List.mem_cons]
      split
      · rename_i hu
        have hu := List.contains_iff_mem.mp hu
        constructor
        · rintro (h | h)
          · exact .inl h
          · exact .inr (.inr h)
        · rintro (h | rfl | h)
          · exact .inl h
          · exact .inl hu
          · exact .inr h
      · simp [or_assoc]
  exact (hfold ts []).trans (by simp)

/-- An emitter of a generator is that of one of the targets asked for. -/
theorem create_of_mem_emitters {settings : Settings} {g : Generator} (h : create settings = .ok g)
    {e : Emitter} (he : e ∈ g.emitters) :
    ∃ t ∈ settings.output.targets, Emitter.create t settings = .ok e := by
  obtain ⟨emitters, hm, h⟩ := bind_eq_ok h
  cases h
  obtain ⟨t, ht, hc⟩ := exists_of_mem_mapM hm he
  exact ⟨t, mem_distinctTargets.mp ht, hc⟩

theorem targets_of_create {settings : Settings} {g : Generator} (h : create settings = .ok g) :
    g.targets = distinctTargets settings.output.targets := by
  obtain ⟨emitters, hm, h⟩ := bind_eq_ok h
  cases h
  have hall := mapM_eq_ok hm
  have hmap (ts : List Target) (es : List Emitter)
      (h : List.Forall₂ (fun t e => Emitter.create t settings = .ok e) ts es) :
      es.map Emitter.target = ts := by
    induction h with
    | nil => rfl
    | cons hc _ ih => rw [List.map_cons, Emitter.target_of_create hc, ih]
  exact hmap _ _ hall

theorem create_succeeds {settings : Settings}
    (hv : Text.startsWith settings.openapi.version "3." = true) : Succeeds (create settings) := by
  have hm : Succeeds ((distinctTargets settings.output.targets).mapM fun t =>
      Emitter.create t settings) := .mapM fun t _ => Emitter.create_succeeds t hv
  exact hm.bind fun _ _ => .pure _

theorem addFiles_diagnostics (files : List (String × String)) (o : Output) :
    (files.foldl (fun o f => o.addFile f.1 f.2) o).diagnostics = o.diagnostics := by
  induction files generalizing o with
  | nil => rfl
  | cons f files ih => exact ih (o.addFile f.1 f.2)

/-- An emitter that succeeds adds no error. -/
theorem step_harmless {m : Model} {table : SymbolTable} {o : Output} {e : Emitter}
    (ho : Harmless o.diagnostics) (he : Succeeds (e.emit m table)) :
    Harmless (step m table o e).diagnostics := by
  obtain ⟨emission, hem⟩ := he
  unfold step
  simp only [hem]
  refine harmless_append.mpr ⟨?_, Emitter.emit_harmless hem⟩
  rw [addFiles_diagnostics]
  exact ho

theorem run_harmless {m : Model} {table : SymbolTable} (es : List Emitter) {o : Output}
    (ho : Harmless o.diagnostics) (he : ∀ e ∈ es, Succeeds (e.emit m table)) :
    Harmless (es.foldl (step m table) o).diagnostics := by
  induction es generalizing o with
  | nil => exact ho
  | cons e es ih =>
    have hs := step_harmless ho (he e List.mem_cons_self)
    exact ih hs fun f hf => he f (List.mem_cons_of_mem e hf)

/-- Of a model that was checked for the targets of a generator, no error is told. -/
theorem generate_harmless {m : Model} {o : Validation.Options} {settings : Settings}
    {g : Generator} (ha : Validation.Accepted m o) (hs : o.splitProto = false)
    (htargets : settings.output.targets ⊆ o.targets)
    (hsplit : settings.proto.splitByNamespace = false) (hg : create settings = .ok g) :
    Harmless (g.generate m).diagnostics := by
  have hstart : Harmless (SymbolTable.build m).2 := by
    rw [ha.unrepeated]
    exact harmless_nil
  refine run_harmless g.emitters hstart fun e he => ?_
  obtain ⟨t, ht, hc⟩ := create_of_mem_emitters hg he
  exact Emitter.emit_succeeds ha hs (htargets ht) hsplit hc

/-- A model that was checked for some targets can be written for each of them in the layouts without
namespaces: the generator exists, has an emitter for every target, all emitters succeed, and the run
tells no error. -/
theorem generate_of_ok (m : Model) (targets : List Target) (settings : Settings)
    (hsplit : settings.proto.splitByNamespace = false) (htargets : settings.output.targets = targets)
    (hversion : Text.startsWith settings.openapi.version "3." = true)
    (hok : (validate m { targets, splitProto := false }).ok = true) :
    ∃ g, create settings = .ok g ∧ (∀ t, t ∈ g.targets ↔ t ∈ targets) ∧
      (∀ e ∈ g.emitters, ∃ emission, e.emit m (.of m) = .ok emission) ∧
      (SymbolTable.build m).2 = [] ∧
      ∀ d ∈ (g.generate m).diagnostics, d.severity ≠ .error := by
  have ha := Validation.accepted_of_ok hok
  obtain ⟨g, hg⟩ := create_succeeds hversion
  have hemit : ∀ e ∈ g.emitters, Succeeds (e.emit m (.of m)) := by
    intro e he
    obtain ⟨t, ht, hc⟩ := create_of_mem_emitters hg he
    rw [htargets] at ht
    exact Emitter.emit_succeeds ha rfl ht hsplit hc
  -- A run begins with the findings about repeated declarations.
  have hstart : Harmless (SymbolTable.build m).2 := by
    rw [ha.unrepeated]
    exact harmless_nil
  have hrun : Harmless (g.generate m).diagnostics := run_harmless g.emitters hstart hemit
  refine ⟨g, hg, fun t => ?_, hemit, ha.unrepeated, fun d hd hs => ?_⟩
  · rw [targets_of_create hg, htargets]
    exact mem_distinctTargets
  · have hd := hrun d hd
    simp [Diagnostic.isError, hs] at hd

def storefront : Model :=
  -- A model of two namespaces, with references of every kind between them.
  { ns := "shop"
    enums := [{ name := "Status", ns := "shop", members := [{ name := "OPEN" }] }]
    types :=
      [{ name := "Item", ns := "shop"
         fields :=
          [{ name := "status", type := .named "Status" false },
           { name := "parts"
             type := .map "string" (.map "int32" (.named "Item" false) false) false },
           { name := "box", type := .array (.named "Box" false) false, number := some 1
             excludeFrom := [.proto] }] },
       { name := "Box", ns := "depot", fields := [{ name := "item", type := .named "Item" false }] }]
    unions := [{ name := "Thing", ns := "depot", options := ["Item", "Box"] }]
    services := [{ name := "Depot", ns := "depot"
                   methods := [{ name := "GetThing", input := "Box", output := "Thing" }] }] }

theorem generate_storefront :
    (validate storefront { targets := Target.all, splitProto := false }).ok = true ∧
      ∃ g, create {} = .ok g ∧ (∀ t, t ∈ g.targets ↔ t ∈ Target.all) ∧
        (∀ e ∈ g.emitters, ∃ emission, e.emit storefront (.of storefront) = .ok emission) ∧
        (SymbolTable.build storefront).2 = [] ∧
        ∀ d ∈ (g.generate storefront).diagnostics, d.severity ≠ .error := by
  have hversion : Text.startsWith ({} : Settings).openapi.version "3." = true := by decide +kernel
  have hok : (validate storefront { targets := Target.all, splitProto := false }).ok = true := by
    decide +kernel
  exact ⟨hok, generate_of_ok storefront Target.all {} rfl rfl hversion hok⟩

end Generator

end Triglot
