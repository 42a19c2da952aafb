import Triglot.Proofs.Entries
import Triglot.Proofs.Generator

/-! What a run adds up to. Each emitter has its own writes and findings, whatever others made before it.
A run collects them in order, and at each path the last write counts. Under default settings the
targets have a path each, so none of them can disturb or hide what another one makes. -/
namespace Triglot

namespace Emitter

def writes (e : Emitter) (m : Model) : List (String × String) :=
  match e.emit m (.of m) with
  | .ok emission => emission.files
  | .error error => if error.leavesDocument then [(e.filename, e.failureDocument error)] else []

def findings (e : Emitter) (m : Model) : List Diagnostic :=
  match e.emit m (.of m) with
  | .ok emission => emission.diagnostics
  | .error error => [error.diagnostic e.target]

theorem writes_of_emit {e : Emitter} {m : Model} {emission : Emission}
    (h : e.emit m (.of m) = .ok emission) : e.writes m = emission.files := by
  simp [writes, h]

def OneFile : Emitter → Prop
  | .proto _ layout => layout = .singleFile
  | .graphql _ => True
  | .openapi _ _ => True

theorem OneFile.files_eq {e : Emitter} (h : e.OneFile) {m : Model} {table : SymbolTable}
    {emission : Emission} (hem : e.emit m table = .ok emission) :
    ∃ text, emission.files = [(e.filename, text)] := by
  cases e with
  | proto filename layout =>
    cases h
    obtain ⟨r, _, rfl⟩ := map_eq_ok hem
    exact ⟨_, rfl⟩
  | graphql filename =>
    obtain ⟨r, _, rfl⟩ := map_eq_ok hem
    exact ⟨_, rfl⟩
  | openapi filename settings =>
    unfold emit OpenApi.emit at hem
    dsimp only at hem
    split at hem
    · cases hem
      exact ⟨_, rfl⟩
    · cases hem

theorem OneFile.path_eq {e : Emitter} (h : e.OneFile) {m : Model} {w : String × String}
    (hw : w ∈ e.writes m) : w.1 = e.filename := by
  unfold writes at hw
  split at hw
  · rename_i emission hem
    obtain ⟨text, hfiles⟩ := h.files_eq hem
    rw [hfiles, List.mem_singleton] at hw
    rw [hw]
  · split at hw
    · rw [List.mem_singleton.mp hw]
    · cases hw

end Emitter

namespace Generator

def writes (g : Generator) (m : Model) : List (String × String) :=
  g.emitters.flatMap fun e => e.writes m

theorem addFiles_eq (files : List (String × String)) (o : Output) :
    files.foldl (fun o f => o.addFile f.1 f.2) o = { o with files := insertAll files o.files } := by
  have hinsert : Output.insertFile = insertByKey :=
    eq_insertByKey (fun _ _ => rfl) fun _ _ _ _ _ => rfl
  induction files generalizing o with
  | nil => rfl
  | cons f files ih =>
    rw [List.foldl_cons, ih, Output.addFile, hinsert]
    rfl

/-- An emitter adds its writes and its findings. -/
theorem step_eq (m : Model) (o : Output) (e : Emitter) :
    step m (.of m) o e = ⟨insertAll (e.writes m) o.files, o.diagnostics ++ e.findings m⟩ := by
  unfold step Emitter.writes Emitter.findings
  cases e.emit m (.of m) with
  | ok emission =>
    dsimp only
    rw [addFiles_eq]
    rfl
  | error error =>
    dsimp only
    cases error.leavesDocument with
    | false => rfl
    | true =>
      -- A document is added like the only file of an emission.
      have hadd := addFiles_eq [(e.filename, e.failureDocument error)] o
      exact congrArg (fun p => Output.note p [error.diagnostic e.target]) hadd

/-- Emitters add their writes and their findings one after the other. -/
theorem run_eq (m : Model) (es : List Emitter) (o : Output) :
    es.foldl (step m (.of m)) o = ⟨insertAll (es.flatMap fun e => e.writes m) o.files,
      o.diagnostics ++ es.flatMap fun e => e.findings m⟩ := by
  induction es generalizing o with
  | nil => simp [insertAll]
  | cons e es ih =>
    rw [List.foldl_cons, ih, step_eq, List.flatMap_cons, List.flatMap_cons, ← List.append_assoc]
    simp only [insertAll, List.foldl_append]

/-- The output of a run is what its writes leave, with the findings of all emitters. -/
theorem generate_eq (g : Generator) (m : Model) :
    g.generate m = ⟨insertAll (g.writes m) [],
      (SymbolTable.build m).2 ++ g.emitters.flatMap fun e => e.findings m⟩ :=
  run_eq m g.emitters { diagnostics := (SymbolTable.build m).2 }

/-- At each path the last write counts. -/
theorem generate_file? (g : Generator) (m : Model) (path : String) :
    (g.generate m).file? path = (g.writes m).reverse.lookup path := by
  rw [generate_eq, Output.file?, lookup_insertAll]
  exact Option.or_none

theorem mem_writes_of_mem_files {g : Generator} {m : Model} {f : String × String}
    (h : f ∈ (g.generate m).files) : f ∈ g.writes m := by
  rw [generate_eq] at h
  exact insertAll_subset (g.writes m) [] h

/-- Emitters with one file each, under different names, do not meet: at the name of an emitter stands
what this emitter writes. -/
theorem generate_file?_of_oneFile {g : Generator} {m : Model}
    (hone : ∀ e ∈ g.emitters, e.OneFile) (hnames : (g.emitters.map Emitter.filename).Nodup)
    {e : Emitter} (he : e ∈ g.emitters) :
    (g.generate m).file? e.filename = (e.writes m).reverse.lookup e.filename := by
  obtain ⟨before, after, hsplit⟩ := List.append_of_mem he
  rw [hsplit, List.map_append, List.map_cons, List.nodup_middle, List.nodup_cons,
    ← List.map_append] at hnames
  -- Nobody but the emitter writes to its path.
  have hother : ∀ es ⊆ before ++ after,
      (es.flatMap fun f => f.writes m).reverse.lookup e.filename = none := by
    intro es hes
    refine List.lookup_eq_none_iff.mpr fun w hw => bne_iff_ne.mpr fun hpath => hnames.1 ?_
    obtain ⟨f, hf, hwf⟩ := List.mem_flatMap.mp (List.mem_reverse.mp hw)
    have hfg : f ∈ g.emitters := by
      rw [hsplit]
      exact (List.perm_middle.mem_iff).mpr (List.mem_cons_of_mem e (hes hf))
    rw [hpath, (hone f hfg).path_eq hwf]
    exact List.mem_map_of_mem (hes hf)
  rw [generate_file?, writes, hsplit, List.flatMap_append, List.flatMap_cons, List.reverse_append,
    List.reverse_append, List.lookup_append, List.lookup_append,
    hother before (List.subset_append_left before after),
    hother after (List.subset_append_right before after), Option.none_or, Option.or_none]

/-- Repeated targets are dropped behind their first place. -/
theorem distinctTargets_eq_eraseDups (ts : List Target) : distinctTargets ts = ts.eraseDups := by
  -- What has been seen stands first, and is not looked for in the rest.
  have hfold (ts seen : List Target) :
      ts.foldl (fun seen t => if seen.contains t then seen else seen ++ [t]) seen =
        seen ++ (ts.filter fun t => !seen.contains t).eraseDups := by
    induction ts generalizing seen with
    | nil => simp
    | cons t ts ih =>
      rw [List.foldl_cons, ih]
      cases ht : seen.contains t with
      | true => rw [if_pos rfl, List.filter_cons_of_neg (by simp only [ht]; decide)]
      | false =>
        simp only [ht, Bool.false_eq_true, if_false, Bool.not_false, List.filter_cons_of_pos,
          List.eraseDups_cons, List.filter_filter, List.append_assoc, List.singleton_append]
        congr 3
        apply List.filter_congr
        intro u _
        simp [beq_eq_decide, Bool.and_comm]
  rw [distinctTargets, hfold]
  simp

theorem distinctTargets_nodup (ts : List Target) : (distinctTargets ts).Nodup := by
  have hfold (ts seen : List Target) (h : seen.Nodup) :
      (ts.foldl (fun seen t => if seen.contains t then seen else seen ++ [t]) seen).Nodup := by
    induction ts generalizing seen with
    | nil => exact h
    | cons t ts ih =>
      rw [List.foldl_cons]
      split
      · exact ih seen h
      · rename_i ht
        have hnew : t ∉ seen := fun hm => ht (List.contains_iff_mem.mpr hm)
        exact ih _ (List.nodup_append_comm.mp (List.nodup_cons.mpr ⟨hnew, h⟩))
  exact hfold ts [] List.nodup_nil

end Generator

def Emitter.standard : Target → Emitter
  | .proto => .proto "schema.proto" .singleFile
  | .graphql => .graphql "schema.graphql"
  | .openapi => .openapi "openapi.yaml" {}

namespace Generator

theorem standard_oneFile (t : Target) : (Emitter.standard t).OneFile := by
  cases t <;> trivial

theorem standard_filename (t : Target) : (Emitter.standard t).filename = defaultFilename t {} := by
  cases t <;> rfl

theorem defaultFilename_injective : Function.Injective fun t => defaultFilename t {} := by
  intro s t
  cases s <;> cases t <;> decide

/-- For any targets there is one emitter each, in the order of their first places. -/
theorem forTargets_eq (ts : List Target) :
    forTargets ts = .ok ⟨ts.eraseDups.map Emitter.standard⟩ := by
  have hcreate (t : Target) :
      Emitter.create t { output := { targets := ts } } = .ok (.standard t) := by
    cases t with
    | proto => rfl
    | graphql => rfl
    | openapi => exact if_pos (by decide : Text.startsWith "3.0.0" "3." = true)
  have hall : List.Forall₂ (fun t e => Emitter.create t { output := { targets := ts } } = .ok e)
      ts.eraseDups (ts.eraseDups.map Emitter.standard) :=
    List.forall₂_map_right_iff.mpr (List.forall₂_same.mpr fun t _ => hcreate t)
  rw [forTargets, create, distinctTargets_eq_eraseDups, mapM_of_forall₂ hall]
  rfl

theorem standard_filenames_nodup {ts : List Target} (h : ts.Nodup) :
    ((ts.map Emitter.standard).map Emitter.filename).Nodup := by
  rw [List.map_map]
  refine h.map fun s t hst => defaultFilename_injective ?_
  simpa only [Function.comp_apply, standard_filename] using hst

/-- At the name of a target stands what its emitter writes, whatever other targets there are. -/
theorem generate_standard_file? {ts : List Target} (hts : ts.Nodup) {t : Target} (ht : t ∈ ts)
    (m : Model) :
    (generate ⟨ts.map Emitter.standard⟩ m).file? (defaultFilename t {}) =
      ((Emitter.standard t).writes m).reverse.lookup (defaultFilename t {}) := by
  have hone : ∀ e ∈ ts.map Emitter.standard, e.OneFile := by
    intro e he
    obtain ⟨u, _, rfl⟩ := List.mem_map.mp he
    exact standard_oneFile u
  rw [← standard_filename t]
  exact generate_file?_of_oneFile hone (standard_filenames_nodup hts) (List.mem_map_of_mem ht)

/-- Targets are independent under default settings, in any order and with repetitions. At the name of a
target stands the same as in a run over this target alone, no other file is made, and the findings are
those about repeated declarations, followed by what each target adds in its own run, in the order of
first occurrence. -/
theorem forTargets_independent (m : Model) (ts : List Target) :
    ∃ (g : Generator) (single : Target → Generator),
      forTargets ts = .ok g ∧ (∀ t, forTargets [t] = .ok (single t)) ∧
      (∀ t ∈ ts, (g.generate m).file? (defaultFilename t {}) =
        ((single t).generate m).file? (defaultFilename t {})) ∧
      (∀ f ∈ (g.generate m).files, ∃ t ∈ ts, f.1 = defaultFilename t {}) ∧
      ∃ own : Target → List Diagnostic,
        (∀ t, ((single t).generate m).diagnostics = (SymbolTable.build m).2 ++ own t) ∧
        (g.generate m).diagnostics = (SymbolTable.build m).2 ++ ts.eraseDups.flatMap own := by
  have hsingle (t : Target) : forTargets [t] = .ok ⟨[t].map Emitter.standard⟩ := forTargets_eq [t]
  refine ⟨_, fun t => ⟨[t].map Emitter.standard⟩, forTargets_eq ts, hsingle, fun t ht => ?_,
    fun f hf => ?_, fun t => (Emitter.standard t).findings m, fun t => ?_, ?_⟩
  · have hnodup : ts.eraseDups.Nodup := distinctTargets_eq_eraseDups ts ▸ distinctTargets_nodup ts
    rw [generate_standard_file? hnodup (List.mem_eraseDups.mpr ht),
      generate_standard_file? (List.nodup_singleton t) (List.mem_singleton_self t)]
  · obtain ⟨e, he, hw⟩ := List.mem_flatMap.mp (mem_writes_of_mem_files hf)
    obtain ⟨t, ht, rfl⟩ := List.mem_map.mp he
    refine ⟨t, List.mem_eraseDups.mp ht, ?_⟩
    rw [(standard_oneFile t).path_eq hw, standard_filename]
  · rw [generate_eq]
    simp
  · rw [generate_eq, List.flatMap_map]

def visitors : Model :=
  -- Two declarations that only GraphQL gives one name, and a reference that only OpenAPI cannot
  -- find.
  { ns := "gate"
    types :=
      [{ name := "Visitor", ns := "gate"
         fields := [{ name := "name", type := .named "string" false },
           { name := "photo", type := .named "Photo" false, excludeFrom := [.proto, .graphql] }] },
       { name := "Visitor", ns := "desk"
         annotations := { Annotations.none with
           proto := { Annotations.none.proto with name := some "DeskVisitor" }
           openapi := { Annotations.none.openapi with name := some "DeskVisitor" } } }] }

theorem forTargets_visitors :
    Target.proto ∈ [Target.openapi, .graphql, .openapi, .proto] ∧
      ∃ (g : Generator) (single : Target → Generator),
        forTargets [.openapi, .graphql, .openapi, .proto] = .ok g ∧
        (∀ t, forTargets [t] = .ok (single t)) ∧
        (g.generate visitors).file? "schema.proto" =
          ((single .proto).generate visitors).file? "schema.proto" ∧
        ∃ own : Target → List Diagnostic,
          (∀ t, ((single t).generate visitors).diagnostics = own t) ∧
          (g.generate visitors).diagnostics = own .openapi ++ own .graphql ++ own .proto := by
  have ht : Target.proto ∈ [Target.openapi, .graphql, .openapi, .proto] := by decide
  obtain ⟨g, single, hg, hsingle, hfile, _, own, hown, hall⟩ :=
    forTargets_independent visitors [.openapi, .graphql, .openapi, .proto]
  have hbuild : (SymbolTable.build visitors).2 = [] := by decide +kernel
  have hdedup : [Target.openapi, .graphql, .openapi, .proto].eraseDups =
      [.openapi, .graphql, .proto] := by decide
  rw [hdedup] at hall
  simp only [hbuild, List.nil_append, List.flatMap_cons, List.flatMap_nil, List.append_nil] at hown hall
  exact ⟨ht, g, single, hg, hsingle, hfile .proto ht, own, hown, by rw [hall, List.append_assoc]⟩

end Generator

end Triglot
