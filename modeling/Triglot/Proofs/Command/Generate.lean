import Triglot.Command.Run
import Triglot.Proofs.Generator
import Triglot.Proofs.Workspace.Writing

/-! Generation from the command line. The model is checked under the settings with which it is generated,
so in the layouts without namespaces a run that has begun to write does not tell an error. -/
namespace Triglot

namespace Command

variable {fs : FileSystem} {path : String} {out : Option String} {targets : List Target}
  {splitProto : Bool} {l : Loaded} {g : Generator}

def outputDirectory (fs : FileSystem) (path : String) (out : Option String) (s : Settings) : String :=
  out.getD (Path.join (modelDirectory fs path) s.output.directory)

/-- Why nothing is generated: there is no model, a finding about it is an error, or the settings cannot
be used. -/
inductive Refused (fs : FileSystem) (path : String) (targets : List Target) (splitProto : Bool) : Prop
  | unloaded {e : LoadError} : load fs path = .error e → Refused fs path targets splitProto
  | faulty {l : Loaded} {d : Diagnostic} : load fs path = .ok l →
      d ∈ (fullReport l (overridden l.settings targets splitProto)).entries → d.isError = true →
      Refused fs path targets splitProto
  | unusable {l : Loaded} {e : EmitError} : load fs path = .ok l →
      Generator.create (overridden l.settings targets splitProto) = .error e →
      Refused fs path targets splitProto

structure Ready (fs : FileSystem) (path : String) (targets : List Target) (splitProto : Bool)
    (l : Loaded) (g : Generator) : Prop where
  loaded : load fs path = .ok l
  harmless : Harmless (fullReport l (overridden l.settings targets splitProto)).entries
  created : Generator.create (overridden l.settings targets splitProto) = .ok g

theorem Ready.not_refused (h : Ready fs path targets splitProto l g) :
    ¬ Refused fs path targets splitProto := by
  rintro (hload | ⟨hload, hd, herror⟩ | ⟨hload, hcreate⟩)
  · rw [h.loaded] at hload
    cases hload
  · rw [h.loaded] at hload
    cases hload
    exact h.harmless.not_mem_of_isError herror hd
  · rw [h.loaded] at hload
    cases hload
    rw [h.created] at hcreate
    cases hcreate

/-- The check before generation is that for the targets and the layout of the generator. -/
theorem Ready.generate_harmless (h : Ready fs path targets splitProto l g)
    (hsplit : (overridden l.settings targets splitProto).proto.splitByNamespace = false) :
    Harmless (g.generate l.model).diagnostics := by
  obtain ⟨_, hvalid⟩ := harmless_append.mp h.harmless
  have ha := Validation.accepted_of_ok ((Report.ok_iff _).mpr hvalid)
  exact Generator.generate_harmless ha hsplit (List.Subset.refl _) hsplit h.created

theorem append_ne_empty (s : String) {t : String} (h : t ≠ "") : s ++ t ≠ "" :=
  fun he => h (String.append_eq_empty_iff.mp he).2

/-- Generation refuses, telling why and leaving the files, or writes the output of a model that is
ready. -/
theorem runGenerate_cases (fs : FileSystem) (path : String) (out : Option String)
    (targets : List Target) (splitProto : Bool) :
    (Refused fs path targets splitProto ∧
      ∃ shown told, told ≠ "" ∧ runGenerate fs path out targets splitProto =
        { code := 1, out := shown, err := told, files := fs }) ∨
    ∃ l g before, Ready fs path targets splitProto l g ∧
      runGenerate fs path out targets splitProto =
        writeOutput fs (outputDirectory fs path out (overridden l.settings targets splitProto))
          (g.generate l.model) before := by
  unfold runGenerate
  dsimp only
  split
  · rename_i e hload
    exact .inl ⟨.unloaded hload, _, _, append_ne_empty _ (by decide), rfl⟩
  · rename_i l hload
    split
    · rename_i herrors
      refine .inl ⟨?_, _, _, append_ne_empty _ (by decide), rfl⟩
      obtain ⟨d, hd, herror⟩ := List.countP_pos_iff.mp herrors
      exact .faulty hload hd herror
    · rename_i herrors
      have hharmless := (Report.count_error_eq_zero_iff _).mp (Nat.eq_zero_of_not_pos herrors)
      split
      · rename_i e hcreate
        exact .inl ⟨.unusable hload hcreate, _, _, append_ne_empty _ (by decide), rfl⟩
      · rename_i g hcreate
        exact .inr ⟨l, g, _, ⟨hload, hharmless, hcreate⟩, rfl⟩

/-- In the layouts without namespaces, generation refuses and leaves the files as they are, or writes
all of its output, tells no error and succeeds. -/
theorem runGenerate_all_or_nothing (fs : FileSystem) (path : String) (out : Option String)
    (targets : List Target) (splitProto : Bool) (hcurrent : fs.isDirectory "." = true)
    (hsplit : ∀ l, load fs path = .ok l →
      (overridden l.settings targets splitProto).proto.splitByNamespace = false)
    (hwrites : ∀ l g, Ready fs path targets splitProto l g →
      (FileSystem.writeAll
        (outputDirectory fs path out (overridden l.settings targets splitProto))
        (g.generate l.model).files fs).2 = none) :
    (Refused fs path targets splitProto ∧
      (runGenerate fs path out targets splitProto).files = fs ∧
      (runGenerate fs path out targets splitProto).code = 1 ∧
      (runGenerate fs path out targets splitProto).err ≠ "") ∨
    (¬ Refused fs path targets splitProto ∧
      (runGenerate fs path out targets splitProto).code = 0 ∧
      (runGenerate fs path out targets splitProto).err = "" ∧
      ∃ l g, Ready fs path targets splitProto l g ∧
        (∀ d ∈ (g.generate l.model).diagnostics, d.severity ≠ .error) ∧
        fs.Written (runGenerate fs path out targets splitProto).files
          (outputDirectory fs path out (overridden l.settings targets splitProto))
          (g.generate l.model).files) := by
  rcases runGenerate_cases fs path out targets splitProto with
    ⟨hrefused, shown, told, htold, hrun⟩ | ⟨l, g, before, hready, hrun⟩
  · rw [hrun]
    exact .inl ⟨hrefused, rfl, rfl, htold⟩
  · have hharmless := hready.generate_harmless (hsplit l hready.loaded)
    have hok : (g.generate l.model).report.ok = true := (Report.ok_iff _).mpr hharmless
    obtain ⟨fs', hwrite⟩ : ∃ fs', FileSystem.writeAll _ (g.generate l.model).files fs = (fs', none) :=
      ⟨_, Prod.ext rfl (hwrites l g hready)⟩
    have hwritten := FileSystem.written_of_writeAll (FileSystem.grounded_of_isDirectory hcurrent) hwrite
    have houtcome : (runGenerate fs path out targets splitProto).code = 0 ∧
        (runGenerate fs path out targets splitProto).err = "" ∧
        (runGenerate fs path out targets splitProto).files = fs' := by
      rw [hrun, writeOutput, hwrite]
      exact ⟨if_pos hok, rfl, rfl⟩
    obtain ⟨hcode, herr, hfiles⟩ := houtcome
    refine .inr ⟨hready.not_refused, hcode, herr, l, g, hready, fun d hd herror => ?_, ?_⟩
    · have hd := hharmless d hd
      simp [Diagnostic.isError, herror] at hd
    · rw [hfiles]
      exact hwritten

def shopFiles : FileSystem :=
  (FileSystem.bare ["work"]).place "shop.json"
    (some "\x7b\"types\": [\x7b\"name\": \"Item\", \"fields\": []\x7d]\x7d")

theorem runGenerate_shopFiles :
    shopFiles.isDirectory "." = true ∧ ¬ Refused shopFiles "shop.json" [] false ∧
      (runGenerate shopFiles "shop.json" (some "out") [] false).code = 0 ∧
      ∃ l g, Ready shopFiles "shop.json" [] false l g ∧
        (g.generate l.model).files.map Prod.fst =
          ["openapi.yaml", "schema.graphql", "schema.proto"] ∧
        shopFiles.Written (runGenerate shopFiles "shop.json" (some "out") [] false).files "out"
          (g.generate l.model).files := by
  have hcurrent : shopFiles.isDirectory "." = true := by decide +kernel
  have hcode : (runGenerate shopFiles "shop.json" (some "out") [] false).code = 0 := by
    decide +kernel
  have hload : (load shopFiles "shop.json").toOption.map (fun l =>
      ((overridden l.settings [] false).proto.splitByNamespace,
        (Generator.create (overridden l.settings [] false)).toOption.map fun g =>
          ((g.generate l.model).files.map Prod.fst,
            (FileSystem.writeAll "out" (g.generate l.model).files shopFiles).2))) =
      some (false, some (["openapi.yaml", "schema.graphql", "schema.proto"], none)) := by
    decide +kernel
  obtain ⟨l, hl, hfound⟩ := exists_ok_of_toOption hload
  obtain ⟨hsplit, hcreate⟩ := Prod.mk.inj hfound
  obtain ⟨g, hg, hout⟩ := exists_ok_of_toOption hcreate
  obtain ⟨hpaths, hwrites⟩ := Prod.mk.inj hout
  -- What is loaded and made is told by the run above, so it is the same whoever asks.
  have honly {l' : Loaded} {g' : Generator} (h : Ready shopFiles "shop.json" [] false l' g') :
      l' = l ∧ g' = g := by
    obtain rfl : l' = l := Except.ok.inj (h.loaded.symm.trans hl)
    exact ⟨rfl, Except.ok.inj (h.created.symm.trans hg)⟩
  rcases runGenerate_all_or_nothing shopFiles "shop.json" (some "out") [] false hcurrent
      (fun l' hl' => by rwa [Except.ok.inj (hl'.symm.trans hl)])
      (fun l' g' h => by
        obtain ⟨rfl, rfl⟩ := honly h
        exact hwrites) with
    ⟨_, _, hfailed, _⟩ | ⟨hready, _, _, l', g', h, _, hwritten⟩
  · rw [hcode] at hfailed
    cases hfailed
  · obtain ⟨rfl, rfl⟩ := honly h
    exact ⟨hcurrent, hready, hcode, l', g', h, hpaths, hwritten⟩

end Command

end Triglot
