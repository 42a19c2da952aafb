import Triglot.Proofs.Namespace.ImportPath
import Triglot.Proofs.Output.Run
import Triglot.Proofs.Proto.Imports

/-! Which files of a run can be found in its output. A later write to a path takes the place of an earlier
one, and no two writes to one path have the same text: those of different targets begin differently,
and those of two namespaces name different packages. So all files are kept exactly if paths differ. -/
namespace Triglot

def textHead (s : String) : List Char := s.toList.take 3

theorem textHead_append {a : String} (h : 3 ≤ a.toList.length) (b : String) :
    textHead (a ++ b) = textHead a := by
  rw [textHead, String.toList_append, List.take_append_of_le_length h, textHead]

theorem Json.pretty_object_head (key : String) (value : Json) (es : List (String × Json)) :
    ∃ rest, Json.pretty (.object ((key, value) :: es)) = "\x7b\n  " ++ rest := by
  have hentries : ∃ rest, Json.prettyEntries 1 ((key, value) :: es) = "  " ++ rest := by
    cases es with
    | nil =>
      simp only [Json.prettyEntries, String.append_assoc]
      exact ⟨_, rfl⟩
    | cons e es =>
      simp only [Json.prettyEntries, String.append_assoc]
      exact ⟨_, rfl⟩
  obtain ⟨rest, hrest⟩ := hentries
  simp only [Json.pretty, Json.prettyAt, hrest]
  refine ⟨rest ++ "\n" ++ indentation 0 ++ "\x7d", ?_⟩
  simp only [← String.append_assoc]
  rfl

namespace Proto

theorem File.render_eq (f : File) :
    ∃ rest, f.render = "syntax = \"proto3\";" ++ ("\n\n" ++ ("package " ++ (f.package ++ rest))) := by
  simp only [File.render, File.sections, List.cons_append, List.append_assoc,
    String.intercalate_cons_cons, String.intercalate_cons_append, String.append_assoc]
  exact ⟨_, rfl⟩

theorem File.render_head (f : File) : textHead f.render = ['s', 'y', 'n'] := by
  obtain ⟨rest, hrest⟩ := f.render_eq
  rw [hrest, textHead_append (by decide)]
  decide

theorem failureDocument_head (layout : Layout) (e : EmitError) :
    textHead (failureDocument layout e) = ['/', '/', ' '] := by
  unfold failureDocument
  simp only [String.append_assoc]
  rw [textHead_append (by decide)]
  decide

/-- Files of different packages differ, if the names of the packages are of one length. -/
theorem package_eq_of_render_eq {f g : File} (h : f.render = g.render)
    (hlength : f.package.toList.length = g.package.toList.length) : f.package = g.package := by
  obtain ⟨rest, hrest⟩ := f.render_eq
  obtain ⟨rest', hrest'⟩ := g.render_eq
  rw [hrest, hrest', String.append_right_inj, String.append_right_inj, String.append_right_inj] at h
  have hchars := congrArg String.toList h
  rw [String.toList_append, String.toList_append] at hchars
  exact String.toList_inj.mp (List.append_inj_left hchars hlength)

/-- Files by namespace with the same path have different texts. -/
theorem emit_perNamespace_texts {m : Model} {filename : String} {emission : Emission}
    (h : emit .perNamespace filename m (.of m) = .ok emission) :
    emission.files.Pairwise fun f g => f.1 = g.1 → f.2 ≠ g.2 := by
  obtain ⟨files, hfiles, rfl⟩ := map_eq_ok h
  have hall := renderByNamespace_eq_ok hfiles
  -- The package of a file is the namespace that it stands for.
  have hpackage : ∀ p ∈ files, effectiveNamespace p.1 = p.1 ∧ p.2.file.package = p.1 := by
    intro p hp
    obtain ⟨key, hkey, rfl, hf⟩ := exists_of_mem_forall₂ hall.flip hp
    obtain ⟨_, _, hf⟩ := bind_eq_ok hf
    obtain ⟨_, _, hf⟩ := bind_eq_ok hf
    obtain ⟨_, _, hf⟩ := bind_eq_ok hf
    exact ⟨Model.effectiveNamespace_of_mem_namespaces hkey,
      (congrArg File.package (Except.ok.inj hf)).symm⟩
  have hdistinct : files.Pairwise fun p q => p.1 ≠ q.1 := by
    apply List.pairwise_map.mp
    rw [renderByNamespace_keys hfiles]
    exact (sortedTexts_increasing _).imp ne_of_lt
  refine List.pairwise_map.mpr (hdistinct.imp_of_mem fun {p q} hp hq hne hpath htext => hne ?_)
  obtain ⟨hpkey, hppack⟩ := hpackage p hp
  obtain ⟨hqkey, hqpack⟩ := hpackage q hq
  have hlength := length_eq_of_importPath_eq hpath
  rw [hpkey, hqkey, ← hppack, ← hqpack] at hlength
  rw [← hppack, ← hqpack]
  exact package_eq_of_render_eq htext hlength

end Proto

namespace Graphql

theorem Document.render_head (d : Document) : textHead d.render = ['#', ' ', 'G'] := by
  have hheader : ∃ rest, d.header = "# Generated GraphQL Schema" ++ rest := by
    unfold header
    split
    · exact ⟨"", rfl⟩
    · exact ⟨"\n# Namespace: " ++ d.ns, by rw [← String.append_assoc]; rfl⟩
  obtain ⟨rest, hrest⟩ := hheader
  rw [render, sections]
  simp only [List.cons_append, List.append_assoc, hrest, String.intercalate_cons_append,
    String.append_assoc]
  rw [textHead_append (by decide)]
  decide

theorem failureDocument_head (e : EmitError) :
    textHead (failureDocument e) = ['#', ' ', 'E'] := by
  simp only [failureDocument, String.append_assoc]
  rw [textHead_append (by decide)]
  decide

end Graphql

namespace OpenApi

theorem fileText_head (d : Document) (format : DocumentFormat) :
    textHead (fileText d format) = match format with
      | .yaml => ['o', 'p', 'e']
      | .json => ['\x7b', '\n', ' '] := by
  cases format with
  | yaml =>
    have hkey : Yaml.keyChars 0 "openapi" = "openapi:".toList := by decide +kernel
    unfold fileText Document.render Document.encode Yaml.write
    dsimp only
    unfold Yaml.mappingChars
    rw [hkey, textHead, String.toList_ofList]
    simp
  | json =>
    obtain ⟨rest, hrest⟩ := Json.pretty_object_head "openapi" (.string d.version) _
    unfold fileText Document.render Document.encode
    dsimp only
    rw [hrest, String.append_assoc, textHead_append (by decide)]
    decide

theorem failureDocument_head (format : DocumentFormat) (e : EmitError) :
    textHead (failureDocument format e) = match format with
      | .yaml => ['#', ' ', 'E']
      | .json => ['\x7b', '\n', ' '] := by
  cases format with
  | yaml =>
    simp only [failureDocument, String.append_assoc]
    rw [textHead_append (by decide)]
    decide
  | json =>
    obtain ⟨rest, hrest⟩ := Json.pretty_object_head "error" (.string e.message) []
    unfold failureDocument
    dsimp only
    rw [hrest, String.append_assoc, textHead_append (by decide)]
    decide

end OpenApi

namespace Emitter

variable {e e' : Emitter} {m : Model} {emission : Emission}

def fileHead : Emitter → List Char
  | .proto _ _ => ['s', 'y', 'n']
  | .graphql _ => ['#', ' ', 'G']
  | .openapi _ ⟨_, .yaml⟩ => ['o', 'p', 'e']
  | .openapi _ ⟨_, .json⟩ => ['\x7b', '\n', ' ']

def failureHead : Emitter → List Char
  | .proto _ _ => ['/', '/', ' ']
  | .graphql _ => ['#', ' ', 'E']
  | .openapi _ ⟨_, .yaml⟩ => ['#', ' ', 'E']
  | .openapi _ ⟨_, .json⟩ => ['\x7b', '\n', ' ']

theorem head_of_mem_files {table : SymbolTable} (h : e.emit m table = .ok emission)
    {f : String × String} (hf : f ∈ emission.files) : textHead f.2 = e.fileHead := by
  cases e with
  | proto filename layout =>
    cases layout with
    | singleFile =>
      obtain ⟨r, _, rfl⟩ := map_eq_ok h
      rw [List.mem_singleton.mp hf]
      exact r.file.render_head
    | perNamespace =>
      obtain ⟨rs, _, rfl⟩ := map_eq_ok h
      obtain ⟨r, _, rfl⟩ := List.mem_map.mp hf
      exact r.2.file.render_head
  | graphql filename =>
    obtain ⟨r, _, rfl⟩ := map_eq_ok h
    rw [List.mem_singleton.mp hf]
    exact r.document.render_head
  | openapi filename settings =>
    obtain ⟨version, format⟩ := settings
    unfold emit OpenApi.emit at h
    dsimp only at h
    split at h
    · cases h
      rw [List.mem_singleton.mp hf]
      cases format with
      | yaml => exact OpenApi.fileText_head _ .yaml
      | json => exact OpenApi.fileText_head _ .json
    · cases h

theorem head_of_failureDocument (e : Emitter) (error : EmitError) :
    textHead (e.failureDocument error) = e.failureHead := by
  cases e with
  | proto filename layout => exact Proto.failureDocument_head layout error
  | graphql filename => exact Graphql.failureDocument_head error
  | openapi filename settings =>
    obtain ⟨version, format⟩ := settings
    cases format <;> exact OpenApi.failureDocument_head _ error

/-- All that an emitter writes begins as its files or as its failures do. -/
theorem head_of_mem_writes {w : String × String} (hw : w ∈ e.writes m) :
    textHead w.2 = e.fileHead ∨ textHead w.2 = e.failureHead := by
  unfold writes at hw
  split at hw
  · rename_i emission hem
    exact .inl (head_of_mem_files hem hw)
  · split at hw
    · rw [List.mem_singleton.mp hw]
      exact .inr (e.head_of_failureDocument _)
    · cases hw

/-- No text of one target begins as the files of another do. -/
theorem fileHead_ne (h : e.target ≠ e'.target) :
    e'.fileHead ≠ e.fileHead ∧ e'.failureHead ≠ e.fileHead := by
  rcases e with _ | _ | ⟨_, _, _ | _⟩ <;> rcases e' with _ | _ | ⟨_, _, _ | _⟩ <;>
    simp_all [target, fileHead, failureHead]

/-- No other target writes the text of a file. -/
theorem text_ne_of_target_ne (ht : e.target ≠ e'.target) (h : e.emit m (.of m) = .ok emission)
    {f w : String × String} (hf : f ∈ emission.files) (hw : w ∈ e'.writes m) : w.2 ≠ f.2 := by
  intro htext
  have hhead := head_of_mem_files h hf
  rw [← htext] at hhead
  rcases head_of_mem_writes hw with hw | hw
  · exact (fileHead_ne ht).1 (hw.symm.trans hhead)
  · exact (fileHead_ne ht).2 (hw.symm.trans hhead)

/-- Files of one emitter with the same path have different texts. -/
theorem files_texts (h : e.emit m (.of m) = .ok emission) :
    emission.files.Pairwise fun f g => f.1 = g.1 → f.2 ≠ g.2 := by
  have hone (ho : e.OneFile) : emission.files.Pairwise fun f g => f.1 = g.1 → f.2 ≠ g.2 := by
    obtain ⟨text, hfiles⟩ := ho.files_eq h
    rw [hfiles]
    exact List.pairwise_singleton _ _
  cases e with
  | proto filename layout =>
    cases layout with
    | singleFile => exact hone rfl
    | perNamespace => exact @Proto.emit_perNamespace_texts m filename emission h
  | graphql filename => exact hone trivial
  | openapi filename settings => exact hone trivial

def paths (e : Emitter) (m : Model) : List String := (e.writes m).map Prod.fst

/-- An emitter writes to its own name or, by namespace, to the paths of namespaces. -/
theorem mem_paths {path : String} (h : path ∈ e.paths m) :
    path = e.filename ∨
      (e.target = .proto ∧ ∃ ns ∈ m.namespaces, path = importPath ns "proto") := by
  obtain ⟨w, hw, rfl⟩ := List.mem_map.mp h
  cases hem : e.emit m (.of m) with
  | error error =>
    simp only [writes, hem] at hw
    split at hw
    · exact .inl (by rw [List.mem_singleton.mp hw])
    · cases hw
  | ok emission =>
    have hone (ho : e.OneFile) : w.1 = e.filename := ho.path_eq hw
    cases e with
    | proto filename layout =>
      cases layout with
      | singleFile => exact .inl (hone rfl)
      | perNamespace =>
        rw [writes_of_emit hem] at hw
        have hpaths := List.mem_map_of_mem (f := Prod.fst) hw
        rw [@Proto.emit_perNamespace_paths m filename emission hem] at hpaths
        obtain ⟨ns, hns, hpath⟩ := List.mem_map.mp hpaths
        exact .inr ⟨rfl, ns, hns, hpath.symm⟩
    | graphql filename => exact .inl (hone trivial)
    | openapi filename settings => exact .inl (hone trivial)

end Emitter

namespace Generator

variable {g : Generator} {m : Model}

def KeepsFiles (g : Generator) (m : Model) : Prop :=
  ∀ e ∈ g.emitters, ∀ emission, e.emit m (.of m) = .ok emission →
    ∀ f ∈ emission.files, (g.generate m).file? f.1 = some f.2

/-- The files of an emitter have different paths, and no later emitter writes to one of them. -/
structure PathsApart (g : Generator) (m : Model) : Prop where
  within : ∀ e ∈ g.emitters, Succeeds (e.emit m (.of m)) → (e.paths m).Nodup
  between : g.emitters.Pairwise fun e e' =>
    Succeeds (e.emit m (.of m)) → (e.paths m).Disjoint (e'.paths m)

/-- Files with paths of their own are found in the output. -/
theorem PathsApart.keepsFiles (h : g.PathsApart m) : g.KeepsFiles m := by
  intro e he emission hem f hf
  obtain ⟨before, after, hsplit⟩ := List.append_of_mem he
  obtain ⟨earlier, later, hfiles⟩ := List.append_of_mem hf
  have hwrites : e.writes m = earlier ++ f :: later := (Emitter.writes_of_emit hem).trans hfiles
  have hwithin : f.1 ∉ later.map Prod.fst := by
    have hnodup := h.within e he ⟨emission, hem⟩
    rw [Emitter.paths, hwrites, List.map_append, List.map_cons] at hnodup
    exact (List.nodup_cons.mp hnodup.of_append_right).1
  have hbetween : ∀ e' ∈ after, f.1 ∉ e'.paths m := by
    have hpairs := h.between
    rw [hsplit] at hpairs
    intro e' he' hpath
    have hd := (List.pairwise_cons.mp (List.pairwise_append.mp hpairs).2.1).1 e' he' ⟨emission, hem⟩
    refine hd (List.mem_map_of_mem (f := Prod.fst) ?_) hpath
    rw [hwrites]
    simp
  -- So nothing that is written after the file has its path.
  have hlast : ∀ w ∈ later ++ after.flatMap (fun e => e.writes m), w.1 ≠ f.1 := by
    intro w hw hpath
    rcases List.mem_append.mp hw with hw | hw
    · exact hwithin (hpath ▸ List.mem_map_of_mem hw)
    · obtain ⟨e', he', hw⟩ := List.mem_flatMap.mp hw
      exact hbetween e' he' (hpath ▸ List.mem_map_of_mem hw)
  have hall : g.writes m = (before.flatMap (fun e => e.writes m) ++ earlier) ++
      (f.1, f.2) :: (later ++ after.flatMap fun e => e.writes m) := by
    rw [writes, hsplit, List.flatMap_append, List.flatMap_cons, hwrites]
    simp only [List.append_assoc, List.cons_append]
  rw [generate_file?, hall]
  exact lookup_reverse_of_last hlast f.2

/-- If all files are kept, no later emitter writes to the path of one: its text would be found there. -/
theorem KeepsFiles.disjoint (h : g.KeepsFiles m) (ht : g.targets.Nodup) {before after : List Emitter}
    (hsplit : g.emitters = before ++ after) {e e' : Emitter} (he : e ∈ before) (he' : e' ∈ after)
    (hs : Succeeds (e.emit m (.of m))) : (e.paths m).Disjoint (e'.paths m) := by
  obtain ⟨emission, hem⟩ := hs
  intro path hp hp'
  rw [Emitter.paths, Emitter.writes_of_emit hem] at hp
  obtain ⟨f, hf, rfl⟩ := List.mem_map.mp hp
  obtain ⟨w, hw, hpath⟩ := List.mem_map.mp hp'
  have hfile := h e (hsplit ▸ List.mem_append_left after he) emission hem f hf
  rw [generate_file?, writes, hsplit, List.flatMap_append, List.reverse_append,
    List.lookup_append] at hfile
  -- Some later write has this path, and the last one of these is what is found.
  cases hlater : (after.flatMap fun e => e.writes m).reverse.lookup f.1 with
  | none =>
    have hw' : w ∈ (after.flatMap fun e => e.writes m).reverse :=
      List.mem_reverse.mpr (List.mem_flatMap.mpr ⟨e', he', hw⟩)
    exact bne_iff_ne.mp (List.lookup_eq_none_iff.mp hlater w hw') hpath.symm
  | some text =>
    rw [hlater, Option.some_or] at hfile
    cases hfile
    obtain ⟨e'', he'', hw''⟩ := List.mem_flatMap.mp (List.mem_reverse.mp (mem_of_lookup hlater))
    have hne : e.target ≠ e''.target := by
      rw [targets, hsplit, List.map_append] at ht
      intro heq
      exact List.disjoint_of_nodup_append ht (List.mem_map_of_mem he)
        (heq ▸ List.mem_map_of_mem he'')
    exact Emitter.text_ne_of_target_ne hne hem hf hw'' rfl

/-- If all files are found in the output, their paths are apart, since texts of different targets
differ. -/
theorem KeepsFiles.pathsApart (h : g.KeepsFiles m) (ht : g.targets.Nodup) : g.PathsApart m where
  within := by
    rintro e he ⟨emission, hem⟩
    rw [Emitter.paths, Emitter.writes_of_emit hem]
    refine List.pairwise_map.mpr ((Emitter.files_texts hem).imp_of_mem ?_)
    intro f f' hf hf' htexts hpath
    have hfile := h e he emission hem f hf
    rw [hpath, h e he emission hem f' hf'] at hfile
    exact htexts hpath (Option.some.inj hfile).symm
  between := by
    refine List.pairwise_iff_forall_sublist.mpr fun {e e'} hsub hs => ?_
    obtain ⟨before, after, hsplit, he, he'⟩ := List.cons_sublist_iff.mp hsub
    exact h.disjoint ht hsplit he (List.singleton_sublist.mp he') hs

theorem targets_nodup_of_create {settings : Settings} (h : create settings = .ok g) :
    g.targets.Nodup := by
  rw [targets_of_create h]
  exact distinctTargets_nodup _

/-- Paths differ if the names of the targets do, and if no namespace has a slash or the path of a
target. -/
theorem pathsApart_of_names (ht : g.targets.Nodup) (hn : (g.emitters.map Emitter.filename).Nodup)
    (hns : ∀ ns ∈ m.namespaces, '/' ∉ ns.toList ∧
      importPath ns "proto" ∉ g.emitters.map Emitter.filename) : g.PathsApart m where
  within := by
    rintro e he ⟨emission, hem⟩
    rw [Emitter.paths, Emitter.writes_of_emit hem]
    have hone (ho : e.OneFile) : (emission.files.map Prod.fst).Nodup := by
      obtain ⟨text, hfiles⟩ := ho.files_eq hem
      rw [hfiles]
      exact List.nodup_singleton _
    cases e with
    | proto filename layout =>
      cases layout with
      | singleFile => exact hone rfl
      | perNamespace =>
        rw [@Proto.emit_perNamespace_paths m filename emission hem]
        refine List.pairwise_map.mpr ((sortedTexts_increasing _).imp_of_mem ?_)
        intro a b ha hb hlt hpath
        have hkey {ns : String} (h : ns ∈ m.namespaces) :=
          Model.effectiveNamespace_of_mem_namespaces h
        have heq := effectiveNamespace_eq_of_importPath_eq hpath
          (by rw [hkey ha]; exact (hns a ha).1) (by rw [hkey hb]; exact (hns b hb).1)
        rw [hkey ha, hkey hb] at heq
        exact absurd heq hlt.ne
    | graphql filename => exact hone trivial
    | openapi filename settings => exact hone trivial
  between := by
    have hpairs := (List.pairwise_map.mp hn).and (List.pairwise_map.mp ht)
    refine hpairs.imp_of_mem fun {e e'} he he' ⟨hname, htarget⟩ _ path hp hp' => ?_
    rcases Emitter.mem_paths hp with rfl | ⟨hproto, ns, hmem, rfl⟩
    · rcases Emitter.mem_paths hp' with heq | ⟨_, ns, hmem, heq⟩
      · exact hname heq
      · exact (hns ns hmem).2 (heq ▸ List.mem_map_of_mem he)
    · rcases Emitter.mem_paths hp' with heq | ⟨hproto', _⟩
      · exact (hns ns hmem).2 (heq ▸ List.mem_map_of_mem he')
      · exact htarget (hproto.trans hproto'.symm)

/-- Which files of a run are kept, for every model and all settings that a generator takes. All files
of successful emitters can be found exactly if their paths differ; the layout by namespace then has
one file for each namespace. It is enough that the names of the targets differ, and that no namespace
has a slash or is written to the name of a target. -/
theorem generate_keepsFiles_iff (settings : Settings) (g : Generator) (hg : create settings = .ok g)
    (m : Model) :
    (g.KeepsFiles m ↔ g.PathsApart m) ∧
      (g.KeepsFiles m → ∀ filename, .proto filename .perNamespace ∈ g.emitters →
        ∀ files, Proto.renderByNamespace m (.of m) = .ok files →
          (m.namespaces.map fun ns => importPath ns "proto").Nodup ∧
            ∀ p ∈ files, (g.generate m).file? (importPath p.1 "proto") = some p.2.file.render) ∧
      ((g.emitters.map Emitter.filename).Nodup →
        (∀ ns ∈ m.namespaces, '/' ∉ ns.toList ∧
          importPath ns "proto" ∉ g.emitters.map Emitter.filename) → g.KeepsFiles m) := by
  have ht := targets_nodup_of_create hg
  refine ⟨⟨fun h => h.pathsApart ht, PathsApart.keepsFiles⟩, ?_, fun hn hns =>
    (pathsApart_of_names ht hn hns).keepsFiles⟩
  intro h filename he files hfiles
  have hem : (Emitter.proto filename .perNamespace).emit m (.of m) =
      .ok ⟨files.map fun p => (importPath p.1 "proto", p.2.file.render),
        files.flatMap fun p => p.2.warnings⟩ := by
    rw [Emitter.emit, Proto.emit, hfiles]
    rfl
  constructor
  · rw [← @Proto.emit_perNamespace_paths m filename _ hem]
    have hnodup := (h.pathsApart ht).within _ he ⟨_, hem⟩
    rw [Emitter.paths, Emitter.writes_of_emit hem] at hnodup
    exact hnodup
  · intro p hp
    exact h _ he _ hem (importPath p.1 "proto", p.2.file.render) (List.mem_map_of_mem hp)

def letters : Model :=
  -- A namespace with points and one without, each with a file of its own beside those of the other
  -- targets.
  { ns := "mail.inbox"
    enums := [{ name := "Priority", ns := "mail", members := [{ name := "HIGH" }] }]
    types := [{ name := "Letter", ns := "mail.inbox"
                fields := [{ name := "priority", type := .named "Priority" false }] }] }

def lettersSettings : Settings :=
  -- The layout by namespace, with a name for the interface description.
  { output := { filenames := { PerTarget.replicate none with openapi := some "mail/api.json" } }
    proto := { splitByNamespace := true }
    openapi := { format := .json } }

theorem generate_letters :
    ∃ g, create lettersSettings = .ok g ∧ (g.emitters.map Emitter.filename).Nodup ∧
      (∀ ns ∈ letters.namespaces, '/' ∉ ns.toList ∧
        importPath ns "proto" ∉ g.emitters.map Emitter.filename) ∧ g.KeepsFiles letters := by
  obtain ⟨g, hg, hnames⟩ : ∃ g, create lettersSettings = .ok g ∧
      g.emitters.map Emitter.filename = ["schema.proto", "schema.graphql", "mail/api.json"] :=
    exists_ok_of_toOption (by decide +kernel)
  have hnodup : (g.emitters.map Emitter.filename).Nodup := by
    rw [hnames]
    decide
  have hns : ∀ ns ∈ letters.namespaces, '/' ∉ ns.toList ∧
      importPath ns "proto" ∉ g.emitters.map Emitter.filename := by
    rw [hnames]
    decide +kernel
  exact ⟨g, hg, hnodup, hns, (generate_keepsFiles_iff lettersSettings g hg letters).2.2 hnodup hns⟩

def sharedName : Settings :=
  -- Two targets under one name.
  { output :=
      { targets := [.proto, .graphql]
        filenames := { PerTarget.replicate none with graphql := some "schema.proto" } } }

def sides : Model :=
  { ns := "api"
    types := [{ name := "Left", ns := "api"
                fields := [{ name := "side", type := .named "string" false }] }] }

def twoPaths : Model :=
  { types := [{ name := "Left", ns := "a.b" }, { name := "Right", ns := "a/b" }] }

/-- Files can be lost: by a name that two targets have, and by a path that two namespaces have. No
finding tells of it. -/
theorem generate_loses_files :
    (∃ g, create sharedName = .ok g ∧ (g.generate sides).diagnostics = [] ∧
      (g.generate sides).files.map Prod.fst = ["schema.proto"] ∧ ¬ g.KeepsFiles sides) ∧
    ∃ g, create { output := { targets := [.proto] }, proto := { splitByNamespace := true } } = .ok g ∧
      (g.generate twoPaths).diagnostics = [] ∧ twoPaths.namespaces = ["a.b", "a/b"] ∧
      (g.generate twoPaths).files.map Prod.fst = ["a/b.proto"] ∧ ¬ g.KeepsFiles twoPaths := by
  -- An emitter that finds another text at the path of one of its files has lost it.
  have hlost {g : Generator} {m : Model} (e : Emitter) (he : e ∈ g.emitters)
      (h : ((e.emit m (.of m)).toOption.map fun emission =>
        emission.files.all fun f => (g.generate m).file? f.1 == some f.2) = some false) :
      ¬ g.KeepsFiles m := by
    intro hk
    obtain ⟨emission, hem, hall⟩ := exists_ok_of_toOption h
    have htrue := List.all_eq_true.mpr fun f hf => beq_iff_eq.mpr (hk e he emission hem f hf)
    rw [hall] at htrue
    cases htrue
  refine ⟨⟨⟨[.proto "schema.proto" .singleFile, .graphql "schema.proto"]⟩, rfl, ?_, ?_, ?_⟩,
    ⟨⟨[.proto "schema.proto" .perNamespace]⟩, rfl, ?_, ?_, ?_, ?_⟩⟩
  · decide +kernel
  · decide +kernel
  · exact hlost (.proto "schema.proto" .singleFile) (by decide) (by decide +kernel)
  · decide +kernel
  · decide +kernel
  · decide +kernel
  · exact hlost (.proto "schema.proto" .perNamespace) (by decide) (by decide +kernel)

end Generator

end Triglot
