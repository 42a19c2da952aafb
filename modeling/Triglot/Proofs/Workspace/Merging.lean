import Triglot.Proofs.Workspace.Load
import Triglot.Proofs.Workspace.Names

/-! Documents put together. Each part of a model merges by a rule of its own, and all of them are
associative with the empty model as the identity, so that only the order of documents counts. A directory
with one document that is read therefore loads to what this document alone loads to. -/
namespace Triglot

section Laws

theorem Notes.merge_assoc (a b c : Notes) : (a.merge b).merge c = a.merge (b.merge c) := by
  simp only [Notes.merge, Option.or_assoc, List.append_assoc]

theorem Notes.merge_empty (a : Notes) : a.merge {} = a := by
  simp only [Notes.merge, Option.or_none, List.append_nil]

theorem Annotations.merge_assoc (a b c : Annotations) :
    Annotations.merge (Annotations.merge a b) c = Annotations.merge a (Annotations.merge b c) := by
  simp only [Annotations.merge, Notes.merge_assoc]

theorem Annotations.merge_none (a : Annotations) : Annotations.merge a .none = a := by
  simp only [Annotations.merge, Annotations.none, PerTarget.replicate, Notes.merge_empty]

namespace Model

/-- The first namespace that is not empty counts. -/
theorem fill_assoc (a b c : String) : fill c (fill b a) = fill (fill c b) a := by
  unfold fill
  by_cases ha : a.isEmpty = true
  · rw [if_pos ha, if_pos ha]
  · rw [if_neg ha, if_neg ha, if_neg ha]

theorem fill_empty (a : String) : fill "" a = a := by
  unfold fill
  split
  · rename_i h
    exact (String.isEmpty_iff.mp h).symm
  · rfl

theorem merge_assoc (a b c : Model) : (a.merge b).merge c = a.merge (b.merge c) := by
  simp only [merge, fill_assoc, Option.or_assoc, Annotations.merge_assoc, List.append_assoc]

theorem empty_merge (a : Model) : merge {} a = a := rfl

theorem merge_empty (a : Model) : a.merge {} = a := by
  simp only [merge, fill_empty, Option.or_none, Annotations.merge_none, List.append_nil]

instance : Std.Associative merge := ⟨merge_assoc⟩

/-- Documents that come later are put together behind a model. -/
theorem foldl_merge (ms : List Model) (a : Model) :
    ms.foldl merge a = a.merge (ms.foldl merge {}) := by
  have happend : ms.foldl merge (a.merge {}) = a.merge (ms.foldl merge {}) := List.foldl_assoc
  rwa [merge_empty] at happend

end Model

end Laws

inductive Grouping where
  | none
  | one (m : Model)
  | pair (a b : Grouping)

namespace Grouping

def merged : Grouping → Model
  | none => {}
  | one m => m
  | pair a b => a.merged.merge b.merged

def documents : Grouping → List Model
  | none => []
  | one m => [m]
  | pair a b => a.documents ++ b.documents

/-- Any grouping gives what the documents give one by one. -/
theorem merged_eq (g : Grouping) : g.merged = g.documents.foldl Model.merge {} := by
  induction g with
  | none => rfl
  | one m => rfl
  | pair a b iha ihb =>
    rw [merged, documents, List.foldl_append, Model.foldl_merge b.documents, iha, ihb]

end Grouping

/-- The value of a text does not depend on the name of its file. -/
theorem Document.parseValue_of_ok {text file : String} {format : DocumentFormat} {v : Json}
    (h : parseValue text file format = .ok v) (other : String) :
    parseValue text other format = .ok v := by
  cases format with
  | json =>
    unfold parseValue at h ⊢
    cases hparse : Json.parse text with
    | error e => simp only [hparse] at h; cases h
    | ok w => simpa only [hparse] using h
  | yaml =>
    unfold parseValue at h ⊢
    cases hparse : Yaml.parse text with
    | error e => simp only [hparse] at h; cases h
    | ok w => simpa only [hparse] using h

/-- Whether a document is read, and as what, does not depend on where it is. -/
theorem ModelDocument.Reads.at_path {d : ModelDocument} {m : Model} (h : d.Reads m) (path : String) :
    ({ d with path } : ModelDocument).Reads m := by
  obtain ⟨text, v, own, htext, hv, hnone, hown, hm⟩ := h
  refine ⟨text, v, own, htext, Document.parseValue_of_ok hv path, ?_, hown, hm⟩
  unfold DocumentSchema.violations at hnone ⊢
  rw [List.map_eq_nil_iff] at hnone ⊢
  exact hnone

theorem Text.cutLast_append {sep : Char} {as bs : List Char} (h : sep ∉ bs) :
    Text.cutLast sep (as ++ sep :: bs) = some (as, bs) := by
  have hskip := bne_of_mem_reverse h
  have hreverse : (as ++ sep :: bs).reverse = bs.reverse ++ sep :: as.reverse := by simp
  unfold Text.cutLast Text.cutFirst
  rw [hreverse, List.dropWhile_append_of_pos hskip, List.dropWhile_cons_of_neg (by simp),
    List.takeWhile_append_of_pos hskip, List.takeWhile_cons_of_neg (by simp)]
  simp

/-- What follows the last point of a file name is its extension, unless the name starts there. -/
theorem Path.extension?_of_fileName? {path name : String} {before after : List Char}
    (hname : Path.fileName? path = some name) (hparts : name.toList = before ++ '.' :: after)
    (hbefore : before ≠ []) (hafter : '.' ∉ after) :
    Path.extension? path = some (String.ofList after) := by
  unfold Path.extension?
  rw [hname]
  simp [hparts, Text.cutLast_append hafter, hbefore]

/-- A document of a model has the format that its last extension tells. -/
theorem DocumentFormat.ofPath?_of_kind {path name : String} {format : DocumentFormat}
    (hname : Path.fileName? path = some name) (hkind : DocumentKind.ofName? name = some (.model format)) :
    DocumentFormat.ofPath? path = some format := by
  have hextension (after : List Char) (hafter : '.' ∉ after)
      (h : ".idl".toList ++ '.' :: after <:+ name.toList) :
      Path.extension? path = some (String.ofList after) := by
    obtain ⟨cs, hcs⟩ := h
    rw [← List.append_assoc] at hcs
    exact Path.extension?_of_fileName? hname hcs.symm (by simp) hafter
  unfold DocumentKind.ofName? at hkind
  unfold DocumentFormat.ofPath?
  split at hkind
  · cases hkind
  split at hkind
  · cases hkind
  split at hkind
  · rename_i hends
    cases hkind
    rw [hextension "json".toList (by decide) (List.isSuffixOf_iff_suffix.mp hends)]
    rfl
  split at hkind
  · rename_i hends
    cases hkind
    rcases Bool.or_eq_true_iff.mp hends with hends | hends
    · rw [hextension "yaml".toList (by decide) (List.isSuffixOf_iff_suffix.mp hends)]
      rfl
    · rw [hextension "yml".toList (by decide) (List.isSuffixOf_iff_suffix.mp hends)]
      rfl
  · cases hkind

def settingsBeside (fs : FileSystem) (path : String) : Except LoadError Settings :=
  if (Path.parent path).isEmpty then .ok {} else loadSettings fs (Path.parent path)

section Loading

variable {fs : FileSystem} {path file name : String} {cs : List (String × Tree)} {d : ModelDocument}
  {m : Model}

/-- One document that is read is loaded as it is, unless its settings are not. -/
theorem load_document (hget : fs.get? file = some (.file d.text))
    (hname : Path.fileName? file = some name)
    (hkind : DocumentKind.ofName? name = some (.model d.format)) (hread : d.Reads m) :
    load fs file = (settingsBeside fs file).map fun s => ⟨file, s, m, [name], ⟨[]⟩⟩ := by
  have hformat := DocumentFormat.ofPath?_of_kind hname hkind
  have hmodel := ModelDocument.model?_of_reads (hread.at_path name)
  have hfindings := ModelDocument.findings_of_reads (hread.at_path name)
  obtain ⟨text, _, _, htext, _⟩ := hread
  unfold ModelDocument.contribution at hmodel hfindings
  dsimp only at hmodel hfindings
  rw [htext] at hmodel hfindings
  unfold load
  rw [hget]
  dsimp only
  unfold loadFile settingsBeside
  rw [hformat, htext]
  dsimp only
  rw [hname]
  dsimp only [Option.getD_some]
  simp only [hmodel, hfindings, Option.getD_some, Option.isSome_some, if_true]
  split
  · rfl
  · cases loadSettings fs (Path.parent file) <;> rfl

/-- A directory is loaded as the documents of it that are read, one after the other. -/
theorem load_directory_model {read : List (ModelDocument × Model)}
    (hget : fs.get? path = some (.directory cs))
    (hread : Contributing (Tree.directory cs).documents read) :
    (load fs path).map Loaded.model =
      (loadSettings fs path).map fun _ => (read.map Prod.snd).foldl Model.merge {} := by
  have hmodel (s : Settings) : (assemble path s (contributions (.directory cs))).model =
      (read.map Prod.snd).foldl Model.merge {} := by
    rw [assemble_eq, contributions_eq_map, hread.models]
  unfold load
  rw [hget]
  dsimp only
  cases loadSettings fs path with
  | error e => rfl
  | ok s => exact congrArg Except.ok (hmodel s)

theorem Contributing.mem_of_mem {docs : List ModelDocument} {read : List (ModelDocument × Model)}
    (h : Contributing docs read) {e : ModelDocument × Model} (he : e ∈ read) :
    e.1 ∈ docs ∧ e.1.Reads e.2 := by
  induction h with
  | nil => cases he
  | read hm _ ih =>
    rcases List.mem_cons.mp he with rfl | he
    · exact ⟨List.mem_cons_self, hm⟩
    · exact ⟨List.mem_cons_of_mem _ (ih he).1, (ih he).2⟩
  | refused _ _ ih => exact ⟨List.mem_cons_of_mem _ (ih he).1, (ih he).2⟩

/-- The documents of a directory with proper names are found by their paths, under their own names. -/
theorem get?_document (hget : fs.get? path = some (.directory cs)) (hproper : (Tree.directory cs).Proper)
    (hd : d ∈ (Tree.directory cs).documents) :
    fs.get? (Path.join path d.path) = some (.file d.text) ∧
      ∃ name, Path.fileName? (Path.join path d.path) = some name ∧
        DocumentKind.ofName? name = some (.model d.format) := by
  obtain ⟨⟨found, text⟩, hwalk, hd⟩ := List.mem_filterMap.mp hd
  dsimp only at hd
  split at hd
  · rename_i format hkind
    cases hd
    dsimp only
    obtain ⟨ns, hns, rfl, hfile⟩ := Tree.get?_of_mem_walk hproper hwalk
    have hne : ns ≠ [] := by
      rintro rfl
      cases hfile
    refine ⟨FileSystem.get?_join_names hget hne hns hfile, ?_⟩
    obtain ⟨name, hname, hof⟩ := Option.bind_eq_some_iff.mp hkind
    have hsame := FileSystem.fileName?_join (FileSystem.ne_empty_of_get? hget)
      (FileSystem.names_foldl_join hne hns) hne hns
    exact ⟨name, hsame.trans hname, hof⟩
  · cases hd

/-- An entry is found from the place of a directory, however that is spelled. -/
theorem get?_join_eq {a b n : String} {here : List String} (ha : fs.locate? a = some here)
    (hb : fs.locate? b = some here) (hn : IsEntryName n) :
    fs.get? (Path.join a n) = fs.get? (Path.join b n) := by
  have hrel := FileSystem.not_startsWith_of_isEntryName hn
  unfold FileSystem.get?
  rw [FileSystem.locate?_join ha hrel, FileSystem.locate?_join hb hrel]

/-- The format of an entry is that of its name. -/
theorem ofPath?_join {base n : String} (hbase : base ≠ "") (hn : IsEntryName n) :
    DocumentFormat.ofPath? (Path.join base n) = DocumentFormat.ofPath? n := by
  unfold DocumentFormat.ofPath? Path.extension?
  rw [FileSystem.fileName?_join hbase (FileSystem.names_of_isEntryName hn) (List.cons_ne_nil n [])
    (List.forall_mem_singleton.mpr hn)]

/-- Where settings are looked for depends on the place of a directory and not on how it is spelled. -/
theorem loadSettings_eq_ok_iff {a b : String} {here : List String} (ha : fs.locate? a = some here)
    (hb : fs.locate? b = some here) (s : Settings) :
    loadSettings fs a = .ok s ↔ loadSettings fs b = .ok s := by
  have hentry : ∀ n ∈ settingsNames, IsEntryName n := by decide
  have hfind : (settingsNames.find? fun n => fs.isFile (Path.join a n)) =
      settingsNames.find? fun n => fs.isFile (Path.join b n) := by
    have hfile {n : String} (hn : n ∈ settingsNames) :
        fs.isFile (Path.join a n) = fs.isFile (Path.join b n) := by
      unfold FileSystem.isFile
      rw [get?_join_eq ha hb (hentry n hn)]
    unfold settingsNames at hfile ⊢
    simp only [List.find?_cons, List.find?_nil, hfile, List.mem_cons, true_or, or_true]
  unfold loadSettings
  rw [hfind]
  cases hfound : settingsNames.find? fun n => fs.isFile (Path.join b n) with
  | none => rfl
  | some n =>
    have hn := hentry n (List.mem_of_find?_eq_some hfound)
    dsimp only
    rw [get?_join_eq ha hb hn, ofPath?_join (FileSystem.ne_empty_of_locate? ha) hn,
      ofPath?_join (FileSystem.ne_empty_of_locate? hb) hn]
    -- Only the text of a failure tells the two spellings apart.
    cases fs.get? (Path.join b n) with
    | none => exact ⟨nofun, nofun⟩
    | some t =>
      cases t with
      | directory cs => exact ⟨nofun, nofun⟩
      | file text =>
        cases text with
        | none => exact ⟨nofun, nofun⟩
        | some t => rfl

/-- A document in the directory itself has its settings. -/
theorem settingsBeside_eq_ok_iff (hget : fs.get? path = some (.directory cs)) (hname : IsEntryName name)
    (s : Settings) : settingsBeside fs (Path.join path name) = .ok s ↔ loadSettings fs path = .ok s := by
  obtain ⟨here, hhere, hdir⟩ := Option.bind_eq_some_iff.mp hget
  have hparent := FileSystem.locate?_parent_join hhere ⟨cs, hdir⟩ hname
  have hsome : ¬ (Path.parent (Path.join path name)).isEmpty = true :=
    mt String.isEmpty_iff.mp (FileSystem.ne_empty_of_locate? hparent)
  unfold settingsBeside
  rw [if_neg hsome]
  exact loadSettings_eq_ok_iff hparent hhere s

end Loading

/-- Merging is associative with the empty model as its identity. So documents in one order give one model,
however they are grouped, and this is the model that a directory loads to. If one document of a directory
is read, then the directory and the document alone load to the same model, as far as the settings are
read in each case; for a document in the directory itself these are the same. -/
theorem documents_merge_monoid :
    (∀ a b c : Model, (a.merge b).merge c = a.merge (b.merge c)) ∧
      (∀ a : Model, Model.merge {} a = a ∧ a = a.merge {}) ∧
      (∀ g h : Grouping, g.documents = h.documents → g.merged = h.merged) ∧
      (∀ fs path cs l, fs.get? path = some (.directory cs) → load fs path = .ok l →
        ∃ read, Contributing (Tree.directory cs).documents read ∧
          ∀ g : Grouping, g.documents = read.map Prod.snd → l.model = g.merged) ∧
      ∀ fs path cs d m, fs.get? path = some (.directory cs) → (Tree.directory cs).Proper →
        Contributing (Tree.directory cs).documents [(d, m)] →
        (load fs path).map Loaded.model = (loadSettings fs path).map (fun _ => m) ∧
          (load fs (Path.join path d.path)).map Loaded.model =
            (settingsBeside fs (Path.join path d.path)).map (fun _ => m) ∧
          (IsEntryName d.path → ∀ s,
            settingsBeside fs (Path.join path d.path) = .ok s ↔ loadSettings fs path = .ok s) := by
  refine ⟨Model.merge_assoc, fun a => ⟨a.empty_merge, a.merge_empty.symm⟩, fun g h hdocs => ?_,
    fun fs path cs l hget hload => ?_, fun fs path cs d m hget hproper hread => ?_⟩
  · rw [g.merged_eq, h.merged_eq, hdocs]
  · obtain ⟨read, hread⟩ := Contributing.exists_read (Tree.directory cs).documents
    refine ⟨read, hread, fun g hdocs => ?_⟩
    have hmodel := load_directory_model hget hread
    rw [hload] at hmodel
    obtain ⟨s, -, hs⟩ := map_eq_ok hmodel.symm
    rw [g.merged_eq, hdocs]
    exact hs.symm
  · obtain ⟨hmem, hreads⟩ := hread.mem_of_mem List.mem_cons_self
    obtain ⟨hfile, name, hname, hkind⟩ := get?_document hget hproper hmem
    refine ⟨load_directory_model hget hread, ?_, settingsBeside_eq_ok_iff hget⟩
    rw [load_document hfile hname hkind hreads]
    cases settingsBeside fs (Path.join path d.path) <;> rfl

def orderFiles : List (String × Tree) :=
  -- A document that is read beside one that is not.
  [("broken.idl.json", .file (some "\x7b invalid \x7d")),
    ("orders.idl.json", .file (some
      "\x7b\"namespace\": \"shop\", \"types\": [\x7b\"name\": \"Order\", \"fields\": []\x7d]\x7d"))]

def orders : FileSystem := ⟨.directory [("work", .directory orderFiles)], ["work"]⟩

theorem documents_merge_orders :
    orders.get? "." = some (.directory orderFiles) ∧ (Tree.directory orderFiles).Proper ∧
      ∃ d m, Contributing (Tree.directory orderFiles).documents [(d, m)] ∧
        m.types.map (fun t => (t.ns, t.name)) = [("shop", "Order")] ∧
        (load orders ".").map Loaded.model = .ok m ∧
        (load orders "./orders.idl.json").map Loaded.model = .ok m := by
  have hget : orders.get? "." = some (.directory orderFiles) := by rfl
  have hproper : (Tree.directory orderFiles).Proper := by
    refine .directory (by decide) (by decide) ?_
    simp only [orderFiles, List.forall_mem_cons, List.not_mem_nil, IsEmpty.forall_iff, implies_true]
    exact ⟨.file _, .file _, trivial⟩
  have hfiles : (((Tree.directory orderFiles).documents.map ModelDocument.contribution).filter
      fun c => c.model?.isSome).map (·.file) = ["orders.idl.json"] := by
    decide +kernel
  have htypes : ((Tree.directory orderFiles).documents.map ModelDocument.contribution).filterMap
      (fun c => c.model?.map fun m => m.types.map fun t => (t.ns, t.name)) = [[("shop", "Order")]] := by
    decide +kernel
  have hsettings : (loadSettings orders ".").toOption.map (fun _ => ()) = some () := by decide +kernel
  have hbeside : (settingsBeside orders "./orders.idl.json").toOption.map (fun _ => ()) = some () := by
    decide +kernel
  have hjoin : Path.join "." "orders.idl.json" = "./orders.idl.json" := by decide +kernel
  obtain ⟨read, hread⟩ := Contributing.exists_read (Tree.directory orderFiles).documents
  rw [hread.files] at hfiles
  obtain ⟨⟨d, m⟩, rest, rfl, hpath, hrest⟩ := List.map_eq_cons_iff.mp hfiles
  cases List.map_eq_nil_iff.mp hrest
  rw [← List.map_filterMap, hread.models] at htypes
  obtain ⟨s, hs, -⟩ := exists_ok_of_toOption hsettings
  obtain ⟨s', hs', -⟩ := exists_ok_of_toOption hbeside
  obtain ⟨hdirectory, hfile, -⟩ :=
    documents_merge_monoid.2.2.2.2 orders "." orderFiles d m hget hproper hread
  dsimp only at hpath
  rw [hpath, hjoin, hs'] at hfile
  rw [hs] at hdirectory
  exact ⟨hget, hproper, d, m, hread, (List.cons.inj htypes).1, hdirectory, hfile⟩

end Triglot
