import Triglot.Proofs.Outcome
import Triglot.Proofs.Validation
import Triglot.Proofs.Workspace.Tree
import Triglot.Workspace.Load

/-! The documents of a directory. Each of them either adds its model or is named by an error, so a
directory that loads without an error is loaded whole. -/
namespace Triglot

structure ModelDocument where
  path : String
  format : DocumentFormat
  text : Option String
deriving DecidableEq, Repr

namespace Tree

def documents (t : Tree) : List ModelDocument :=
  t.files.filterMap fun (path, text) =>
    match DocumentKind.ofPath? path with
    | some (.model format) => some ⟨path, format, text⟩
    | _ => none

/-- Every file below a directory that is named like a document is among its documents. -/
theorem mem_documents {t : Tree} {names : List String} {text : Option String}
    {format : DocumentFormat} (h : t.get? names = some (.file text))
    (hkind : DocumentKind.ofPath? (names.foldl Path.join "") = some (.model format)) :
    ⟨names.foldl Path.join "", format, text⟩ ∈ t.documents := by
  refine List.mem_filterMap.mpr ⟨_, mem_walk_of_get? "" h, ?_⟩
  simp only [hkind]

end Tree

namespace Document

theorem readModel_of_valid {text file : String} {format : DocumentFormat} {v : Json}
    (hv : parseValue text file format = .ok v) (hnone : modelSchema.violations v file = []) :
    readModel text file format =
      ((decode Model.decode v file).map Model.inheritNamespace).mapError ([·]) := by
  simp only [readModel, hv, Except.mapError, bind, Except.bind, hnone]

theorem readModel_of_violations {text file : String} {format : DocumentFormat} {v : Json}
    (hv : parseValue text file format = .ok v) (hsome : modelSchema.violations v file ≠ []) :
    readModel text file format = .error (modelSchema.violations v file) := by
  simp only [readModel, hv, Except.mapError, bind, Except.bind]

end Document

namespace ModelDocument

/-- A document is read as a model: its text stands for a value, the value fits the schema and
decodes, and the declarations have taken the namespace of the document. -/
def Reads (d : ModelDocument) (m : Model) : Prop :=
  ∃ text v own, d.text = some text ∧ Document.parseValue text d.path d.format = .ok v ∧
    modelSchema.violations v d.path = [] ∧ Model.decode v = .ok own ∧ own.inheritNamespace = m

def Refuses (d : ModelDocument) (ds : List Diagnostic) : Prop :=
  ds ≠ [] ∧ ∀ e ∈ ds, e.isError = true ∧ e.file = d.path

theorem refuses_singleton {d : ModelDocument} {e : Diagnostic} (he : e.isError = true)
    (hfile : e.file = d.path) : d.Refuses [e] := by
  refine ⟨List.cons_ne_nil e [], fun e' h => ?_⟩
  rw [List.mem_singleton.mp h]
  exact ⟨he, hfile⟩

theorem refuses_violations {d : ModelDocument} {v : Json}
    (h : modelSchema.violations v d.path ≠ []) : d.Refuses (modelSchema.violations v d.path) := by
  refine ⟨h, fun e he => ?_⟩
  obtain ⟨found, _, rfl⟩ := List.mem_map.mp he
  exact ⟨rfl, rfl⟩

/-- A text that stands for no value is turned down by an error that names its file. -/
theorem refuses_of_parseValue {d : ModelDocument} {text : String} {e : Diagnostic}
    (h : Document.parseValue text d.path d.format = .error e) : d.Refuses [e] := by
  unfold Document.parseValue at h
  split at h <;> split at h <;> cases h <;> exact refuses_singleton rfl rfl

def contribution (d : ModelDocument) : Contribution := .of d.path d.format d.text

theorem outcome_of_text {d : ModelDocument} {text : String} (h : d.text = some text) :
    d.contribution.outcome = Document.readModel text d.path d.format := by
  simp only [contribution, Contribution.of, h]

theorem outcome_of_reads {d : ModelDocument} {m : Model} (h : d.Reads m) :
    d.contribution.outcome = .ok m := by
  obtain ⟨text, v, own, htext, hv, hnone, hown, rfl⟩ := h
  rw [outcome_of_text htext, Document.readModel_of_valid hv hnone]
  simp only [Document.decode, hown]
  rfl

/-- Reading goes through four steps, and the first that fails tells why. -/
theorem outcome_cases (d : ModelDocument) :
    (∃ m, d.Reads m ∧ d.contribution.outcome = .ok m) ∨
      ∃ ds, d.Refuses ds ∧ d.contribution.outcome = .error ds := by
  cases htext : d.text with
  | none =>
    refine .inr ⟨[Contribution.unreadable d.path], refuses_singleton rfl rfl, ?_⟩
    simp only [contribution, Contribution.of, htext]
  | some text =>
    rw [outcome_of_text htext]
    cases hv : Document.parseValue text d.path d.format with
    | error e =>
      refine .inr ⟨[e], refuses_of_parseValue hv, ?_⟩
      rw [Document.readModel, hv]
      rfl
    | ok v =>
      -- The schema is asked before the decoder, and a value that violates it is not decoded.
      by_cases hnone : modelSchema.violations v d.path = []
      · rw [Document.readModel_of_valid hv hnone]
        cases hown : Model.decode v with
        | error e =>
          refine .inr ⟨[Document.jsonFinding d.path e.message 0 0], refuses_singleton rfl rfl, ?_⟩
          simp only [Document.decode, hown]
          rfl
        | ok own =>
          refine .inl ⟨own.inheritNamespace, ⟨text, v, own, htext, hv, hnone, hown, rfl⟩, ?_⟩
          simp only [Document.decode, hown]
          rfl
      · exact .inr ⟨_, refuses_violations hnone, Document.readModel_of_violations hv hnone⟩

theorem model?_of_reads {d : ModelDocument} {m : Model} (h : d.Reads m) :
    d.contribution.model? = some m := by
  simp only [Contribution.model?, outcome_of_reads h]

theorem findings_of_reads {d : ModelDocument} {m : Model} (h : d.Reads m) :
    d.contribution.findings = [] := by
  simp only [Contribution.findings, outcome_of_reads h]

/-- A document that is not read adds no model, and it is turned down. -/
theorem refused_of_not_reads {d : ModelDocument} (h : ∀ m, ¬ d.Reads m) :
    d.contribution.model? = none ∧ d.Refuses d.contribution.findings := by
  rcases d.outcome_cases with ⟨m, hm, _⟩ | ⟨ds, hds, he⟩
  · exact absurd hm (h m)
  · simp only [Contribution.model?, Contribution.findings, he]
    exact ⟨trivial, hds⟩

end ModelDocument

/-- Each document of a directory makes one contribution, in order. -/
theorem contributions_eq_map (t : Tree) :
    contributions t = t.documents.map ModelDocument.contribution := by
  unfold contributions Tree.documents
  rw [List.map_filterMap]
  congr 1
  funext ⟨path, text⟩
  dsimp only
  cases DocumentKind.ofPath? path with
  | none => rfl
  | some kind => cases kind <;> rfl

section Assembly

variable (l : Loaded) (c : Contribution)

theorem Loaded.add_eq : l.add c =
    { l with
      model := c.model?.toList.foldl Model.merge l.model
      files := l.files ++ if c.model?.isSome then [c.file] else []
      report := ⟨l.report.entries ++ c.findings⟩ } := by
  unfold add Contribution.model? Contribution.findings
  cases c.outcome with
  | ok m => simp
  | error ds => simp [Report.merge]

/-- Documents that are taken in one after the other leave what they give together: the models that are
read, merged in their order, with their files, and the findings of the others. -/
theorem Loaded.foldl_add (cs : List Contribution) : cs.foldl add l =
    { l with
      model := (cs.filterMap Contribution.model?).foldl Model.merge l.model
      files := l.files ++ (cs.filter fun c => c.model?.isSome).map (·.file)
      report := ⟨l.report.entries ++ cs.flatMap Contribution.findings⟩ } := by
  induction cs generalizing l with
  | nil => simp
  | cons c cs ih =>
    rw [List.foldl_cons, ih, add_eq]
    cases hm : c.model? with
    | none => simp [hm]
    | some m => simp [hm]

theorem assemble_eq (root : String) (settings : Settings) (cs : List Contribution) :
    assemble root settings cs =
      { root, settings
        model := (cs.filterMap Contribution.model?).foldl Model.merge {}
        files := (cs.filter fun c => c.model?.isSome).map (·.file)
        report := ⟨cs.flatMap Contribution.findings⟩ } := by
  rw [assemble, Loaded.foldl_add]
  rfl

end Assembly

/-- The documents that are read, in their order, each with its model; the others drop out. -/
inductive Contributing : List ModelDocument → List (ModelDocument × Model) → Prop
  | nil : Contributing [] []
  | read {d m ds read} : d.Reads m → Contributing ds read → Contributing (d :: ds) ((d, m) :: read)
  | refused {d ds read} : (∀ m, ¬ d.Reads m) → Contributing ds read → Contributing (d :: ds) read

namespace Contributing

/-- Every list of documents has its part that is read. -/
theorem exists_read (docs : List ModelDocument) : ∃ read, Contributing docs read := by
  induction docs with
  | nil => exact ⟨[], .nil⟩
  | cons d docs ih =>
    obtain ⟨read, hread⟩ := ih
    by_cases hd : ∃ m, d.Reads m
    · obtain ⟨m, hm⟩ := hd
      exact ⟨(d, m) :: read, .read hm hread⟩
    · exact ⟨read, .refused (not_exists.mp hd) hread⟩

variable {docs : List ModelDocument} {read : List (ModelDocument × Model)}

/-- The models of the contributions are those that were read. -/
theorem models (h : Contributing docs read) :
    (docs.map ModelDocument.contribution).filterMap Contribution.model? = read.map Prod.snd := by
  induction h with
  | nil => rfl
  | read hm _ ih =>
    rw [List.map_cons, List.filterMap_cons_some (ModelDocument.model?_of_reads hm), ih]
    rfl
  | refused hd _ ih =>
    rw [List.map_cons, List.filterMap_cons_none (ModelDocument.refused_of_not_reads hd).1, ih]

theorem files (h : Contributing docs read) :
    ((docs.map ModelDocument.contribution).filter fun c => c.model?.isSome).map (·.file) =
      read.map (·.1.path) := by
  induction h with
  | nil => rfl
  | read hm _ ih =>
    rw [List.map_cons, List.filter_cons, ModelDocument.model?_of_reads hm, Option.isSome_some,
      if_pos rfl, List.map_cons, ih]
    rfl
  | refused hd _ ih =>
    rw [List.map_cons, List.filter_cons, (ModelDocument.refused_of_not_reads hd).1,
      Option.isSome_none, if_neg Bool.false_ne_true, ih]

end Contributing

/-- The findings of a directory are those of the documents that are not read. -/
theorem mem_findings_iff (docs : List ModelDocument) (e : Diagnostic) :
    e ∈ (docs.map ModelDocument.contribution).flatMap Contribution.findings ↔
      ∃ d ∈ docs, (∀ m, ¬ d.Reads m) ∧ e ∈ d.contribution.findings := by
  rw [List.flatMap_map, List.mem_flatMap]
  constructor
  · rintro ⟨d, hd, he⟩
    refine ⟨d, hd, fun m hm => ?_, he⟩
    rw [ModelDocument.findings_of_reads hm] at he
    cases he
  · rintro ⟨d, hd, _, he⟩
    exact ⟨d, hd, he⟩

/-- A document that is not read is told of. -/
theorem exists_finding {docs : List ModelDocument} {d : ModelDocument} (hd : d ∈ docs)
    (hnot : ∀ m, ¬ d.Reads m) :
    ∃ e ∈ (docs.map ModelDocument.contribution).flatMap Contribution.findings,
      e.isError = true ∧ e.file = d.path := by
  obtain ⟨hne, herrors⟩ := (ModelDocument.refused_of_not_reads hnot).2
  obtain ⟨e, he⟩ := List.exists_mem_of_ne_nil _ hne
  exact ⟨e, (mem_findings_iff docs e).mpr ⟨d, hd, hnot, he⟩, herrors e he⟩

/-- A directory is good exactly if all of its documents are read. -/
theorem harmless_findings_iff (docs : List ModelDocument) :
    Harmless ((docs.map ModelDocument.contribution).flatMap Contribution.findings) ↔
      ∀ d ∈ docs, ∃ m, d.Reads m := by
  constructor
  · intro h d hd
    by_contra hnone
    obtain ⟨e, he, herror, _⟩ := exists_finding hd (not_exists.mp hnone)
    exact h.not_mem_of_isError herror he
  · intro h e he
    obtain ⟨d, hd, hnot, _⟩ := (mem_findings_iff docs e).mp he
    obtain ⟨m, hm⟩ := h d hd
    exact absurd hm (hnot m)

/-- A directory is loaded without a silent loss. The documents in it, which are all files that are
named like one, are merged in their order as far as they are read, and listed. Each of the others
has an error that names it, nothing else is told, and the report is good if there are none. -/
theorem load_directory {fs : FileSystem} {path : String} {cs : List (String × Tree)}
    {settings : Settings} (hget : fs.get? path = some (.directory cs))
    (hsettings : loadSettings fs path = .ok settings) :
    ∃ l read, load fs path = .ok l ∧ l.root = path ∧ l.settings = settings ∧
      Contributing (Tree.directory cs).documents read ∧
      l.model = (read.map Prod.snd).foldl Model.merge {} ∧
      l.files = read.map (·.1.path) ∧
      (∀ d ∈ (Tree.directory cs).documents, (∀ m, ¬ d.Reads m) →
        ∃ e ∈ l.report.entries, e.isError = true ∧ e.file = d.path) ∧
      (∀ e ∈ l.report.entries, e.isError = true ∧
        ∃ d ∈ (Tree.directory cs).documents, (∀ m, ¬ d.Reads m) ∧ e.file = d.path) ∧
      (l.report.ok = true ↔ ∀ d ∈ (Tree.directory cs).documents, ∃ m, d.Reads m) ∧
      ∀ names text format, (Tree.directory cs).get? names = some (.file text) →
        DocumentKind.ofPath? (names.foldl Path.join "") = some (.model format) →
        ⟨names.foldl Path.join "", format, text⟩ ∈ (Tree.directory cs).documents := by
  -- The documents alone decide; how the directory holds them matters to the last part only.
  generalize hdocs : (Tree.directory cs).documents = docs
  obtain ⟨read, hread⟩ := Contributing.exists_read docs
  have hload : load fs path =
      .ok (assemble path settings (docs.map ModelDocument.contribution)) := by
    simp only [load, hget, hsettings, contributions_eq_map, hdocs]
    rfl
  rw [assemble_eq] at hload
  refine ⟨_, read, hload, rfl, rfl, hread, ?_, hread.files, ?_, ?_, ?_, ?_⟩
  · exact congrArg (·.foldl Model.merge {}) hread.models
  · intro d hd hnot
    exact exists_finding hd hnot
  · intro e he
    obtain ⟨d, hd, hnot, he⟩ := (mem_findings_iff docs e).mp he
    obtain ⟨herror, hfile⟩ := (ModelDocument.refused_of_not_reads hnot).2.2 e he
    exact ⟨herror, d, hd, hnot, hfile⟩
  · exact (Report.ok_iff _).trans (harmless_findings_iff docs)
  · intro names text format hfile hkind
    rw [← hdocs]
    exact Tree.mem_documents hfile hkind

def mixedFiles : FileSystem :=
  -- Two documents that are read among three that are not, and a file of another kind.
  [("notes.txt", some "shipped in spring"),
    ("a.idl.json", some "\x7b invalid \x7d"),
    ("b/orders.idl.json", some "\x7b\"types\": [\x7b\"name\": \"Order\", \"fields\": []\x7d]\x7d"),
    ("c.idl.yaml", none),
    ("d.idl.json", some "\x7b\"types\": [\x7b\"fields\": []\x7d]\x7d"),
    ("users.idl.json", some "\x7b\"types\": [\x7b\"name\": \"User\", \"fields\": []\x7d]\x7d")]
  |>.foldl (fun fs (path, text) => fs.place path text) (.bare ["work"])

theorem load_mixedFiles :
    ∃ cs settings l read, mixedFiles.get? "." = some (.directory cs) ∧
      loadSettings mixedFiles "." = .ok settings ∧ load mixedFiles "." = .ok l ∧
      (Tree.directory cs).documents.map (·.path) =
        ["a.idl.json", "b/orders.idl.json", "c.idl.yaml", "d.idl.json", "users.idl.json"] ∧
      Contributing (Tree.directory cs).documents read ∧
      read.map (·.1.path) = ["b/orders.idl.json", "users.idl.json"] ∧
      l.model = (read.map Prod.snd).foldl Model.merge {} ∧
      l.model.types.map (·.name) = ["Order", "User"] ∧
      l.report.entries.map (·.file) = ["a.idl.json", "c.idl.yaml", "d.idl.json"] ∧
      l.report.ok = false := by
  have hdocs : (mixedFiles.get? ".").map (fun t => (t.isDirectory, t.documents.map (·.path))) =
      some (true,
        ["a.idl.json", "b/orders.idl.json", "c.idl.yaml", "d.idl.json", "users.idl.json"]) := by
    decide +kernel
  have hsettings : (loadSettings mixedFiles ".").toOption.map (fun _ => ()) = some () := by
    decide +kernel
  have hload : (load mixedFiles ".").toOption.map (fun l =>
      (l.files, l.model.types.map (·.name), l.report.entries.map (·.file), l.report.ok)) =
      some (["b/orders.idl.json", "users.idl.json"], ["Order", "User"],
        ["a.idl.json", "c.idl.yaml", "d.idl.json"], false) := by
    decide +kernel
  obtain ⟨t, hget, hpaths⟩ := Option.map_eq_some_iff.mp hdocs
  obtain ⟨settings, hset, _⟩ := exists_ok_of_toOption hsettings
  obtain ⟨l, hl, htold⟩ := exists_ok_of_toOption hload
  simp only [Prod.mk.injEq] at hpaths htold
  obtain ⟨hfiles, htypes, hentries, hok⟩ := htold
  cases t with
  | file text => cases hpaths.1
  | directory cs =>
    obtain ⟨l', read, hl', _, _, hread, hmodel, hlisted, _⟩ := load_directory hget hset
    obtain rfl : l' = l := Except.ok.inj (hl'.symm.trans hl)
    exact ⟨cs, settings, l', read, hget, hset, hl, hpaths.2, hread, hlisted.symm.trans hfiles,
      hmodel, htypes, hentries, hok⟩

end Triglot
