import Triglot.Proofs.Namespace.ImportPath
import Triglot.Proofs.Proto.Imports
import Triglot.Proofs.Workspace.Writing

/-! Files that stay inside the directory they are written to. A relative path without two points leads
down from there, so that writing it changes no file outside. The path of a namespace never has two
points, but it is not relative if the namespace starts with a point. -/
namespace Triglot

namespace Text

theorem startsWith_iff_head? {s start : String} {c : Char} (h : start.toList = [c]) :
    startsWith s start = true ↔ s.toList.head? = some c := by
  unfold startsWith
  rw [h]
  cases s.toList with
  | nil => exact ⟨nofun, nofun⟩
  | cons d cs =>
    rw [List.isPrefixOf, List.isPrefixOf_nil_left, Bool.and_true, beq_iff_eq, List.head?_cons,
      Option.some.injEq]
    exact eq_comm

theorem startsWith_slash_iff {s : String} : startsWith s "/" = true ↔ s.toList.head? = some '/' :=
  startsWith_iff_head? rfl

theorem startsWith_point_iff {s : String} : startsWith s "." = true ↔ s.toList.head? = some '.' :=
  startsWith_iff_head? rfl

end Text

namespace FileSystem

variable {fs fs' : FileSystem} {here place : List String} {base path directory : String}
  {files : List (String × String)} {r : Option FileError} {content : Option String}

theorem join_cases (hbase : base ≠ "") (hrel : Text.startsWith path "/" = false) :
    Text.endsWith base "/" = true ∧ Path.join base path = base ++ path ∨
      Path.join base path = base ++ "/" ++ path := by
  unfold Path.join
  rw [hrel, Bool.false_or, if_neg (by rwa [String.isEmpty_iff])]
  split
  · rename_i hends
    exact .inl ⟨hends, rfl⟩
  · exact .inr rfl

theorem names_append (a b : String) : names (a ++ "/" ++ b) = names a ++ names b := by
  unfold names
  rw [String.toList_append, String.toList_append, List.append_assoc]
  exact (congrArg _ (Text.pieces_append '/' a.toList b.toList)).trans List.map_append

/-- The names of a path go on behind those of a directory, of which an empty last one is left out. -/
theorem names_join (hbase : base ≠ "") (hrel : Text.startsWith path "/" = false) :
    ∃ ns, (names base = ns ∨ names base = ns ++ [""]) ∧
      names (Path.join base path) = ns ++ names path := by
  rcases join_cases hbase hrel with ⟨hends, hjoin⟩ | hjoin
  · obtain ⟨cs, hcs⟩ := List.isSuffixOf_iff_suffix.mp hends
    have hsplit : base = String.ofList cs ++ "/" := by
      apply String.toList_inj.mp
      rw [String.toList_append, String.toList_ofList, hcs]
    have hnames : names base = names (String.ofList cs) ++ [""] := by
      have happend := names_append (String.ofList cs) ""
      rwa [String.append_empty, ← hsplit] at happend
    refine ⟨names (String.ofList cs), .inr hnames, ?_⟩
    rw [hjoin, hsplit, names_append]
  · exact ⟨names base, .inl rfl, hjoin ▸ names_append base path⟩

theorem head?_join (hbase : base ≠ "") (hrel : Text.startsWith path "/" = false) :
    (Path.join base path).toList.head? = base.toList.head? := by
  have hchars : base.toList ≠ [] := fun h => hbase (String.toList_eq_nil_iff.mp h)
  rcases join_cases hbase hrel with ⟨_, hjoin⟩ | hjoin
  · rw [hjoin, String.toList_append, List.head?_append_of_ne_nil _ hchars]
  · rw [hjoin, String.append_assoc, String.toList_append, List.head?_append_of_ne_nil _ hchars]

theorem isEmpty_iff_head? {s : String} : s.isEmpty = true ↔ s.toList.head? = none := by
  rw [String.isEmpty_iff, ← String.toList_eq_nil_iff, List.head?_eq_none_iff]

/-- A relative path below a directory leads on from there. -/
theorem locate?_join (hbase : fs.locate? base = some here)
    (hrel : Text.startsWith path "/" = false) :
    fs.locate? (Path.join base path) = follow fs.root here (names path) := by
  unfold locate? at hbase ⊢
  split at hbase
  · cases hbase
  rename_i hempty
  have hne : base ≠ "" := fun h => hempty (by rw [h]; rfl)
  have hhead := head?_join hne hrel
  have hstart : fs.start (Path.join base path) = fs.start base := by
    have hslash : Text.startsWith (Path.join base path) "/" = Text.startsWith base "/" := by
      rw [Bool.eq_iff_iff, Text.startsWith_slash_iff, Text.startsWith_slash_iff, hhead]
    unfold start
    rw [hslash]
  have hjoined : ¬ (Path.join base path).isEmpty = true := by
    rwa [isEmpty_iff_head?, hhead, ← isEmpty_iff_head?]
  obtain ⟨ns, hns, hjoin⟩ := names_join hne hrel
  have hhere : follow fs.root (fs.start base) ns = some here := by
    rcases hns with hns | hns
    · rwa [hns] at hbase
    · -- An empty last name stays at the directory.
      rw [hns, follow_append] at hbase
      obtain ⟨there, hthere, hlast⟩ := Option.bind_eq_some_iff.mp hbase
      rw [follow] at hlast
      split at hlast
      · exact hthere.trans hlast
      · cases hlast
  rw [if_neg hjoined, hstart, hjoin, follow_append, hhere, Option.bind_some]

/-- Relative paths without two points are written inside the directory. -/
theorem writeAll_outside (hg : fs.Grounded) (h : writeAll directory files fs = (fs', r))
    (hhere : fs'.locate? directory = some here)
    (hrel : ∀ f ∈ files, Text.startsWith f.1 "/" = false) (hup : ∀ f ∈ files, ".." ∉ names f.1)
    (hout : ¬ here <+: place) :
    fs'.root.get? place = some (.file content) ↔ fs.root.get? place = some (.file content) := by
  induction files generalizing fs with
  | nil =>
    cases h
    exact Iff.rfl
  | cons f rest ih =>
    rw [List.forall_mem_cons] at hrel hup
    rcases writeAll_cons hg h with ⟨_, _, hsame⟩ | ⟨mid, there, hwrote, hrest⟩
    · exact hsame place content
    have hmid := hwrote.after.grounded hg
    have hinside : here <+: there := by
      have hthere := (writeAll_after hmid hrest).locate? hwrote.located
      rw [locate?_join hhere hrel.1] at hthere
      exact prefix_of_follow hup.1 hthere
    have hne : place ≠ there := fun he => hout (he ▸ hinside)
    exact (ih hmid hrest hrel.2 hup.2).trans (hwrote.elsewhere place content hne)

end FileSystem

section

variable {ns extension : String}

/-- A path by namespace has one point, before its extension. -/
theorem two_points_not_mem_importPath (h : '.' ∉ extension.toList) :
    ".." ∉ FileSystem.names (importPath ns extension) := by
  intro hmem
  obtain ⟨p, hp, htext⟩ := List.mem_map.mp hmem
  have hpoints : p = ['.', '.'] := by
    rw [← String.toList_ofList (l := p), htext]
    rfl
  have hnone : '.' ∉ (effectiveNamespace ns).toList.map slashed := by
    intro hc
    obtain ⟨c, _, hslashed⟩ := List.mem_map.mp hc
    unfold slashed at hslashed
    split at hslashed
    · exact absurd hslashed (by decide)
    · rename_i hne
      exact hne hslashed
  have hcount := (Text.sublist_of_mem_pieces hp).count_le '.'
  have hone : (importPath ns extension).toList.count '.' = 1 := by
    rw [importPath_toList, List.count_append, List.count_eq_zero_of_not_mem hnone,
      List.count_cons_self, List.count_eq_zero_of_not_mem h]
  rw [hpoints, hone] at hcount
  exact absurd hcount (by decide)

/-- A leading point of a namespace is a slash in its path. -/
theorem importPath_relative_iff (h : effectiveNamespace ns = ns) :
    Text.startsWith (importPath ns extension) "/" = false ↔
      Text.startsWith ns "." = false ∧ Text.startsWith ns "/" = false := by
  rw [Bool.eq_false_iff, Bool.eq_false_iff, Bool.eq_false_iff, Ne, Ne, Ne,
    Text.startsWith_slash_iff, Text.startsWith_slash_iff, Text.startsWith_point_iff,
    importPath_toList, h, ← not_or]
  cases ns.toList with
  | nil => simp
  | cons c cs =>
    simp only [List.map_cons, List.cons_append, List.head?_cons, Option.some.injEq, slashed]
    split <;> simp_all

end

namespace Proto

/-- Files by namespace are relative unless a namespace starts with a point or with a slash. Those that are
relative are written inside the output directory; the others ignore it. -/
theorem perNamespace_inside_iff (m : Model) (filename : String) (e : Emission)
    (h : emit .perNamespace filename m (.of m) = .ok e) :
    ((∀ f ∈ e.files, Text.startsWith f.1 "/" = false) ↔
      ∀ ns ∈ m.namespaces, Text.startsWith ns "." = false ∧ Text.startsWith ns "/" = false) ∧
    (∀ f ∈ e.files, Text.startsWith f.1 "/" = true →
      ∀ directory, Path.join directory f.1 = f.1) ∧
    ∀ (files : List (String × String)) (directory : String) (fs fs' : FileSystem)
      (r : Option FileError) (here : List String),
      (∀ f ∈ files, f ∈ e.files ∧ Text.startsWith f.1 "/" = false) →
      fs.isDirectory "." = true → FileSystem.writeAll directory files fs = (fs', r) →
      fs'.locate? directory = some here → ∀ place content, ¬ here <+: place →
        (fs'.root.get? place = some (.file content) ↔
          fs.root.get? place = some (.file content)) := by
  have hpaths := emit_perNamespace_paths h
  refine ⟨?_, ?_, ?_⟩
  · have hrelative : (∀ path ∈ e.files.map Prod.fst, Text.startsWith path "/" = false) ↔
        ∀ f ∈ e.files, Text.startsWith f.1 "/" = false := List.forall_mem_map
    rw [← hrelative, hpaths, List.forall_mem_map]
    exact forall₂_congr fun ns hns =>
      importPath_relative_iff (Model.effectiveNamespace_of_mem_namespaces hns)
  · intro f _ hroot directory
    unfold Path.join
    rw [hroot, Bool.true_or, if_pos rfl]
  · intro files directory fs fs' r here hfiles hcurrent hwrite hhere place content hout
    refine FileSystem.writeAll_outside (FileSystem.grounded_of_isDirectory hcurrent) hwrite hhere
      (fun f hf => (hfiles f hf).2) (fun f hf => ?_) hout
    have hpath : f.1 ∈ m.namespaces.map fun key => importPath key "proto" :=
      hpaths ▸ List.mem_map_of_mem (hfiles f hf).1
    obtain ⟨key, _, hkey⟩ := List.mem_map.mp hpath
    rw [← hkey]
    exact two_points_not_mem_importPath (by decide)

def ledgers : Model :=
  -- Two namespaces, one of them of two names.
  { types := [{ name := "Account", ns := "bank" }, { name := "Entry", ns := "bank.ledger" }] }

theorem perNamespace_inside_ledgers :
    ∃ e, emit .perNamespace "schema.proto" ledgers (.of ledgers) = .ok e ∧
      (∀ f ∈ e.files, Text.startsWith f.1 "/" = false) ∧
      ∀ place content, ¬ ["work", "out"] <+: place →
        ((FileSystem.writeAll "out" e.files (.bare ["work"])).1.root.get? place =
            some (.file content) ↔
          (FileSystem.bare ["work"]).root.get? place = some (.file content)) := by
  obtain ⟨e, he, hplace⟩ : ∃ e, emit .perNamespace "schema.proto" ledgers (.of ledgers) = .ok e ∧
      (FileSystem.writeAll "out" e.files (.bare ["work"])).1.locate? "out" = some ["work", "out"] :=
    exists_ok_of_toOption (by decide +kernel)
  obtain ⟨hrelative, _, hinside⟩ := perNamespace_inside_iff ledgers "schema.proto" e he
  have hfiles := hrelative.mpr (by decide +kernel)
  exact ⟨e, he, hfiles, hinside e.files "out" _ _ _ _ (fun f hf => ⟨hf, hfiles f hf⟩)
    (by decide +kernel) rfl hplace⟩

def hiddenNamespace : Model := { types := [{ name := "Draft", ns := ".tmp" }] }

/-- A file by namespace can be written to the root, whatever the output directory is. -/
theorem perNamespace_leaves_directory :
    ∃ e, emit .perNamespace "schema.proto" hiddenNamespace (.of hiddenNamespace) = .ok e ∧
      e.files.map Prod.fst = ["/tmp.proto"] ∧
      ((FileSystem.writeAll "out" e.files (.bare ["work"])).1.root.get? ["tmp.proto"]).isSome := by
  obtain ⟨e, he, h⟩ : ∃ e,
      emit .perNamespace "schema.proto" hiddenNamespace (.of hiddenNamespace) = .ok e ∧
      (e.files.map Prod.fst,
        ((FileSystem.writeAll "out" e.files (.bare ["work"])).1.root.get? ["tmp.proto"]).isSome) =
          (["/tmp.proto"], true) :=
    exists_ok_of_toOption (by decide +kernel)
  obtain ⟨hpaths, hthere⟩ := Prod.mk.inj h
  exact ⟨e, he, hpaths, hthere⟩

end Proto

end Triglot
