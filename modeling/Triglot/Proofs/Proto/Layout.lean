import Triglot.Proofs.Proto.Imports

/-! The layouts of protocol buffer files. In files by namespace, names are distinct unless a
declaration without a namespace shares its name with one of the default namespace. A model in one
namespace is written the same in both layouts. -/
namespace Triglot

structure Scope.Agrees (a b : Scope) : Prop where
  table : a.table = b.table
  names : a.names = b.names
  ns : a.ns = b.ns
  refer : ∀ name s, a.resolve name = .ok s → a.refer s = b.refer s

namespace Scope.Agrees

variable {a b : Scope}

theorem resolve (h : a.Agrees b) (name : String) : a.resolve name = b.resolve name := by
  unfold Scope.resolve
  rw [h.table, h.ns]

theorem reference (h : a.Agrees b) (name : String) : a.reference name = b.reference name := by
  unfold Scope.reference
  rw [← h.resolve name]
  cases hs : a.resolve name with
  | error e => rfl
  | ok s => exact congrArg Except.ok (h.refer name s hs)

end Scope.Agrees

namespace Proto

section

variable {m : Model} {files : List (String × Rendered)}

theorem writtenPlaces_nodup_of_renderByNamespace (h : renderByNamespace m (.of m) = .ok files) :
    (m.writtenPlaces (.build m .proto)).Nodup := by
  rw [← namespaceConflicts_of_eq_nil_iff]
  cases hc : (NameTable.build m .proto).namespaceConflicts (.of m) with
  | nil => rfl
  | cons c cs =>
    rw [renderByNamespace_eq_error hc] at h
    cases h

/-- The names that the file of a namespace declares are those that stand in its namespace. -/
theorem declaredNames_of_renderByNamespace (h : renderByNamespace m (.of m) = .ok files)
    {key : String} {r : Rendered} (hr : (key, r) ∈ files) :
    r.file.declaredNames = ((m.writtenPlaces (.build m .proto)).filter
      fun p => effectiveNamespace p.2 == key).map Prod.fst := by
  obtain ⟨k, _, hk, hf⟩ := exists_of_mem_forall₂ (renderByNamespace_eq_ok h).flip hr
  cases hk
  rw [file_declaredNames hf]
  exact m.part_perDeclaration key _

end

/-- Conflicts are looked for in namespaces as they are declared, while files are made for effective
ones. So the names of a file are distinct unless a declaration without a namespace has the name of
one in the default namespace. -/
theorem declaredNames_nodup_iff (m : Model) (files : List (String × Rendered))
    (h : renderByNamespace m (.of m) = .ok files) :
    (∀ key r, (key, r) ∈ files → r.file.declaredNames.Nodup) ↔
      ∀ name, (name, "") ∈ m.writtenPlaces (.build m .proto) →
        (name, defaultNamespace) ∉ m.writtenPlaces (.build m .proto) := by
  have hplaces := writtenPlaces_nodup_of_renderByNamespace h
  constructor
  · intro hall name hempty hdefault
    have hkey : effectiveNamespace "" ∈ m.namespaces := Model.mem_namespaces_of_place hempty
    obtain ⟨⟨_, r⟩, hr, hk, _⟩ := exists_of_mem_forall₂ (renderByNamespace_eq_ok h) hkey
    cases hk
    have hnodup := hall _ r hr
    rw [declaredNames_of_renderByNamespace h hr] at hnodup
    -- Both stand in the file of the default namespace, so they would have to be the same.
    have hone : effectiveNamespace defaultNamespace = effectiveNamespace "" := rfl
    have hsame := List.inj_on_of_nodup_map hnodup
      (List.mem_filter.mpr ⟨hempty, beq_self_eq_true _⟩)
      (List.mem_filter.mpr ⟨hdefault, beq_iff_eq.mpr hone⟩) rfl
    have htwo : "" ≠ defaultNamespace := by decide
    exact htwo (congrArg Prod.snd hsame)
  · intro hapart key r hr
    rw [declaredNames_of_renderByNamespace h hr]
    refine (hplaces.filter _).map_on fun p hp q hq hpq => ?_
    obtain ⟨hp, hpkey⟩ := List.mem_filter.mp hp
    obtain ⟨hq, hqkey⟩ := List.mem_filter.mp hq
    obtain ⟨n, a⟩ := p
    obtain ⟨n', b⟩ := q
    cases hpq
    have hns : effectiveNamespace a = effectiveNamespace b :=
      (beq_iff_eq.mp hpkey).trans (beq_iff_eq.mp hqkey).symm
    rcases eq_of_effectiveNamespace_eq hns with rfl | ⟨rfl, rfl⟩ | ⟨rfl, rfl⟩
    · rfl
    · exact absurd hq (hapart n hp)
    · exact absurd hp (hapart n hq)

/-- Declarations without a namespace and in the default one, under different names. -/
theorem declaredNames_nodup_parcels :
    ∃ files, renderByNamespace parcels (.of parcels) = .ok files ∧
      files.map (fun p => (p.1, p.2.file.declaredNames)) =
        [("api", ["Note", "Memo"]), ("depot", ["Size", "Parcel"]), ("fleet", ["Route", "Cargo"])] ∧
      ∀ key r, (key, r) ∈ files → r.file.declaredNames.Nodup := by
  have hfiles : (renderByNamespace parcels (.of parcels)).toOption.map
      (fun files => files.map fun p => (p.1, p.2.file.declaredNames)) =
      some [("api", ["Note", "Memo"]), ("depot", ["Size", "Parcel"]),
        ("fleet", ["Route", "Cargo"])] := by decide +kernel
  have hapart : ∀ p ∈ parcels.writtenPlaces (.build parcels .proto), p.2 = "" →
      (p.1, defaultNamespace) ∉ parcels.writtenPlaces (.build parcels .proto) := by decide +kernel
  obtain ⟨files, h, hnames⟩ := exists_ok_of_toOption hfiles
  exact ⟨files, h, hnames, (declaredNames_nodup_iff parcels files h).mpr
    fun name hn => hapart (name, "") hn rfl⟩

def twoNotes : Model :=
  -- A note without a namespace and one in the namespace that such declarations get.
  { types := [{ name := "Note" }, { name := "Note", ns := "api" }] }

/-- Both notes go into one file. -/
theorem declaredNames_twoNotes :
    ∃ files, renderByNamespace twoNotes (.of twoNotes) = .ok files ∧
      ¬ ∀ key r, (key, r) ∈ files → r.file.declaredNames.Nodup := by
  have hfiles : (renderByNamespace twoNotes (.of twoNotes)).toOption.map
      (fun files => files.map fun p => (p.1, p.2.file.declaredNames)) =
      some [("api", ["Note", "Note"])] := by decide +kernel
  obtain ⟨files, h, hnames⟩ := exists_ok_of_toOption hfiles
  obtain ⟨p, rfl, hp⟩ := List.map_eq_singleton_iff.mp hnames
  refine ⟨[p], h, fun hall => ?_⟩
  have hnodup := hall p.1 p.2 List.mem_cons_self
  rw [(Prod.mk.inj hp).2] at hnodup
  exact absurd hnodup (by decide)

section

variable {a b : Scope}

theorem namedType_congr (h : a.Agrees b) (name : String) : namedType a name = namedType b name := by
  unfold namedType
  rw [h.reference name]

theorem mapValue_congr (h : a.Agrees b) (value : TypeExpr) : mapValue a value = mapValue b value := by
  induction value with
  | named name o =>
    simp only [mapValue, ← h.resolve name]
    split
    · rfl
    · split
      · rename_i s hs
        rw [h.refer name s hs]
      · rfl
  | array items o => rfl
  | map key value o ih => rw [mapValue, mapValue, ih]

theorem fieldType_congr (h : a.Agrees b) (type : TypeExpr) : fieldType a type = fieldType b type := by
  cases type with
  | named name o => simp only [fieldType, namedType_congr h]
  | map key value o => simp only [fieldType, synthesizeMap, mapValue_congr h]
  | array items o =>
    cases items with
    | named name o => simp only [fieldType, elementType, namedType_congr h]
    | array items o => rfl
    | map key value o => rfl

theorem mapWarnings_congr (h : a.Agrees b) (value : TypeExpr) :
    mapWarnings a value = mapWarnings b value := by
  induction value with
  | named name o => simp only [mapWarnings, MapValue.classify, h.resolve, h.ns]
  | array items o => simp only [mapWarnings, h.ns]
  | map key value o ih => rw [mapWarnings, mapWarnings, ih]

theorem typeWarnings_congr (h : a.Agrees b) (type : TypeExpr) :
    typeWarnings a type = typeWarnings b type := by
  cases type with
  | named name o => rfl
  | map key value o => exact mapWarnings_congr h value
  | array items o =>
    cases items with
    | named name o => rfl
    | array items o => simp only [typeWarnings, elementWarnings, h.ns]
    | map key value o => simp only [typeWarnings, elementWarnings, h.ns]

/-- A message is written alike in views that agree. -/
theorem messageBlock_congr {t : ObjectType} (h : (a.within t.ns).Agrees (b.within t.ns)) :
    messageBlock a t = messageBlock b t := by
  have hnames : a.names = b.names := h.names
  have hline (f : Field) (n : UInt32) :
      fieldLine (a.within t.ns) f n = fieldLine (b.within t.ns) f n := by
    rw [fieldLine, fieldLine, fieldType_congr h]
  unfold messageBlock
  simp only [Scope.within, hnames] at hline ⊢
  split
  · rfl
  · rw [mapM_congr fun p _ => hline p.1 p.2]

theorem members_congr (h : a.Agrees b) (next : Nat) (options : List String) :
    members a next options = members b next options := by
  induction options generalizing next with
  | nil => rfl
  | cons o os ih =>
    rw [members, members, ← h.resolve o, ih]
    cases hs : a.resolve o with
    | error e => rfl
    | ok s =>
      change (members b (next + 1) os >>= _) = (members b (next + 1) os >>= _)
      rw [h.refer o s hs]

theorem renderUnion_congr {u : UnionType} (h : (a.within u.ns).Agrees (b.within u.ns)) :
    renderUnion (a.within u.ns) u = renderUnion (b.within u.ns) u := by
  rw [renderUnion, renderUnion, members_congr h, h.names]

theorem serviceBlock_congr {s : Service} (h : (a.within s.ns).Agrees (b.within s.ns)) :
    serviceBlock a s = serviceBlock b s := by
  have hrpc (k : Method) : rpc (a.within s.ns) k = rpc (b.within s.ns) k := by
    rw [rpc, rpc, namedType_congr h, namedType_congr h]
  rw [serviceBlock, serviceBlock, mapM_congr fun k _ => hrpc k]

variable {part : Model} {ns : String}

/-- A part in one namespace is written the same in views that agree there. -/
theorem file_congr (hp : part.InNamespace ns) (h : (a.within ns).Agrees (b.within ns))
    (package : String) (paths : List String) :
    file a part package paths = file b part package paths := by
  have henums : part.enums.map (enumBlock a) = part.enums.map (enumBlock b) := by
    have hnames : a.names = b.names := h.names
    exact List.map_congr_left fun e _ => by rw [enumBlock, enumBlock, hnames]
  have hmessages : part.types.mapM (messageBlock a) = part.types.mapM (messageBlock b) :=
    mapM_congr fun t ht => messageBlock_congr (hp.types t ht ▸ h)
  have hunions : (part.unions.mapM fun u => renderUnion (a.within u.ns) u) =
      part.unions.mapM fun u => renderUnion (b.within u.ns) u :=
    mapM_congr fun u hu => renderUnion_congr (hp.unions u hu ▸ h)
  have hservices : part.services.mapM (serviceBlock a) = part.services.mapM (serviceBlock b) :=
    mapM_congr fun s hs => serviceBlock_congr (hp.services s hs ▸ h)
  rw [file, file, henums, hmessages, hunions, hservices]

theorem fileWarnings_congr (hp : part.InNamespace ns) (h : (a.within ns).Agrees (b.within ns)) :
    fileWarnings a part = fileWarnings b part := by
  unfold fileWarnings
  refine List.flatMap_congr fun t ht => List.flatMap_congr fun f _ => ?_
  exact typeWarnings_congr (hp.types t ht ▸ h) f.type

end

/-- Paths decide the imports of a file and nothing else, not even whether it can be made. -/
theorem file_paths (scope : Scope) (part : Model) (package : String) (paths : List String) :
    file scope part package paths =
      (file scope part package []).map fun f => { f with imports := fileImports part paths } := by
  unfold file
  cases part.types.mapM (messageBlock scope) with
  | error e => rfl
  | ok messages =>
    cases (part.unions.mapM fun u => renderUnion (scope.within u.ns) u).mapError EmitError.resolve with
    | error e => rfl
    | ok unions =>
      cases (part.services.mapM (serviceBlock scope)).mapError EmitError.resolve with
      | error e => rfl
      | ok services => rfl

/-- A file that could be made found all its options and payloads. Names in fields may be missing
there, behind a placeholder. -/
theorem referencesResolve_of_file {scope : Scope} {part : Model} {package : String}
    {paths : List String} {f : File} (he : file scope part package paths = .ok f)
    (hf : part.FieldsResolve scope.table .proto) : part.ReferencesResolve scope.table .proto := by
  obtain ⟨_, _, _, hu, hs⟩ := file_eq_ok he
  refine ⟨hf, fun u hum o ho _ => ?_, fun s hsm k hk => ?_⟩
  · obtain ⟨b, _, hb⟩ := exists_of_mem_forall₂ (mapM_eq_ok hu) hum
    obtain ⟨l, _, s, hs, _⟩ := exists_of_mem_forall₂ (members_eq_ok (renderUnion_eq_ok hb).2) ho
    exact ⟨s, hs⟩
  · have hnamed {name : String} {t : FieldType} (ht : namedType (scope.within s.ns) name = .ok t)
        (hn : isScalar name = false) : Succeeds (scope.table.resolve name s.ns) := by
      have hnone : Scalar.ofName? name = none := by simpa [isScalar] using hn
      simp only [namedType, hnone] at ht
      obtain ⟨r, hr, _⟩ := map_eq_ok ht
      obtain ⟨symbol, hsymbol, _⟩ := map_eq_ok hr
      exact ⟨symbol, hsymbol⟩
    obtain ⟨b, _, hb⟩ := exists_of_mem_forall₂ (mapM_eq_ok hs) hsm
    obtain ⟨r, _, hr⟩ := exists_of_mem_forall₂ (mapM_eq_ok (serviceBlock_eq_ok hb)) hk
    obtain ⟨hi, ho⟩ := rpc_eq_ok hr
    exact ⟨hnamed hi, hnamed ho⟩

section

variable {m : Model}

/-- Where there is one namespace, nothing is foreign. -/
theorem agrees_of_inNamespace (h : m.InNamespace m.ns) :
    ((splitScope m).within m.ns).Agrees ((Scope.flat m (.of m) .proto).within m.ns) where
  table := rfl
  names := rfl
  ns := rfl
  refer name s hs := by
    have hns : s.ns = m.ns := h.of_declares (SymbolTable.declares_of_resolve hs)
    simp [Scope.refer, splitScope, Scope.flat, Scope.within, hns]

theorem requiredImports_eq_nil (hne : 0 < m.declarationCount) (h : m.InNamespace m.ns)
    {part : Model} (hpart : part.ns = effectiveNamespace m.ns)
    (hres : part.ReferencesResolve (.of m) .proto) : requiredImports part (.of m) .proto = [] := by
  apply List.eq_nil_iff_forall_not_mem.mpr
  intro ns hns
  have hmem : ns ∈ [effectiveNamespace m.ns] := h.namespaces_eq hne ▸ requiredImports_subset hres hns
  apply (mem_requiredImports.mp hns).1
  rw [hpart, effectiveNamespace_idem]
  exact List.mem_singleton.mp hmem

/-- The file of the only part is that of the model. -/
theorem file_part_eq (hne : 0 < m.declarationCount) (h : m.InNamespace m.ns)
    (hf : m.FieldsResolve (.of m) .proto) :
    file (splitScope m) (m.part (effectiveNamespace m.ns)) (effectiveNamespace m.ns)
        (partImports (.of m) (m.part (effectiveNamespace m.ns))) =
      file (.flat m (.of m) .proto) m (effectiveNamespace m.ns) [] := by
  have hagree := agrees_of_inNamespace h
  rw [h.part_eq]
  -- A file is written for a package, so the namespace that the part itself got does not show in it.
  have hpart : file (splitScope m) { m with ns := effectiveNamespace m.ns } (effectiveNamespace m.ns)
      [] = file (.flat m (.of m) .proto) m (effectiveNamespace m.ns) [] := by
    have hsame := file_congr h hagree (effectiveNamespace m.ns) []
    exact hsame
  rw [file_paths, hpart]
  cases hfile : file (.flat m (.of m) .proto) m (effectiveNamespace m.ns) [] with
  | error e => rfl
  | ok f =>
    obtain ⟨hfields, hoptions, hpayloads⟩ := referencesResolve_of_file hfile hf
    have hres : ({ m with ns := effectiveNamespace m.ns } : Model).ReferencesResolve (.of m) .proto :=
      ⟨hfields, hoptions, hpayloads⟩
    have hpaths : partImports (.of m) { m with ns := effectiveNamespace m.ns } = [] := by
      rw [partImports, requiredImports_eq_nil hne h rfl hres]
      rfl
    have himports : f.imports = fileImports m [] := (file_eq_ok hfile).1
    rw [hpaths]
    change Except.ok { f with imports := fileImports m [] } = Except.ok f
    rw [← himports]

end

/-- A model in one namespace is written the same in both layouts: both fail with one error, or the
file of that namespace is the only one, and it and the warnings about it are those of the layout in
one file. -/
theorem renderByNamespace_eq_renderSingle (m : Model) (hne : 0 < m.declarationCount)
    (h : m.InNamespace m.ns) (hf : m.FieldsResolve (.of m) .proto) :
    renderByNamespace m (.of m) =
      (renderSingle m (.of m)).map fun r => [(effectiveNamespace m.ns, r)] := by
  have hconflicts : (NameTable.build m .proto).namespaceConflicts (.of m) =
      (NameTable.build m .proto).flatConflicts (.of m) :=
    SymbolTable.namespaceConflicts_eq_flatConflicts h.of_mem_declarations _
  have hwarnings : fileWarnings (splitScope m) (m.part (effectiveNamespace m.ns)) =
      fileWarnings (.flat m (.of m) .proto) m := by
    have hsame := fileWarnings_congr h (agrees_of_inNamespace h)
    rw [h.part_eq]
    exact hsame
  have hpartition : m.partition = [(effectiveNamespace m.ns, m.part (effectiveNamespace m.ns))] := by
    rw [Model.partition_eq, h.namespaces_eq hne]
    rfl
  have hfile := file_part_eq hne h hf
  unfold renderByNamespace renderSingle
  simp only [hconflicts, hpartition]
  split
  · rfl
  · simp only [splitScope, Scope.flat] at hfile hwarnings
    rw [List.mapM_cons, List.mapM_nil]
    simp only [hfile, hwarnings]
    cases file { table := .of m, names := .build m .proto, qualification := .flat } m
      (effectiveNamespace m.ns) [] with
    | error e => rfl
    | ok f => rfl

def clinic : Model :=
  -- One namespace without a name, where names are overridden and lists and maps nest.
  { annotations := { Annotations.none with proto := { options := ["java_package = \"clinic\""] } }
    enums := [{ name := "Ward", members := [{ name := "EAST" }, { name := "WEST", number := some 4 }] }]
    types :=
      [{ name := "Patient"
         annotations := { Annotations.none with proto := { name := some "Person" } }
         fields := [{ name := "ward", type := .named "Ward" true },
           { name := "born", type := .named "timestamp" false }] },
       { name := "Round"
         fields :=
          [{ name := "visits"
             type := .map "string" (.map "int32" (.named "Patient" false) false) false },
           { name := "notes", type := .array (.array (.named "string" false) false) false }] }]
    unions := [{ name := "Entry", options := ["Patient", "Round"] }]
    services := [{ name := "Clinic", methods := [{ name := "Admit", input := "Patient", output := "Entry" }] }] }

theorem renderByNamespace_clinic :
    0 < clinic.declarationCount ∧ clinic.InNamespace clinic.ns ∧
      clinic.FieldsResolve (.of clinic) .proto ∧
      ∃ r, renderSingle clinic (.of clinic) = .ok r ∧ r.warnings.length = 1 ∧
        r.file.declaredNames = ["Ward", "Person", "Round", "Entry"] ∧
        renderByNamespace clinic (.of clinic) = .ok [("api", r)] := by
  have hne : 0 < clinic.declarationCount := by decide
  have hns : clinic.InNamespace clinic.ns := by decide +kernel
  have hf : clinic.FieldsResolve (.of clinic) .proto := by decide +kernel
  have hr : (renderSingle clinic (.of clinic)).toOption.map
      (fun r => (r.warnings.length, r.file.declaredNames)) =
      some (1, ["Ward", "Person", "Round", "Entry"]) := by decide +kernel
  obtain ⟨r, hr, hfacts⟩ := exists_ok_of_toOption hr
  obtain ⟨hwarnings, hnames⟩ := Prod.mk.inj hfacts
  refine ⟨hne, hns, hf, r, hr, hwarnings, hnames, ?_⟩
  rw [renderByNamespace_eq_renderSingle clinic hne hns hf, hr]
  rfl

end Proto

end Triglot
