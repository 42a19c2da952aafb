import Triglot.Proofs.Namespace.Partition
import Triglot.Proofs.Proto.Success

/-! Every reference that is written in a protocol buffer file leads to a block: of the same file if it
has no namespace in front, and otherwise of the file of that namespace. -/
namespace Triglot

def Scope.RefersKnown (scope : Scope) (known : Reference → Prop) : Prop :=
  ∀ name s, scope.resolve name = .ok s → known (scope.refer s)

namespace Proto

section

variable {scope : Scope} {known : Reference → Prop}

theorem namedType_known (h : scope.RefersKnown known) {name : String} {t : FieldType}
    (he : namedType scope name = .ok t) : ∀ r ∈ t.references, known r := by
  unfold namedType at he
  split at he
  · cases he
    simp [FieldType.references]
  · obtain ⟨r, hr, rfl⟩ := map_eq_ok he
    obtain ⟨s, hs, rfl⟩ := map_eq_ok hr
    simpa [FieldType.references] using h name s hs

/-- At any depth, the value of a map is a scalar, a placeholder or a known declaration. -/
theorem mapValue_known (h : scope.RefersKnown known) (value : TypeExpr) :
    ∀ r ∈ (mapValue scope value).references, known r := by
  induction value with
  | named name o =>
    unfold mapValue
    split
    · simp [FieldType.references]
    · split
      · rename_i s hs
        simpa [FieldType.references] using h name s hs
      · simp [FieldType.references]
  | array items o => simp [mapValue, FieldType.references]
  | map key value o ih => exact ih

theorem fieldType_known (h : scope.RefersKnown known) {type : TypeExpr} {p : Label × FieldType}
    (he : fieldType scope type = .ok p) : ∀ r ∈ p.2.references, known r := by
  cases type with
  | named name o =>
    obtain ⟨t, ht, rfl⟩ := map_eq_ok he
    exact namedType_known h ht
  | map key value o =>
    cases he
    exact mapValue_known h value
  | array items o =>
    obtain ⟨t, ht, rfl⟩ := map_eq_ok he
    cases items with
    | named name o => exact namedType_known h ht
    | array items o =>
      cases ht
      simp [FieldType.references]
    | map key value o =>
      cases ht
      simp [FieldType.references]

theorem members_known (h : scope.RefersKnown known) {next : Nat} {options : List String}
    {ls : List MemberLine} (he : members scope next options = .ok ls) :
    ∀ l ∈ ls, known l.reference := by
  induction options generalizing next ls with
  | nil =>
    cases he
    simp
  | cons o os ih =>
    obtain ⟨s, hs, he⟩ := bind_eq_ok he
    obtain ⟨rest, hrest, he⟩ := bind_eq_ok he
    cases he
    exact List.forall_mem_cons.mpr ⟨h o s hs, ih hrest⟩

/-- The message of an object type has its name, and a line for each field that has a number. -/
theorem messageBlock_eq_ok {t : ObjectType} {b : MessageBlock} (he : messageBlock scope t = .ok b) :
    b.name = scope.names.declaredName t.ns t.name ∧
      (numberFields t .proto).mapM (fun p => fieldLine (scope.within t.ns) p.1 p.2) = .ok b.lines := by
  unfold messageBlock at he
  dsimp only at he
  split at he
  · cases he
  · obtain ⟨lines, hlines, he⟩ := bind_eq_ok he
    cases he
    exact ⟨rfl, mapError_eq_ok hlines⟩

theorem fieldLine_eq_ok {f : Field} {number : UInt32} {l : FieldLine}
    (he : fieldLine scope f number = .ok l) : ∃ label, fieldType scope f.type = .ok (label, l.type) := by
  obtain ⟨p, hp, he⟩ := bind_eq_ok he
  cases he
  exact ⟨p.1, hp⟩

theorem messageBlock_known {t : ObjectType} (h : (scope.within t.ns).RefersKnown known)
    {b : MessageBlock} (he : messageBlock scope t = .ok b) :
    ∀ l ∈ b.lines, ∀ r ∈ l.type.references, known r := by
  intro l hl
  obtain ⟨p, _, hp⟩ := exists_of_mem_mapM (messageBlock_eq_ok he).2 hl
  obtain ⟨label, hf⟩ := fieldLine_eq_ok hp
  exact fieldType_known h hf

theorem renderUnion_eq_ok {u : UnionType} {b : UnionBlock} (he : renderUnion scope u = .ok b) :
    b.name = scope.names.declaredName u.ns u.name ∧ members scope 1 u.options = .ok b.members := by
  obtain ⟨ls, hls, he⟩ := bind_eq_ok he
  cases he
  exact ⟨rfl, hls⟩

theorem serviceBlock_eq_ok {s : Service} {b : ServiceBlock} (he : serviceBlock scope s = .ok b) :
    s.methods.mapM (rpc (scope.within s.ns)) = .ok b.rpcs := by
  obtain ⟨rpcs, hrpcs, he⟩ := bind_eq_ok he
  cases he
  exact hrpcs

theorem rpc_eq_ok {k : Method} {r : Rpc} (he : rpc scope k = .ok r) :
    namedType scope k.input = .ok r.input ∧ namedType scope k.output = .ok r.output := by
  obtain ⟨input, hi, he⟩ := bind_eq_ok he
  obtain ⟨output, ho, he⟩ := bind_eq_ok he
  cases he
  exact ⟨hi, ho⟩

theorem serviceBlock_known {s : Service} (h : (scope.within s.ns).RefersKnown known)
    {b : ServiceBlock} (he : serviceBlock scope s = .ok b) :
    ∀ r ∈ b.rpcs, ∀ ref ∈ r.input.references ++ r.output.references, known ref := by
  intro r hr
  obtain ⟨k, _, hk⟩ := exists_of_mem_mapM (serviceBlock_eq_ok he) hr
  obtain ⟨hi, ho⟩ := rpc_eq_ok hk
  exact List.forall_mem_append.mpr ⟨namedType_known h hi, namedType_known h ho⟩

structure KnownWithin (scope : Scope) (known : Reference → Prop) (part : Model) : Prop where
  types : ∀ t ∈ part.types, (scope.within t.ns).RefersKnown known
  unions : ∀ u ∈ part.unions, (scope.within u.ns).RefersKnown known
  services : ∀ s ∈ part.services, (scope.within s.ns).RefersKnown known

/-- The blocks of a file are those of its part, kind by kind. -/
theorem file_eq_ok {part : Model} {package : String} {paths : List String} {f : File}
    (he : file scope part package paths = .ok f) :
    f.imports = fileImports part paths ∧ f.enums = part.enums.map (enumBlock scope) ∧
      part.types.mapM (messageBlock scope) = .ok f.messages ∧
      (part.unions.mapM fun u => renderUnion (scope.within u.ns) u) = .ok f.unions ∧
      part.services.mapM (serviceBlock scope) = .ok f.services := by
  obtain ⟨messages, hm, he⟩ := bind_eq_ok he
  obtain ⟨unions, hu, he⟩ := bind_eq_ok he
  obtain ⟨services, hs, he⟩ := bind_eq_ok he
  cases he
  exact ⟨rfl, rfl, hm, mapError_eq_ok hu, mapError_eq_ok hs⟩

/-- A file declares the names of its part. -/
theorem file_declaredNames {part : Model} {package : String} {paths : List String} {f : File}
    (he : file scope part package paths = .ok f) :
    f.declaredNames = part.writtenNames scope.names := by
  obtain ⟨_, henums, hm, hu, _⟩ := file_eq_ok he
  -- Blocks stand in the order of their declarations, so that names can be compared one by one.
  have hmnames : f.messages.map (·.name) =
      part.types.map fun t => scope.names.declaredName t.ns t.name :=
    map_eq_of_mapM hm fun t _ b hb => (messageBlock_eq_ok hb).1
  have hunames : f.unions.map (·.name) =
      part.unions.map fun u => scope.names.declaredName u.ns u.name :=
    map_eq_of_mapM hu fun u _ b hb => (renderUnion_eq_ok hb).1
  simp only [File.declaredNames, henums, hmnames, hunames, List.map_map]
  rfl

/-- A file declares the names of its part and refers to what is known there. -/
theorem file_known {part : Model} (h : KnownWithin scope known part) {package : String}
    {paths : List String} {f : File} (he : file scope part package paths = .ok f) :
    f.declaredNames = part.writtenNames scope.names ∧ ∀ r ∈ f.references, known r := by
  obtain ⟨_, _, hm, hu, hs⟩ := file_eq_ok he
  refine ⟨file_declaredNames he, ?_⟩
  simp only [File.references, List.forall_mem_append, List.mem_flatMap, List.mem_map]
  refine ⟨⟨?_, ?_⟩, ?_⟩
  · rintro r ⟨b, hb, l, hl, hr⟩
    obtain ⟨t, ht, hb⟩ := exists_of_mem_mapM hm hb
    exact messageBlock_known (h.types t ht) hb l hl r hr
  · rintro r ⟨b, hb, l, hl, rfl⟩
    obtain ⟨u, hu', hb⟩ := exists_of_mem_mapM hu hb
    exact members_known (h.unions u hu') (renderUnion_eq_ok hb).2 l hl
  · rintro r ⟨b, hb, k, hk, hr⟩
    obtain ⟨s, hs', hb⟩ := exists_of_mem_mapM hs hb
    exact serviceBlock_known (h.services s hs') hb k hk r hr

end

/-- References of a flat scope are written without a namespace, under a name of the model. -/
theorem knownWithin_flat (m : Model) :
    KnownWithin (.flat m (.of m) .proto)
      (fun r => ∃ n ∈ m.writtenNames (.build m .proto), r = ⟨none, n⟩) m := by
  have hall (ns : String) : ((Scope.flat m (.of m) .proto).within ns).RefersKnown
      fun r => ∃ n ∈ m.writtenNames (.build m .proto), r = ⟨none, n⟩ :=
    fun _ s hs => ⟨_, emitted_mem_writtenNames (.build m .proto) hs, rfl⟩
  exact ⟨fun t _ => hall t.ns, fun u _ => hall u.ns, fun s _ => hall s.ns⟩

def splitScope (m : Model) : Scope :=
  { table := .of m, names := .build m .proto, qualification := .byNamespace }

/-- A reference from one part leads to a name of that part, or to one of another part with the
namespace of that part in front. -/
def LeadsToPart (m : Model) (key : String) (r : Reference) : Prop :=
  (∃ n ∈ (m.part key).writtenNames (.build m .proto), r = ⟨none, n⟩) ∨
    ∃ other ∈ m.namespaces, other ≠ key ∧
      ∃ n ∈ (m.part other).writtenNames (.build m .proto), r = ⟨some other, n⟩

/-- References in one part lead to the declarations of some part. -/
theorem knownWithin_part (m : Model) (key : String) :
    KnownWithin (splitScope m) (LeadsToPart m key) (m.part key) := by
  have hall (ns : String) (hns : effectiveNamespace ns = key) :
      ((splitScope m).within ns).RefersKnown (LeadsToPart m key) := by
    intro name s hs
    have hd : m.Declares s := SymbolTable.declares_of_resolve hs
    have hmem := hd.mem_namespaces
    have hname := hd.mem_part (.build m .proto)
    -- The namespace of the symbol is compared with that of the part, both in their effective form.
    by_cases hsame : effectiveNamespace s.ns = key
    · rw [hsame] at hname
      refine .inl ⟨_, hname, ?_⟩
      simp [Scope.refer, splitScope, Scope.within, hns, hsame]
    · refine .inr ⟨_, hmem, hsame, _, hname, ?_⟩
      simp [Scope.refer, splitScope, Scope.within, hns, hsame]
  have hkey {ns : String} (h : (effectiveNamespace ns == key) = true) := hall ns (beq_iff_eq.mp h)
  exact ⟨fun t ht => hkey (List.mem_filter.mp ht).2, fun u hu => hkey (List.mem_filter.mp hu).2,
    fun s hs => hkey (List.mem_filter.mp hs).2⟩

theorem renderSingle_eq_ok {m : Model} {table : SymbolTable} {r : Rendered}
    (h : renderSingle m table = .ok r) :
    file (.flat m table .proto) m (effectiveNamespace m.ns) [] = .ok r.file := by
  unfold renderSingle at h
  dsimp only at h
  split at h
  · cases h
  · obtain ⟨f, hf, h⟩ := bind_eq_ok h
    cases h
    exact hf

/-- The files by namespace are those of the parts of the model. -/
theorem renderByNamespace_eq_ok {m : Model} {files : List (String × Rendered)}
    (h : renderByNamespace m (.of m) = .ok files) :
    List.Forall₂ (fun key p => p.1 = key ∧ file (splitScope m) (m.part key) key
      (partImports (.of m) (m.part key)) = .ok p.2.file) m.namespaces files := by
  unfold renderByNamespace at h
  dsimp only at h
  split at h
  · cases h
  · rw [Model.partition_eq] at h
    have hall := List.forall₂_map_left_iff.mp (mapM_eq_ok h)
    refine hall.imp fun key p hp => ?_
    obtain ⟨f, hf, hp⟩ := bind_eq_ok hp
    cases hp
    exact ⟨rfl, hf⟩

/-- References of protocol buffer files are closed. In one file, each is the name of a block there.
In files by namespace, each is the name of a block of its own file, or the namespace and a name of a
block of another file. -/
theorem references_closed (m : Model) :
    (∀ r, renderSingle m (.of m) = .ok r →
      ∀ ref ∈ r.file.references, ∃ n ∈ r.file.declaredNames, ref = ⟨none, n⟩) ∧
    ∀ files, renderByNamespace m (.of m) = .ok files → ∀ key r, (key, r) ∈ files →
      ∀ ref ∈ r.file.references,
        (∃ n ∈ r.file.declaredNames, ref = ⟨none, n⟩) ∨
          ∃ other q, (other, q) ∈ files ∧ other ≠ key ∧
            ∃ n ∈ q.file.declaredNames, ref = ⟨some other, n⟩ := by
  constructor
  · intro r hr
    obtain ⟨hnames, hrefs⟩ := file_known (knownWithin_flat m) (renderSingle_eq_ok hr)
    rw [hnames]
    exact hrefs
  · intro files hfiles key r hmem ref href
    have hall := renderByNamespace_eq_ok hfiles
    have hdeclared {k : String} {q : Rendered} (hf : file (splitScope m) (m.part k) k
        (partImports (.of m) (m.part k)) = .ok q.file) := file_known (knownWithin_part m k) hf
    obtain ⟨k, _, hk, hf⟩ := exists_of_mem_forall₂ hall.flip hmem
    cases hk
    obtain ⟨hnames, hrefs⟩ := hdeclared hf
    rcases hrefs ref href with hown | ⟨other, hother, hne, n, hn, rfl⟩
    · rw [hnames]
      exact .inl hown
    -- Each part has its file, so the part that a reference leads to has one.
    · obtain ⟨⟨_, q⟩, hq, hk, hfile⟩ := exists_of_mem_forall₂ hall hother
      cases hk
      refine .inr ⟨_, q, hq, hne, n, ?_, rfl⟩
      rw [(hdeclared hfile).1]
      exact hn

def parcels : Model :=
  -- Three namespaces, one of them unnamed, with references in lists, nested maps, a union and a
  -- method.
  { enums := [{ name := "Size", ns := "depot", members := [{ name := "SMALL" }] }]
    types :=
      [{ name := "Parcel", ns := "depot"
         fields := [{ name := "size", type := .named "Size" false }] },
       { name := "Route", ns := "fleet"
         fields :=
          [{ name := "stops", type := .array (.named "Parcel" false) false },
           { name := "load"
             type := .map "string" (.map "int32" (.named "depot.Size" false) false) false }] },
       { name := "Note", fields := [{ name := "about", type := .named "Route" false }] },
       { name := "Memo", ns := "api", fields := [{ name := "note", type := .named "Note" false }] }]
    unions := [{ name := "Cargo", ns := "fleet", options := ["Parcel", "Route"] }]
    services := [{ name := "Fleet", ns := "fleet"
                   methods := [{ name := "Plan", input := "Memo", output := "Cargo" }] }] }

theorem references_closed_parcels :
    (∃ r, renderSingle parcels (.of parcels) = .ok r ∧
      r.file.references.map Reference.text =
        ["Size", "Parcel", "Size", "Route", "Note", "Parcel", "Route", "Memo", "Cargo"] ∧
      ∀ ref ∈ r.file.references, ∃ n ∈ r.file.declaredNames, ref = ⟨none, n⟩) ∧
    ∃ files, renderByNamespace parcels (.of parcels) = .ok files ∧
      files.map (fun p => (p.1, p.2.file.references.map Reference.text)) =
        [("api", ["fleet.Route", "Note"]), ("depot", ["Size"]),
          ("fleet", ["depot.Parcel", "depot.Size", "depot.Parcel", "Route", "api.Memo", "Cargo"])] ∧
      ∀ key r, (key, r) ∈ files → ∀ ref ∈ r.file.references,
        (∃ n ∈ r.file.declaredNames, ref = ⟨none, n⟩) ∨
          ∃ other q, (other, q) ∈ files ∧ other ≠ key ∧
            ∃ n ∈ q.file.declaredNames, ref = ⟨some other, n⟩ := by
  have hsingle : (renderSingle parcels (.of parcels)).toOption.map
      (fun r => r.file.references.map Reference.text) =
      some ["Size", "Parcel", "Size", "Route", "Note", "Parcel", "Route", "Memo", "Cargo"] := by
    decide +kernel
  have hsplit : (renderByNamespace parcels (.of parcels)).toOption.map
      (fun files => files.map fun p => (p.1, p.2.file.references.map Reference.text)) =
      some [("api", ["fleet.Route", "Note"]), ("depot", ["Size"]),
        ("fleet", ["depot.Parcel", "depot.Size", "depot.Parcel", "Route", "api.Memo", "Cargo"])] := by
    decide +kernel
  obtain ⟨hflat, hparts⟩ := references_closed parcels
  obtain ⟨r, hr, hrefs⟩ := exists_ok_of_toOption hsingle
  obtain ⟨files, hfiles, hall⟩ := exists_ok_of_toOption hsplit
  exact ⟨⟨r, hr, hrefs, hflat r hr⟩, files, hfiles, hall, hparts files hfiles⟩

end Proto

end Triglot
