import Triglot.Proofs.Entries
import Triglot.Proofs.Proto.Closure

/-! Imports of protocol buffer files by namespace. References are written by one walk over a part and
its imports are gathered by another; both come from the same names, so a file imports what it is
written with, and nothing outside of the model as long as its names find their declarations. -/
namespace Triglot

theorem Scalar.name_of_ofName? {name : String} {s : Scalar} (h : Scalar.ofName? name = some s) :
    name = s.name := by
  have hmem : (name, s) ∈ Scalar.table := mem_of_lookup h
  obtain ⟨s', _, he⟩ := List.mem_map.mp hmem
  cases he
  rfl

theorem isScalar_of_ofName?_eq_none {name : String} (h : Scalar.ofName? name = none) :
    isScalar name = false := by
  simp [isScalar, h]

namespace Proto

def FieldType.leaf : FieldType → FieldType
  | .map _ value => value.leaf
  | t => t

def File.writtenTypes (f : File) : List FieldType :=
  (f.messages.flatMap fun b => b.lines.map fun l => l.type.leaf) ++
    f.services.flatMap fun b => b.rpcs.flatMap fun r => [r.input.leaf, r.output.leaf]

inductive WrittenAs (scope : Scope) (name : String) : FieldType → Prop
  | scalar {s : Scalar} : Scalar.ofName? name = some s → WrittenAs scope name (.scalar s)
  | declared {s : Symbol} : isScalar name = false → scope.resolve name = .ok s →
      WrittenAs scope name (.declared (scope.refer s))
  | placeholder : WrittenAs scope name .placeholder

section

variable {scope : Scope}

theorem namedType_writtenAs {name : String} {t : FieldType} (he : namedType scope name = .ok t) :
    WrittenAs scope name t.leaf := by
  unfold namedType at he
  split at he
  · rename_i hs
    cases he
    exact .scalar hs
  · rename_i hn
    obtain ⟨r, hr, rfl⟩ := map_eq_ok he
    obtain ⟨s, hs, rfl⟩ := map_eq_ok hr
    exact .declared (isScalar_of_ofName?_eq_none hn) hs

/-- Maps are written down to the name at their end. -/
theorem mapValue_writtenAs (value : TypeExpr) :
    WrittenAs scope value.leafName (mapValue scope value).leaf := by
  induction value with
  | named name o =>
    unfold mapValue
    split
    · rename_i hs
      exact .scalar hs
    · rename_i hn
      split
      · rename_i hs
        exact .declared (isScalar_of_ofName?_eq_none hn) hs
      · exact .placeholder
  | array items o => exact .placeholder
  | map key value o ih => exact ih

theorem fieldType_writtenAs {type : TypeExpr} {p : Label × FieldType}
    (he : fieldType scope type = .ok p) : WrittenAs scope type.leafName p.2.leaf := by
  cases type with
  | named name o =>
    obtain ⟨t, ht, rfl⟩ := map_eq_ok he
    exact namedType_writtenAs ht
  | map key value o =>
    cases he
    exact mapValue_writtenAs value
  | array items o =>
    obtain ⟨t, ht, rfl⟩ := map_eq_ok he
    cases items with
    | named name o => exact namedType_writtenAs ht
    | array items o =>
      cases ht
      exact .placeholder
    | map key value o =>
      cases ht
      exact .placeholder

/-- Each member of a union refers to what its option finds. -/
theorem members_eq_ok {next : Nat} {options : List String} {ls : List MemberLine}
    (he : members scope next options = .ok ls) :
    List.Forall₂ (fun o l => ∃ s, scope.resolve o = .ok s ∧ l.reference = scope.refer s)
      options ls := by
  induction options generalizing next ls with
  | nil =>
    cases he
    exact .nil
  | cons o os ih =>
    obtain ⟨s, hs, he⟩ := bind_eq_ok he
    obtain ⟨rest, hrest, he⟩ := bind_eq_ok he
    cases he
    exact .cons ⟨s, hs, rfl⟩ (ih hrest)

variable {part : Model} {package : String} {paths : List String} {f : File}

/-- Every type in a file is what the name of an included field or of a payload is written as. -/
theorem writtenAs_of_mem_writtenTypes (he : file scope part package paths = .ok f) {t : FieldType}
    (ht : t ∈ f.writtenTypes) :
    (∃ o ∈ part.types, ∃ fd ∈ o.includedFields .proto,
      WrittenAs (scope.within o.ns) fd.type.leafName t) ∨
    ∃ s ∈ part.services, ∃ k ∈ s.methods, ∃ name, (name = k.input ∨ name = k.output) ∧
      WrittenAs (scope.within s.ns) name t := by
  obtain ⟨_, _, hm, _, hs⟩ := file_eq_ok he
  simp only [File.writtenTypes, List.mem_append, List.mem_flatMap, List.mem_map, List.mem_cons,
    List.not_mem_nil, or_false] at ht
  rcases ht with ⟨b, hb, l, hl, rfl⟩ | ⟨b, hb, r, hr, ht⟩
  · obtain ⟨o, ho, hb⟩ := exists_of_mem_mapM hm hb
    obtain ⟨p, hp, hl⟩ := exists_of_mem_mapM (messageBlock_eq_ok hb).2 hl
    obtain ⟨label, htype⟩ := fieldLine_eq_ok hl
    exact .inl ⟨o, ho, p.1, mem_of_mem_numberFrom hp, fieldType_writtenAs htype⟩
  · obtain ⟨s, hs, hb⟩ := exists_of_mem_mapM hs hb
    obtain ⟨k, hk, hr⟩ := exists_of_mem_mapM (serviceBlock_eq_ok hb) hr
    obtain ⟨hi, ho⟩ := rpc_eq_ok hr
    rcases ht with rfl | rfl
    · exact .inr ⟨s, hs, k, hk, k.input, .inl rfl, namedType_writtenAs hi⟩
    · exact .inr ⟨s, hs, k, hk, k.output, .inr rfl, namedType_writtenAs ho⟩

end

section

variable {m part : Model} {name ns p : String}

/-- A foreign reference goes to a namespace that its part imports, because the imports are gathered
from the name that it is written for. -/
theorem mem_requiredImports_of_refer (hr : (name, ns) ∈ part.references .proto)
    (hns : effectiveNamespace ns = effectiveNamespace part.ns) (hn : isScalar name = false)
    {s : Symbol} (hs : ((splitScope m).within ns).resolve name = .ok s)
    (hp : (((splitScope m).within ns).refer s).ns = some p) :
    p ∈ requiredImports part (.of m) .proto := by
  have hforeign : p = effectiveNamespace s.ns ∧ p ≠ effectiveNamespace ns := by
    by_cases he : effectiveNamespace s.ns = effectiveNamespace ns
    · simp [Scope.refer, splitScope, Scope.within, he] at hp
    · simp only [Scope.refer, splitScope, Scope.within, he, if_false, Option.some.injEq] at hp
      exact ⟨hp.symm, hp ▸ he⟩
  obtain ⟨rfl, hne⟩ := hforeign
  refine mem_requiredImports.mpr ⟨hns ▸ hne, (name, ns), hr, ?_⟩
  exact referencedNamespace_of_resolve hn hs

/-- A reference into another namespace is among the imports that the part requires. -/
theorem mem_requiredImports_of_writtenAs (hr : (name, ns) ∈ part.references .proto)
    (hns : effectiveNamespace ns = effectiveNamespace part.ns) {r : Reference}
    (hw : WrittenAs ((splitScope m).within ns) name (.declared r)) (hp : r.ns = some p) :
    p ∈ requiredImports part (.of m) .proto := by
  cases hw with
  | declared hn hs => exact mem_requiredImports_of_refer hr hns hn hs hp

end

/-- The only scalar with the spelling of a timestamp is the timestamp. -/
theorem eq_timestamp_of_writtenAs {scope : Scope} {name : String} {t : FieldType}
    (hw : WrittenAs scope name t) (ht : t.text = "google.protobuf.Timestamp")
    (hd : t.references = []) : name = "timestamp" := by
  cases hw with
  | declared _ _ => cases hd
  | placeholder => exact absurd ht (by decide)
  | @scalar s hs =>
    have hts : s = .timestamp := by
      revert ht
      cases s <;> decide
    rw [hts] at hs
    exact Scalar.name_of_ofName? hs

theorem usesTimestamp_of_mem_writtenTypes {scope : Scope} {part : Model} {package : String}
    {paths : List String} {f : File} (he : file scope part package paths = .ok f) {t : FieldType}
    (ht : t ∈ f.writtenTypes) (htext : t.text = "google.protobuf.Timestamp")
    (hd : t.references = []) : usesTimestamp part = true := by
  unfold usesTimestamp
  rw [Bool.or_eq_true, List.any_eq_true, List.any_eq_true]
  rcases writtenAs_of_mem_writtenTypes he ht with ⟨o, ho, fd, hf, hw⟩ | ⟨s, hs, k, hk, n, hn, hw⟩
  · refine .inl ⟨o, ho, List.any_eq_true.mpr ⟨fd, hf, ?_⟩⟩
    simp [TypeExpr.referencedNames, eq_timestamp_of_writtenAs hw htext hd]
  · refine .inr ⟨s, hs, List.any_eq_true.mpr ⟨k, hk, ?_⟩⟩
    rw [Bool.or_eq_true, beq_iff_eq, beq_iff_eq, ← eq_timestamp_of_writtenAs hw htext hd]
    exact hn.imp Eq.symm Eq.symm

/-- The imports of a part cover its file. `imports` holds the namespace in front of every foreign
reference, apart from options that are spelled like a scalar; the file imports the file of each, and
that of the timestamp if the scalar is written. A declaration of the model may have the spelling of
that scalar, and is imported like any other. -/
structure Covers (part : Model) (imports : List String) (f : File) : Prop where
  types : ∀ p name, .declared ⟨some p, name⟩ ∈ f.writtenTypes → p ∈ imports
  options : List.Forall₂ (fun u b => List.Forall₂ (fun o l => isScalar o = false →
    ∀ p, l.reference.ns = some p → p ∈ imports) u.options b.members) part.unions f.unions
  paths : ∀ p ∈ imports, importPath p "proto" ∈ f.imports
  timestamp : ∀ t ∈ f.writtenTypes, t.text = "google.protobuf.Timestamp" → t.references = [] →
    timestampImport ∈ f.imports

theorem covers_part {m : Model} {key : String} {f : File}
    (he : file (splitScope m) (m.part key) key (partImports (.of m) (m.part key)) = .ok f)
    (hkey : effectiveNamespace key = key) :
    Covers (m.part key) (requiredImports (m.part key) (.of m) .proto) f := by
  obtain ⟨himports, _, _, hu, _⟩ := file_eq_ok he
  -- All declarations of a part are in its namespace, so that one comparison does for all of them.
  have hns {ns : String} (h : (effectiveNamespace ns == key) = true) :
      effectiveNamespace ns = effectiveNamespace (m.part key).ns :=
    (beq_iff_eq.mp h).trans hkey.symm
  refine ⟨fun p name ht => ?_, ?_, fun p hp => ?_, fun t ht htext hd => ?_⟩
  · rcases writtenAs_of_mem_writtenTypes he ht with ⟨o, ho, fd, hf, hw⟩ | ⟨s, hs, k, hk, n, hn, hw⟩
    · have hr := Model.mem_references_of_field ho hf
      exact mem_requiredImports_of_writtenAs hr (hns (List.mem_filter.mp ho).2) hw rfl
    · have hr := Model.mem_references_of_payload .proto hs hk hn
      exact mem_requiredImports_of_writtenAs hr (hns (List.mem_filter.mp hs).2) hw rfl
  -- Unions and their blocks stand side by side, and so do options and members.
  · have hblocks := List.forall₂_iff_zip.mp (mapM_eq_ok hu)
    refine List.forall₂_iff_zip.mpr ⟨hblocks.1, fun {u b} hub => ?_⟩
    have hmembers := List.forall₂_iff_zip.mp (members_eq_ok (renderUnion_eq_ok (hblocks.2 hub)).2)
    refine List.forall₂_iff_zip.mpr ⟨hmembers.1, fun {o l} hol hn p hp => ?_⟩
    obtain ⟨s, hs, hl⟩ := hmembers.2 hol
    have hum := (List.of_mem_zip hub).1
    have hr := Model.mem_references_of_option .proto hum (List.of_mem_zip hol).1
    exact mem_requiredImports_of_refer hr (hns (List.mem_filter.mp hum).2) hn hs (hl ▸ hp)
  · rw [himports, fileImports, sortedTexts, mem_sortedSet]
    exact List.mem_append_left _ (List.mem_append_left _ (List.mem_map_of_mem hp))
  · rw [himports, fileImports, sortedTexts, mem_sortedSet,
      usesTimestamp_of_mem_writtenTypes he ht htext hd]
    exact List.mem_append_left _ (List.mem_append_right _ (List.mem_singleton_self _))

theorem renderByNamespace_keys {m : Model} {files : List (String × Rendered)}
    (h : renderByNamespace m (.of m) = .ok files) : files.map Prod.fst = m.namespaces := by
  have hkeys : List.Forall₂ Eq m.namespaces (files.map Prod.fst) :=
    List.forall₂_map_right_iff.mpr ((renderByNamespace_eq_ok h).imp fun _ _ h => h.1.symm)
  rw [List.forall₂_eq_eq_eq] at hkeys
  exact hkeys.symm

theorem emit_perNamespace_paths {m : Model} {filename : String} {e : Emission}
    (he : emit .perNamespace filename m (.of m) = .ok e) :
    e.files.map Prod.fst = m.namespaces.map fun key => importPath key "proto" := by
  obtain ⟨files, hfiles, rfl⟩ := map_eq_ok he
  rw [← renderByNamespace_keys hfiles, List.map_map, List.map_map]
  rfl

/-- Imports of files by namespace are complete and exact. They cover the file of their part, are
strictly increasing and leave out the namespace of the part. If all names of the part find their
declarations, each import is a namespace of the partition, and its path that of a file. -/
theorem imports_complete (m : Model) (key : String) (part : Model)
    (h : (key, part) ∈ m.partition) :
    (∀ files r, renderByNamespace m (.of m) = .ok files → (key, r) ∈ files →
      Covers part (requiredImports part (.of m) .proto) r.file) ∧
    (requiredImports part (.of m) .proto).Pairwise (· < ·) ∧
    key ∉ requiredImports part (.of m) .proto ∧
    (part.ReferencesResolve (.of m) .proto → ∀ ns ∈ requiredImports part (.of m) .proto,
      ns ∈ m.partition.map Prod.fst ∧
        ∀ filename e, emit .perNamespace filename m (.of m) = .ok e →
          importPath ns "proto" ∈ e.files.map Prod.fst) := by
  obtain ⟨hmem, rfl⟩ := Model.mem_partition.mp h
  have hkey := Model.effectiveNamespace_of_mem_namespaces hmem
  refine ⟨fun files r hfiles hr => ?_, requiredImports_increasing _ _ _, fun hk => ?_,
    fun hres ns hns => ?_⟩
  · obtain ⟨k, _, hk, hf⟩ := exists_of_mem_forall₂ (renderByNamespace_eq_ok hfiles).flip hr
    cases hk
    exact covers_part hf hkey
  · exact (mem_requiredImports.mp hk).1 hkey.symm
  · have hns := requiredImports_subset hres hns
    refine ⟨m.partition_keys ▸ hns, fun filename e he => ?_⟩
    rw [emit_perNamespace_paths he]
    exact List.mem_map_of_mem hns

def bookings : Model :=
  -- Four namespaces, one of them unnamed. The trip writes a list, nested maps with a timestamp at
  -- their end, and payloads from elsewhere.
  { ns := "travel"
    types :=
      [{ name := "Place", ns := "geo", fields := [{ name := "code", type := .named "string" false }] },
       { name := "Receipt", ns := "billing" },
       { name := "Remark", fields := [{ name := "text", type := .named "string" false }] },
       { name := "Trip", ns := "travel"
         fields :=
          [{ name := "stops", type := .array (.named "Place" false) false },
           { name := "times"
             type := .map "string" (.map "int32" (.named "timestamp" false) false) false },
           { name := "remarks", type := .map "string" (.named "Remark" false) false }] }]
    unions := [{ name := "Item", ns := "travel", options := ["Trip", "geo.Place"] }]
    services := [{ name := "Travel", ns := "travel"
                   methods := [{ name := "Book", input := "Trip", output := "billing.Receipt" }] }] }

theorem imports_complete_bookings :
    ("travel", bookings.part "travel") ∈ bookings.partition ∧
    (bookings.part "travel").ReferencesResolve (.of bookings) .proto ∧
    requiredImports (bookings.part "travel") (.of bookings) .proto = ["api", "billing", "geo"] ∧
    (∃ files r, renderByNamespace bookings (.of bookings) = .ok files ∧ ("travel", r) ∈ files ∧
      r.file.imports =
        ["api.proto", "billing.proto", "geo.proto", "google/protobuf/timestamp.proto"] ∧
      Covers (bookings.part "travel") ["api", "billing", "geo"] r.file) ∧
    ∀ ns ∈ ["api", "billing", "geo"], ns ∈ bookings.partition.map Prod.fst := by
  have hmem : ("travel", bookings.part "travel") ∈ bookings.partition :=
    Model.mem_partition.mpr ⟨by decide +kernel, rfl⟩
  have hres : (bookings.part "travel").ReferencesResolve (.of bookings) .proto := by decide +kernel
  have himports : requiredImports (bookings.part "travel") (.of bookings) .proto =
      ["api", "billing", "geo"] := by decide +kernel
  have hfile : (renderByNamespace bookings (.of bookings)).toOption.map
      (fun files => (files.lookup "travel").map fun r => r.file.imports) =
      some (some ["api.proto", "billing.proto", "geo.proto", "google/protobuf/timestamp.proto"]) := by
    decide +kernel
  obtain ⟨files, hfiles, hr⟩ := exists_ok_of_toOption hfile
  obtain ⟨r, hlookup, hr⟩ := Option.map_eq_some_iff.mp hr
  have hmemr : ("travel", r) ∈ files := mem_of_lookup hlookup
  obtain ⟨hcovers, _, _, hkeys⟩ := imports_complete bookings "travel" _ hmem
  rw [himports] at hcovers hkeys
  exact ⟨hmem, hres, himports, ⟨files, r, hfiles, hmemr, hr, hcovers files r hfiles hmemr⟩,
    fun ns hns => (hkeys hres ns hns).1⟩

def ownTimestamp : Model :=
  -- An order with a timestamp that the model declares itself, where the scalar's one would be.
  { ns := "shop"
    types :=
      [{ name := "Timestamp", ns := "google.protobuf" },
       { name := "Order", ns := "shop"
         fields := [{ name := "placed", type := .named "google.protobuf.Timestamp" false }] }] }

/-- The spelling alone does not import the file of the scalar, only that of the declaration. -/
theorem imports_ownTimestamp :
    ∃ files r, renderByNamespace ownTimestamp (.of ownTimestamp) = .ok files ∧
      ("shop", r) ∈ files ∧
      (∃ t ∈ r.file.writtenTypes, t.text = "google.protobuf.Timestamp") ∧
      r.file.imports = ["google/protobuf.proto"] ∧ timestampImport ∉ r.file.imports := by
  have hfile : (renderByNamespace ownTimestamp (.of ownTimestamp)).toOption.map
      (fun files => (files.lookup "shop").map fun r =>
        (r.file.writtenTypes.map FieldType.text, r.file.imports)) =
      some (some (["google.protobuf.Timestamp"], ["google/protobuf.proto"])) := by decide +kernel
  obtain ⟨files, hfiles, hr⟩ := exists_ok_of_toOption hfile
  obtain ⟨r, hlookup, hr⟩ := Option.map_eq_some_iff.mp hr
  obtain ⟨htypes, himports⟩ := Prod.mk.inj hr
  have hwritten : "google.protobuf.Timestamp" ∈ r.file.writtenTypes.map FieldType.text := by
    rw [htypes]
    exact List.mem_singleton_self _
  refine ⟨files, r, hfiles, mem_of_lookup hlookup, List.mem_map.mp hwritten, himports, ?_⟩
  rw [himports]
  decide

end Proto

end Triglot
