import Mathlib.Data.List.Perm.Subperm
import Triglot.Proofs.OpenApi.Closure
import Triglot.Proofs.Symbol.Sorted

/-! Fields of an object type as properties of its schema. Properties are kept by name, and of two fields
with one name the later replaces the earlier, while the list of required names keeps both. No check
compares the names of fields, so an object keeps all its fields exactly if their names are distinct. -/
namespace Triglot

/-- A sorted set has as many members as the list it was made from only if none is repeated there. -/
theorem sortedTexts_length_eq_iff (ss : List String) :
    (sortedTexts ss).length = ss.length ↔ ss.Nodup := by
  have hnodup : (sortedTexts ss).Nodup := (sortedTexts_increasing ss).imp ne_of_lt
  have hsub : (sortedTexts ss).Subperm ss :=
    List.subperm_of_subset hnodup fun a ha => (mem_sortedTexts a ss).mp ha
  constructor
  · intro hlength
    exact (hsub.perm_of_length_le hlength.ge).nodup_iff.mp hnodup
  · intro hss
    have hperm : (sortedTexts ss).Perm ss :=
      (List.perm_ext_iff_of_nodup hnodup hss).mpr fun a => mem_sortedTexts a ss
    exact hperm.length_eq

section Keys

variable {β : Type}

theorem insertByKey_keys (key : String) (value : β) (es : List (String × β)) :
    (insertByKey key value es).map Prod.fst =
      insertSorted (fun a b => a < b) key (es.map Prod.fst) := by
  induction es with
  | nil => rfl
  | cons e es ih =>
    rw [List.map_cons]
    unfold insertByKey insertSorted
    by_cases hlt : key < e.1
    · have hne : key ≠ e.1 := ne_of_lt hlt
      rw [if_pos hlt, if_neg hne, if_pos (decide_eq_true hlt)]
      rfl
    · rw [if_neg hlt]
      by_cases heq : key = e.1
      · rw [if_pos heq, if_pos heq, List.map_cons, heq]
      · rw [if_neg heq, if_neg heq, if_neg (by simpa using hlt), List.map_cons, ih]

/-- Insertions leave each key once, in increasing order. -/
theorem insertAll_keys (es : List (String × β)) :
    (insertAll es []).map Prod.fst = sortedTexts (es.map Prod.fst) := by
  have hrun (es acc : List (String × β)) (ks : List String)
      (hacc : acc.map Prod.fst = sortedTexts ks) :
      (insertAll es acc).map Prod.fst = sortedTexts (ks ++ es.map Prod.fst) := by
    induction es generalizing acc ks with
    | nil =>
      rw [List.map_nil, List.append_nil]
      exact hacc
    | cons e es ih =>
      have hstep : (insertByKey e.1 e.2 acc).map Prod.fst = sortedTexts (ks ++ [e.1]) := by
        rw [insertByKey_keys, hacc]
        exact strictlyOrders_texts.insertSorted_sortedSet ks e.1
      rw [List.map_cons, List.append_cons]
      exact ih (insertByKey e.1 e.2 acc) (ks ++ [e.1]) hstep
  exact hrun es [] [] rfl

end Keys

namespace OpenApi

def requiredNames (t : ObjectType) : List String :=
  ((t.includedFields .openapi).filter (·.isNonNull)).map (·.name)

theorem get?_ofEntries_eq (k : String) (es : List (String × Json)) :
    (Json.ofEntries es).get? k = es.reverse.lookup k := by
  change (Json.sortedEntries es).lookup k = _
  rw [sortedEntries_eq_insertAll, lookup_insertAll, List.lookup_nil, Option.or_none]

theorem lookup_reverse_append_of_ne {k : String} {as bs : List (String × Json)}
    (h : ∀ e ∈ bs, e.1 ≠ k) : (as ++ bs).reverse.lookup k = as.reverse.lookup k := by
  have hnone : bs.reverse.lookup k = none :=
    List.lookup_eq_none_iff.mpr fun e he => bne_iff_ne.mpr (h e (List.mem_reverse.mp he)).symm
  rw [List.reverse_append, List.lookup_append, hnone, Option.none_or]

/-- An entry that is there under a condition is found under it. -/
theorem lookup_reverse_append_ite (k : String) (v : Json) (absent : Bool)
    (as : List (String × Json)) :
    (as ++ if absent then [] else [(k, v)]).reverse.lookup k =
      if absent then as.reverse.lookup k else some v := by
  cases absent with
  | true => simp
  | false => simp [List.lookup_cons_self]

theorem description_keys (doc : Option Doc) {e : String × Json} (he : e ∈ description doc) :
    e.1 = "description" := by
  unfold description optionalEntry at he
  obtain ⟨v, _, rfl⟩ := Option.map_eq_some_iff.mp (Option.mem_toList.mp he)
  rfl

variable {scope : Scope} {t : ObjectType} {v : Json}

def propertyEntry (scope : Scope) (t : ObjectType) (f : Field) :
    Except ResolveError (String × Json) := do
  pure (f.name, ← property (scope.within t.ns) f)

theorem propertyEntry_eq_ok {f : Field} {e : String × Json}
    (h : propertyEntry scope t f = .ok e) :
    e.1 = f.name ∧ property (scope.within t.ns) f = .ok e.2 := by
  obtain ⟨w, hw, h⟩ := bind_eq_ok h
  cases h
  exact ⟨rfl, hw⟩

/-- Without extensions, nothing replaces the properties and the required names of an object. -/
theorem objectSchema_entries (hx : t.annotations.optionsFor .openapi = [])
    (h : objectSchema scope t = .ok v) :
    ∃ entries, (t.includedFields .openapi).mapM (propertyEntry scope t) = .ok entries ∧
      v.get? "properties" = (if entries.isEmpty then none else some (.ofEntries entries)) ∧
      v.get? "required" =
        if (requiredNames t).isEmpty then none else some (.strings (requiredNames t)) := by
  obtain ⟨entries, hentries, h⟩ := bind_eq_ok h
  cases h
  -- What stands before the two lists has other keys.
  have hhead {k : String} (htype : "type" ≠ k) (hdescription : "description" ≠ k) :
      ([("type", Json.string "object")] ++ description t.doc).reverse.lookup k = none := by
    have hother : ∀ e ∈ description t.doc, e.1 ≠ k := fun e he => by
      rwa [description_keys t.doc he]
    rw [lookup_reverse_append_of_ne hother, List.reverse_singleton, List.lookup_cons,
      beq_eq_false_iff_ne.mpr htype.symm]
    rfl
  refine ⟨entries, hentries, ?_, ?_⟩
  · rw [get?_ofEntries_eq, hx, extensions, List.flatMap_nil, List.append_nil,
      lookup_reverse_append_of_ne (by split <;> simp), lookup_reverse_append_ite,
      hhead (by decide) (by decide)]
  · rw [get?_ofEntries_eq, hx, extensions, List.flatMap_nil, List.append_nil,
      lookup_reverse_append_ite, lookup_reverse_append_of_ne (by split <;> simp),
      hhead (by decide) (by decide)]
    rfl

section

variable {entries : List (String × Json)}

theorem entries_keys (h : (t.includedFields .openapi).mapM (propertyEntry scope t) = .ok entries) :
    entries.map Prod.fst = (t.includedFields .openapi).map (·.name) :=
  map_eq_of_mapM h fun _ _ _ hf => (propertyEntry_eq_ok hf).1

/-- Properties are named as the fields are, each name once. -/
theorem properties_keys (h : (t.includedFields .openapi).mapM (propertyEntry scope t) = .ok entries) :
    (Json.sortedEntries entries).map Prod.fst =
      sortedTexts ((t.includedFields .openapi).map (·.name)) := by
  rw [sortedEntries_eq_insertAll, insertAll_keys, entries_keys h]

/-- The last field of a name has the property of this name. -/
theorem property_of_last (h : (t.includedFields .openapi).mapM (propertyEntry scope t) = .ok entries)
    {before after : List Field} {f : Field}
    (hsplit : t.includedFields .openapi = before ++ f :: after)
    (hlast : ∀ g ∈ after, g.name ≠ f.name) :
    ∃ w, property (scope.within t.ns) f = .ok w ∧ (f.name, w) ∈ Json.sortedEntries entries := by
  rw [hsplit, List.mapM_append, List.mapM_cons] at h
  obtain ⟨befores, _, h⟩ := bind_eq_ok h
  obtain ⟨rest, hrest, h⟩ := bind_eq_ok h
  obtain ⟨e, he, hrest⟩ := bind_eq_ok hrest
  obtain ⟨afters, hafters, hrest⟩ := bind_eq_ok hrest
  cases hrest
  cases h
  obtain ⟨hname, hw⟩ := propertyEntry_eq_ok he
  have hlater : ∀ x ∈ afters, x.1 ≠ e.1 := by
    intro x hx
    obtain ⟨g, hg, hgx⟩ := exists_of_mem_mapM hafters hx
    rw [(propertyEntry_eq_ok hgx).1, hname]
    exact hlast g hg
  refine ⟨e.2, hw, mem_of_lookup ?_⟩
  rw [sortedEntries_eq_insertAll, lookup_insertAll, ← hname, lookup_reverse_of_last hlater]
  rfl

structure KeepsFields (scope : Scope) (t : ObjectType) (properties : List (String × Json)) :
    Prop where
  count : properties.length = (t.includedFields .openapi).length
  own : ∀ f ∈ t.includedFields .openapi,
    ∃ w, property (scope.within t.ns) f = .ok w ∧ (f.name, w) ∈ properties
  once : (requiredNames t).Nodup

theorem requiredNames_sublist (t : ObjectType) :
    (requiredNames t).Sublist ((t.includedFields .openapi).map (·.name)) :=
  List.filter_sublist.map _

/-- Only a repeated name takes the property of a field away. -/
theorem keepsFields_iff (h : (t.includedFields .openapi).mapM (propertyEntry scope t) = .ok entries) :
    KeepsFields scope t (Json.sortedEntries entries) ↔
      ((t.includedFields .openapi).map (·.name)).Nodup := by
  have hlength : (Json.sortedEntries entries).length =
      (sortedTexts ((t.includedFields .openapi).map (·.name))).length := by
    rw [← properties_keys h, List.length_map]
  constructor
  · intro hkeeps
    rw [← sortedTexts_length_eq_iff, ← hlength, hkeeps.count, List.length_map]
  · intro hnodup
    refine ⟨?_, fun f hf => ?_, (requiredNames_sublist t).nodup hnodup⟩
    · rw [hlength, (sortedTexts_length_eq_iff _).mpr hnodup, List.length_map]
    · obtain ⟨before, after, hsplit⟩ := List.append_of_mem hf
      refine property_of_last h hsplit fun g hg hname => ?_
      -- A later field of the same name would repeat it.
      rw [hsplit, List.map_append, List.map_cons, List.nodup_append, List.nodup_cons] at hnodup
      exact hnodup.2.1.1 (hname ▸ List.mem_map_of_mem hg)

end

/-- A document has the schema of every object type under the name of the type. -/
theorem mem_schemas_of_exportModel {version : String} {m : Model} {e : Exported}
    (h : exportModel version m (.of m) = .ok e) (ht : t ∈ m.types)
    (hv : objectSchema (.flat m (.of m) .openapi) t = .ok v) :
    ((NameTable.build m .openapi).declaredName t.ns t.name, v) ∈ e.document.schemas := by
  obtain ⟨hconflicts, paths, schemas, _, hs, hdoc, _⟩ := exportModel_eq_ok h
  have hn := (flatConflicts_of_eq_nil_iff m (.build m .openapi)).mp hconflicts
  obtain ⟨types, unions, htypes, _, hlist, _⟩ := buildSchemas_eq_ok hn hs
  obtain ⟨⟨name, w⟩, hmem, hname, hw⟩ := exists_of_mem_forall₂ htypes ht
  cases hname
  rw [hv] at hw
  cases hw
  rw [hdoc, hlist]
  exact List.mem_append_left _ (List.mem_append_right _ hmem)

/-- In an accepted model, an object type without extensions has a schema, which is that of the document
if there is one. Its properties are named as the fields that are there, and its required names are those
of the fields that are not null, in order; each of them is a property, and of fields with one name the
last counts. Every field has a property of its own and no required name is repeated exactly if the names
of the fields are distinct. -/
theorem objectSchema_keepsFields_iff (m : Model) (o : Validation.Options)
    (h : (validate m o).ok = true) (t : ObjectType) (ht : t ∈ m.types)
    (hx : t.annotations.optionsFor .openapi = []) :
    let scope := Scope.flat m (.of m) .openapi
    let fields := t.includedFields .openapi
    ∃ v properties, objectSchema scope t = .ok v ∧
      (∀ version e, exportModel version m (.of m) = .ok e →
        (scope.names.declaredName t.ns t.name, v) ∈ e.document.schemas) ∧
      v.get? "properties" = (if fields.isEmpty then none else some (.object properties)) ∧
      v.get? "required" =
        (if (requiredNames t).isEmpty then none else some (.strings (requiredNames t))) ∧
      properties.map Prod.fst = sortedTexts (fields.map (·.name)) ∧
      (∀ n ∈ requiredNames t, n ∈ properties.map Prod.fst) ∧
      (∀ before f after, fields = before ++ f :: after → (∀ g ∈ after, g.name ≠ f.name) →
        ∃ w, property (scope.within t.ns) f = .ok w ∧ (f.name, w) ∈ properties) ∧
      (KeepsFields scope t properties ↔ (fields.map (·.name)).Nodup) := by
  intro scope fields
  have href : m.Referable scope.table := (Validation.accepted_of_ok h).referable
  have hok : Succeeds (objectSchema scope t) :=
    objectSchema_succeeds fun f hf => href.spells ht hf
  obtain ⟨v, hv⟩ := hok
  obtain ⟨entries, hentries, hproperties, hrequired⟩ := objectSchema_entries hx hv
  have hempty : entries.isEmpty = fields.isEmpty := by
    have hlength : entries.length = fields.length := by
      rw [← List.length_map (f := Prod.fst), entries_keys hentries, List.length_map]
    rw [Bool.eq_iff_iff, List.isEmpty_iff, List.isEmpty_iff, ← List.length_eq_zero_iff,
      ← List.length_eq_zero_iff, hlength]
  refine ⟨v, Json.sortedEntries entries, hv, fun version e he => ?_, ?_, hrequired,
    properties_keys hentries, fun n hn => ?_, fun before f after hsplit hlast => ?_,
    keepsFields_iff hentries⟩
  · exact mem_schemas_of_exportModel he ht hv
  · rw [hproperties, hempty]
    rfl
  · rw [properties_keys hentries, mem_sortedTexts]
    exact (requiredNames_sublist t).subset hn
  · exact property_of_last hentries hsplit hlast

def parcel : ObjectType :=
  -- Two fields of one name of which each target has one, and fields that are optional, required, or
  -- both.
  { name := "Parcel", ns := "shop"
    fields :=
      [{ name := "weight", type := .named "int32" false, required := true },
       { name := "code", type := .named "bytes" false, required := true, onlyFor := [.proto] },
       { name := "code", type := .named "string" false, required := true, excludeFrom := [.proto] },
       { name := "note", type := .named "string" true, required := true },
       { name := "address", type := .named "Address" false }] }

def shipping : Model :=
  { ns := "shop"
    types := [parcel, { name := "Address", ns := "shop" }] }

theorem objectSchema_keepsFields_shipping :
    (validate shipping {}).ok = true ∧ parcel ∈ shipping.types ∧
      parcel.annotations.optionsFor .openapi = [] ∧
      ∃ v properties, objectSchema (.flat shipping (.of shipping) .openapi) parcel = .ok v ∧
        v.get? "properties" = some (.object properties) ∧
        v.get? "required" = some (.strings ["weight", "code"]) ∧
        properties.map Prod.fst = ["address", "code", "note", "weight"] ∧
        KeepsFields (.flat shipping (.of shipping) .openapi) parcel properties := by
  have hok : (validate shipping {}).ok = true := by decide +kernel
  have hmem : parcel ∈ shipping.types := List.mem_cons_self
  have hnames : ((parcel.includedFields .openapi).map (·.name)).Nodup := by decide
  obtain ⟨v, properties, hv, _, hproperties, hrequired, hkeys, _, _, hiff⟩ :=
    objectSchema_keepsFields_iff shipping {} hok parcel hmem rfl
  have hsorted : sortedTexts ((parcel.includedFields .openapi).map (·.name)) =
      ["address", "code", "note", "weight"] := by decide +kernel
  exact ⟨hok, hmem, rfl, v, properties, hv, hproperties, hrequired, hkeys.trans hsorted,
    hiff.mpr hnames⟩

def crate : ObjectType :=
  -- Two fields of one name.
  { name := "Crate", ns := "shop"
    fields :=
      [{ name := "size", type := .named "string" false, required := true },
       { name := "size", type := .named "int32" false, required := true }] }

def storage : Model := { ns := "shop", types := [crate] }

/-- The report has no entry at all, one property stands for two fields, and one name is required
twice. -/
theorem objectSchema_storage :
    (validate storage {}).entries = [] ∧ storage.WithoutExtensions ∧
      ∃ t ∈ storage.types, (t.includedFields .openapi).length = 2 ∧
        ∃ v properties, objectSchema (.flat storage (.of storage) .openapi) t = .ok v ∧
          v.get? "properties" = some (.object properties) ∧ properties.map Prod.fst = ["size"] ∧
          v.get? "required" = some (.strings ["size", "size"]) := by
  have hplain : storage.WithoutExtensions := ⟨by decide, by decide, by decide⟩
  have hok : Succeeds (objectSchema (.flat storage (.of storage) .openapi) crate) := by
    decide +kernel
  obtain ⟨v, hv⟩ := hok
  obtain ⟨entries, hentries, hproperties, hrequired⟩ := objectSchema_entries rfl hv
  have hkeys : entries.map Prod.fst = ["size", "size"] := entries_keys hentries
  have hsome : entries.isEmpty = false := by
    cases entries with
    | nil => cases hkeys
    | cons e es => rfl
  rw [hsome] at hproperties
  have hsorted : sortedTexts ((crate.includedFields .openapi).map (·.name)) = ["size"] := by
    decide +kernel
  exact ⟨by decide +kernel, hplain, crate, List.mem_cons_self, rfl, v, Json.sortedEntries entries,
    hv, hproperties, (properties_keys hentries).trans hsorted, hrequired⟩

end OpenApi

end Triglot
