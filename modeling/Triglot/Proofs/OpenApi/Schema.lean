import Triglot.OpenApi.Schema
import Triglot.Proofs.Namespace.Scope
import Triglot.Proofs.OpenApi.Pointer

/-! The schemas of declarations are closed: whatever they point to was found by a reference. Entries
that a model brings along as extensions are outside of this. -/
namespace Triglot

structure Model.WithoutExtensions (m : Model) : Prop where
  types : ∀ t ∈ m.types, t.annotations.optionsFor .openapi = []
  fields : ∀ t ∈ m.types, ∀ f ∈ t.fields, f.annotations.optionsFor .openapi = []
  unions : ∀ u ∈ m.unions, u.annotations.optionsFor .openapi = []

namespace OpenApi

variable {known : String → Prop} {scope : Scope}

theorem plain_description (doc : Option Doc) : ∀ e ∈ description doc, Plain known e :=
  plain_optionalEntry (by simp) fun s _ => closed_string s

theorem plain_scalarEntries (s : Scalar) : ∀ e ∈ scalarEntries s, Plain known e := by
  refine List.forall_mem_cons.mpr ⟨by simp, ?_⟩
  exact plain_optionalEntry (by simp) fun format _ => closed_string format

/-- The schemas of scalars have no pointers. -/
theorem component_scalarSchema (s : Scalar) : Component known (scalarSchema s) :=
  .of_plain (plain_scalarEntries s)

theorem component_arraySchema {items : Json} (h : Closed known items) :
    Component known (arraySchema items) :=
  .of_plain (by simp [h])

theorem closed_typedDefault (literal : String) (s : Scalar) :
    Closed known (typedDefault literal s) := by
  have hreal (x : Literal.Real) : Closed known (realJson x) := by
    cases x <;> simp [realJson, Json.real]
  unfold typedDefault
  cases s with
  | int32 | int64 | uint8 | uint16 | uint32 | uint64 =>
    dsimp only
    cases Literal.int64? literal with
    | some n => exact closed_number (.whole n)
    | none => exact closed_string literal
  | float32 | float64 =>
    dsimp only
    cases Literal.real? literal with
    | some x => exact hreal x
    | none => exact closed_string literal
  | bool => exact closed_bool _
  | string | timestamp | bytes => exact closed_string literal

/-- Rules add keywords without pointers. -/
theorem plain_ruleEntries (r : Rules) : ∀ e ∈ ruleEntries r, Plain known e := by
  have hnumber (key : String) (hk : key ∉ pointerKeys) (x : Option Binary64) :
      ∀ e ∈ optionalEntry key (x.map Json.real), Plain known e :=
    plain_optionalEntry hk fun a _ => closed_number (.real a)
  have hcount (key : String) (hk : key ∉ pointerKeys) (x : Option UInt64) :
      ∀ e ∈ optionalEntry key (x.map fun n => Json.nat n.toNat), Plain known e :=
    plain_optionalEntry hk fun n _ => closed_number (.whole n.toNat)
  have htext (key : String) (hk : key ∉ pointerKeys) (x : Option String) :
      ∀ e ∈ optionalEntry key (x.map Json.string), Plain known e :=
    plain_optionalEntry hk fun s _ => closed_string s
  have hunique : ∀ e ∈ (if r.uniqueItems then [("uniqueItems", Json.bool true)] else []),
      Plain known e := by
    split <;> simp
  have hallowed : ∀ e ∈ (if r.allowed.isEmpty then [] else [("enum", Json.strings r.allowed)]),
      Plain known e := by
    split <;> simp
  simp only [ruleEntries, List.forall_mem_append]
  exact ⟨⟨⟨⟨⟨⟨⟨⟨⟨⟨⟨⟨hnumber _ (by simp) _, hnumber _ (by simp) _⟩, hnumber _ (by simp) _⟩,
    hnumber _ (by simp) _⟩, hnumber _ (by simp) _⟩, hcount _ (by simp) _⟩, hcount _ (by simp) _⟩,
    hcount _ (by simp) _⟩, hcount _ (by simp) _⟩, htext _ (by simp) _⟩, htext _ (by simp) _⟩,
    hunique⟩, hallowed⟩

/-- The schema of a map value refers to known components, however deep the maps nest. -/
theorem component_valueSchema (hk : scope.WritesKnown known) (value : TypeExpr) :
    Component known (valueSchema scope value) := by
  induction value with
  | named name o =>
    unfold valueSchema
    split
    · exact component_scalarSchema _
    · rename_i hs
      exact .schemaRef (hk.classify hs)
    · exact .object_of_plain (by simp)
  | array items o ih => exact component_arraySchema ih.closed
  | map key value o ih => exact .of_plain (by simp [ih.closed])

theorem plain_mapEntries (hk : scope.WritesKnown known) (key : String) (value : TypeExpr) :
    ∀ e ∈ mapEntries scope key value, Plain known e := by
  simp [mapEntries, (component_valueSchema hk value).closed]

theorem component_itemSchema (hk : scope.WritesKnown known) {type : TypeExpr} {v : Json}
    (h : itemSchema scope type = .ok v) : Component known v := by
  induction type generalizing v with
  | named name o =>
    unfold itemSchema at h
    split at h
    · cases h
      exact component_scalarSchema _
    · obtain ⟨r, hr, rfl⟩ := map_eq_ok h
      exact .schemaRef (hk.reference hr)
  | array items o ih =>
    obtain ⟨w, hw, rfl⟩ := map_eq_ok h
    exact component_arraySchema (ih hw).closed
  | map key value o =>
    cases h
    exact .of_plain (plain_mapEntries hk key value)

theorem plain_noteEntries {f : Field} (hf : f.annotations.optionsFor .openapi = []) :
    ∀ e ∈ noteEntries f, Plain known e := by
  simp only [noteEntries, hf, extensions, List.flatMap_nil, List.append_nil, List.forall_mem_append]
  constructor
  · split <;> simp
  · cases f.rules with
    | none => simp
    | some r => exact plain_ruleEntries r

theorem plain_scalarFieldEntries (f : Field) (s : Scalar) (notes : List (String × Json)) :
    ∀ e ∈ scalarFieldEntries f s notes, Plain known e := by
  simp only [scalarFieldEntries, List.forall_mem_append]
  refine ⟨⟨plain_scalarEntries s, ?_⟩, ?_⟩
  · split <;> simp [Json.whole]
  · exact plain_optionalEntry (by simp) fun d _ => closed_typedDefault d s

/-- A field without entries of its own is a property that refers to known components. -/
theorem component_property (hk : scope.WritesKnown known) {f : Field} {v : Json}
    (hf : f.annotations.optionsFor .openapi = []) (h : property scope f = .ok v) :
    Component known v := by
  -- All shapes but a reference share the notes before them and the description after them.
  have hgathered (shape : List (String × Json)) (hs : ∀ e ∈ shape, Plain known e) :
      Component known (.ofEntries (noteEntries f ++ shape ++
        (if (fieldDescription f).isEmpty then []
          else [("description", .string (fieldDescription f))]))) := by
    apply Component.of_plain
    simp only [List.forall_mem_append]
    refine ⟨⟨plain_noteEntries hf, hs⟩, ?_⟩
    split <;> simp
  unfold property at h
  dsimp only at h
  split at h
  · split at h
    · cases h
      exact hgathered _ (plain_scalarFieldEntries f _ _)
    · obtain ⟨r, hr, rfl⟩ := map_eq_ok h
      exact .schemaRef (hk.reference hr)
  · obtain ⟨w, hw, rfl⟩ := map_eq_ok h
    exact hgathered _ (by simp [(component_itemSchema hk hw).closed])
  · cases h
    exact hgathered _ (plain_mapEntries hk _ _)

theorem component_enumSchema (e : EnumType) : Component known (enumSchema e) := by
  apply Component.of_plain
  simp only [List.forall_mem_append]
  exact ⟨by simp, plain_description e.doc⟩

/-- An object type of such fields refers to known components too. -/
theorem component_objectSchema (hk : scope.WritesKnown known) {t : ObjectType} {v : Json}
    (ht : t.annotations.optionsFor .openapi = [])
    (hf : ∀ f ∈ t.fields, f.annotations.optionsFor .openapi = [])
    (h : objectSchema scope t = .ok v) : Component known v := by
  obtain ⟨properties, hp, h⟩ := bind_eq_ok h
  cases h
  have hprops : Closed known (.ofEntries properties) := by
    apply closed_ofEntries_of_components
    intro e he
    obtain ⟨f, hfm, hpf⟩ := exists_of_mem_mapM hp he
    obtain ⟨w, hw, hpf⟩ := bind_eq_ok hpf
    cases hpf
    exact component_property (hk.within t.ns) (hf f (List.mem_filter.mp hfm).1) hw
  apply Component.of_plain
  simp only [ht, extensions, List.flatMap_nil, List.append_nil, List.forall_mem_append]
  refine ⟨⟨⟨by simp, plain_description t.doc⟩, ?_⟩, ?_⟩
  · split <;> simp [hprops]
  · split <;> simp

/-- A text that leads to a known component may stand under any key. -/
theorem LeadsTo.closedEntry {s : String} (h : LeadsTo known (.string s)) (key : String) :
    ClosedEntry known (key, .string s) := by
  refine ⟨fun p hp => ?_, closed_string s⟩
  unfold ownPointers at hp
  split at hp
  · cases List.mem_singleton.mp hp
    exact h
  · split at hp <;> cases hp

theorem mem_mappingValues {es : List (String × Json)} {p : Json}
    (h : p ∈ mappingValues (.object es)) :
    ∃ ts, ("mapping", .object ts) ∈ es ∧ p ∈ ts.map Prod.snd := by
  obtain ⟨⟨key, value⟩, he, hp⟩ := List.mem_flatMap.mp h
  split at hp
  · rename_i hkey
    cases hkey
    split at hp
    · rename_i ts hv
      cases hv
      exact ⟨ts, he, hp⟩
    · cases hp
  · cases hp

/-- A discriminator maps to components that are known. -/
theorem closedEntry_discriminator {names : List String} (h : ∀ n ∈ names, known n) :
    ClosedEntry known ("discriminator", .ofEntries
      [("propertyName", .string "type"),
       ("mapping", .ofEntries (names.map fun n => (n, .string (schemaPath n))))]) := by
  have htarget : ∀ e ∈ Json.sortedEntries (names.map fun n => (n, .string (schemaPath n))),
      ∃ s, e.2 = .string s ∧ LeadsTo known (.string s) := by
    intro e he
    obtain ⟨n, hn, rfl⟩ := List.mem_map.mp (sortedEntries_subset _ he)
    exact ⟨_, rfl, n, h n hn, rfl⟩
  constructor
  -- The values of the mapping are pointers because of the two keys above them.
  · intro p hp
    obtain ⟨ts, hts, hp⟩ := mem_mappingValues hp
    have hmem := sortedEntries_subset _ hts
    simp only [List.mem_cons, Prod.mk.injEq, List.not_mem_nil, or_false] at hmem
    rcases hmem with ⟨hkey, _⟩ | ⟨_, hts⟩
    · simp at hkey
    · cases hts
      obtain ⟨e, he, rfl⟩ := List.mem_map.mp hp
      obtain ⟨s, hs, hl⟩ := htarget e he
      rw [hs]
      exact hl
  · refine closed_object.mpr fun e he => ?_
    have hmem := sortedEntries_subset _ he
    simp only [List.mem_cons, List.not_mem_nil, or_false] at hmem
    rcases hmem with rfl | rfl
    · exact Plain.closedEntry (by simp)
    -- A declaration may have the name of a keyword, so a key of the mapping may look like one.
    · refine ⟨by simp [ownPointers], closed_object.mpr fun e he => ?_⟩
      obtain ⟨s, hs, hl⟩ := htarget e he
      have hentry := hl.closedEntry e.1
      rw [← hs] at hentry
      exact hentry

/-- A union refers to its alternatives twice, and they are known both times. -/
theorem component_renderUnion (hk : scope.WritesKnown known) {u : UnionType} {v : Json}
    (hu : u.annotations.optionsFor .openapi = []) (h : renderUnion scope u = .ok v) :
    Component known v := by
  obtain ⟨names, hn, h⟩ := bind_eq_ok h
  cases h
  have hknown : ∀ n ∈ names, known n := by
    intro n hmem
    obtain ⟨o, _, ho⟩ := exists_of_mem_mapM hn hmem
    obtain ⟨r, hr, rfl⟩ := map_eq_ok ho
    exact hk.reference hr
  have hrefs : Closed known (.array (names.map schemaRef)) := by
    simp only [closed_array, List.forall_mem_map]
    exact fun n hmem => (Component.schemaRef (hknown n hmem)).closed
  apply Component.ofEntries
  simp only [hu, extensions, List.flatMap_nil, List.append_nil]
  intro e he
  rcases List.mem_append.mp he with he | he
  · have hp : Plain known e := plain_description u.doc e he
    exact ⟨hp.key_ne_mapping, hp.closedEntry⟩
  · simp only [List.mem_cons, List.not_mem_nil, or_false] at he
    rcases he with rfl | rfl
    · exact ⟨by simp, Plain.closedEntry (by simp [hrefs])⟩
    · exact ⟨by simp, closedEntry_discriminator hknown⟩

end OpenApi

end Triglot
