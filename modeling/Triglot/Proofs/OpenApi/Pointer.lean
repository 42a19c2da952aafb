import Triglot.OpenApi.Basic
import Triglot.Proofs.Entries

/-! Pointers of an OpenAPI document: the texts of `$ref` and the values of discriminator mappings,
anywhere inside a value. A value is closed if all its pointers lead to known components. -/
namespace Triglot.OpenApi

def mappingValues : Json → List Json
  | .object entries => entries.flatMap fun e =>
    if e.1 = "mapping" then
      match e.2 with
      | .object targets => targets.map Prod.snd
      | _ => []
    else []
  | _ => []

def ownPointers (key : String) (value : Json) : List Json :=
  if key = "$ref" then
    match value with
    | .string s => [.string s]
    | _ => []
  else if key = "discriminator" then mappingValues value
  else []

mutual

def pointers : Json → List Json
  | .array items => itemPointers items
  | .object entries => entryPointers entries
  | _ => []

def itemPointers : List Json → List Json
  | [] => []
  | v :: vs => pointers v ++ itemPointers vs

def entryPointers : List (String × Json) → List Json
  | [] => []
  | (k, v) :: es => ownPointers k v ++ pointers v ++ entryPointers es

end

theorem itemPointers_eq_flatMap (vs : List Json) : itemPointers vs = vs.flatMap pointers := by
  induction vs with
  | nil => simp [itemPointers]
  | cons v vs ih => simp [itemPointers, ih]

theorem entryPointers_eq_flatMap (es : List (String × Json)) :
    entryPointers es = es.flatMap fun e => ownPointers e.1 e.2 ++ pointers e.2 := by
  induction es with
  | nil => simp [entryPointers]
  | cons e es ih => simp [entryPointers, ih]

section

variable {known : String → Prop}

def LeadsTo (known : String → Prop) (p : Json) : Prop := ∃ n, known n ∧ p = .string (schemaPath n)

def Closed (known : String → Prop) (v : Json) : Prop := ∀ p ∈ pointers v, LeadsTo known p

def ClosedEntry (known : String → Prop) (e : String × Json) : Prop :=
  (∀ p ∈ ownPointers e.1 e.2, LeadsTo known p) ∧ Closed known e.2

@[simp] theorem closed_null : Closed known .null := by simp [Closed, pointers]

@[simp] theorem closed_bool (b : Bool) : Closed known (.bool b) := by simp [Closed, pointers]

@[simp] theorem closed_number (n : JsonNumber) : Closed known (.number n) := by
  simp [Closed, pointers]

@[simp] theorem closed_string (s : String) : Closed known (.string s) := by simp [Closed, pointers]

@[simp] theorem closed_array {vs : List Json} :
    Closed known (.array vs) ↔ ∀ v ∈ vs, Closed known v := by
  simp only [Closed, pointers, itemPointers_eq_flatMap, List.mem_flatMap]
  exact ⟨fun h v hv p hp => h p ⟨v, hv, hp⟩, fun h p ⟨v, hv, hp⟩ => h v hv p hp⟩

/-- An object is closed if its entries are. -/
theorem closed_object {es : List (String × Json)} :
    Closed known (.object es) ↔ ∀ e ∈ es, ClosedEntry known e := by
  simp only [Closed, pointers, entryPointers_eq_flatMap, List.mem_flatMap]
  constructor
  · intro h e he
    exact ⟨fun p hp => h p ⟨e, he, List.mem_append_left _ hp⟩,
      fun p hp => h p ⟨e, he, List.mem_append_right _ hp⟩⟩
  · rintro h p ⟨e, he, hp⟩
    rcases List.mem_append.mp hp with hp | hp
    · exact (h e he).1 p hp
    · exact (h e he).2 p hp

@[simp] theorem closed_strings (ss : List String) : Closed known (.strings ss) := by
  simp [Json.strings]

theorem sortedEntries_eq_insertAll (es : List (String × Json)) :
    Json.sortedEntries es = insertAll es [] := by
  have hinsert : Json.insertEntry = insertByKey :=
    eq_insertByKey (fun _ _ => rfl) fun _ _ _ _ _ => rfl
  rw [Json.sortedEntries, hinsert]
  rfl

/-- An entry holds if no later one has its key. -/
theorem get?_ofEntries {k : String} {as bs : List (String × Json)} (h : ∀ e ∈ bs, e.1 ≠ k)
    (v : Json) : (Json.ofEntries (as ++ (k, v) :: bs)).get? k = some v := by
  change (Json.sortedEntries (as ++ (k, v) :: bs)).lookup k = some v
  rw [sortedEntries_eq_insertAll, lookup_insertAll, lookup_reverse_of_last h]
  rfl

/-- Sorting entries makes up none. -/
theorem sortedEntries_subset (es : List (String × Json)) : Json.sortedEntries es ⊆ es := by
  rw [sortedEntries_eq_insertAll]
  exact insertAll_subset es []

def pointerKeys : List String := ["$ref", "discriminator", "mapping"]

@[simp] theorem mem_pointerKeys {key : String} :
    key ∈ pointerKeys ↔ key = "$ref" ∨ key = "discriminator" ∨ key = "mapping" := by
  simp [pointerKeys]

structure Plain (known : String → Prop) (e : String × Json) : Prop where
  keyword : e.1 ∉ pointerKeys
  closed : Closed known e.2

/-- A keyword that stands for no pointer adds none. -/
theorem Plain.closedEntry {e : String × Json} (h : Plain known e) : ClosedEntry known e := by
  have hk := h.keyword
  simp only [mem_pointerKeys, not_or] at hk
  refine ⟨?_, h.closed⟩
  simp [ownPointers, hk.1, hk.2.1]

theorem Plain.key_ne_mapping {e : String × Json} (h : Plain known e) : e.1 ≠ "mapping" :=
  fun hkey => h.keyword (by simp [hkey])

@[simp] theorem plain_mk {key : String} {value : Json} :
    Plain known (key, value) ↔ key ∉ pointerKeys ∧ Closed known value :=
  ⟨fun h => ⟨h.1, h.2⟩, fun h => ⟨h.1, h.2⟩⟩

/-- A closed object that is no discriminator, so it can be the value of any key: names that a model
gives to its declarations and fields may be keywords. -/
def Component (known : String → Prop) (v : Json) : Prop :=
  ∃ es, v = .object es ∧ ∀ e ∈ es, e.1 ≠ "mapping" ∧ ClosedEntry known e

namespace Component

/-- Components are closed values. -/
theorem closed {v : Json} (h : Component known v) : Closed known v := by
  obtain ⟨es, rfl, hes⟩ := h
  exact closed_object.mpr fun e he => (hes e he).2

/-- A component can stand under any key, also under a keyword of pointers. -/
theorem closedEntry {v : Json} (h : Component known v) (key : String) :
    ClosedEntry known (key, v) := by
  refine ⟨?_, h.closed⟩
  obtain ⟨es, rfl, hes⟩ := h
  have hm : mappingValues (.object es) = [] := by
    simp only [mappingValues, List.flatMap_eq_nil_iff]
    intro e he
    rw [if_neg (hes e he).1]
  intro p hp
  simp [ownPointers, hm] at hp

/-- Sorted entries make a component if none of them is a mapping and all are closed. -/
theorem ofEntries {es : List (String × Json)}
    (h : ∀ e ∈ es, e.1 ≠ "mapping" ∧ ClosedEntry known e) : Component known (.ofEntries es) :=
  ⟨_, rfl, fun e he => h e (sortedEntries_subset es he)⟩

/-- Entries of keywords without pointers make a component. -/
theorem object_of_plain {es : List (String × Json)} (h : ∀ e ∈ es, Plain known e) :
    Component known (.object es) :=
  ⟨es, rfl, fun e he => ⟨(h e he).key_ne_mapping, (h e he).closedEntry⟩⟩

theorem of_plain {es : List (String × Json)} (h : ∀ e ∈ es, Plain known e) :
    Component known (.ofEntries es) :=
  object_of_plain fun e he => h e (sortedEntries_subset es he)

/-- A reference to a known name is a component. -/
theorem schemaRef {name : String} (h : known name) : Component known (schemaRef name) := by
  refine ⟨_, rfl, fun e he => ?_⟩
  cases List.mem_singleton.mp he
  refine ⟨by simp, fun p hp => ⟨name, h, ?_⟩, closed_string _⟩
  simpa [ownPointers] using hp

end Component

/-- Under names of any kind, components make a closed object. -/
theorem closed_object_of_components {es : List (String × Json)}
    (h : ∀ e ∈ es, Component known e.2) : Closed known (.object es) :=
  closed_object.mpr fun e he => (h e he).closedEntry e.1

theorem closed_ofEntries_of_components {es : List (String × Json)}
    (h : ∀ e ∈ es, Component known e.2) : Closed known (.ofEntries es) :=
  closed_object_of_components fun e he => h e (sortedEntries_subset es he)

/-- An optional entry is plain if its value is closed whenever it is there. -/
theorem plain_optionalEntry {α : Type} {key : String} (hk : key ∉ pointerKeys) {x : Option α}
    {f : α → Json} (hf : ∀ a, x = some a → Closed known (f a)) :
    ∀ e ∈ optionalEntry key (x.map f), Plain known e := by
  intro e he
  rw [optionalEntry, Option.mem_toList, Option.map_map] at he
  obtain ⟨a, ha, rfl⟩ := Option.map_eq_some_iff.mp he
  exact ⟨hk, hf a ha⟩

end

example : pointers (.object [("oneOf", .array [schemaRef "A"]),
    ("discriminator", .object [("mapping", .object [("B", .string "B")])])]) =
    [.string "#/components/schemas/A", .string "B"] := by rfl

end Triglot.OpenApi
