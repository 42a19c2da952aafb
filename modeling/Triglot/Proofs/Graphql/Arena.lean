import Triglot.Graphql.Build
import Triglot.Proofs.Graphql.EntryNames
import Triglot.Proofs.Outcome

/-! What happens to an arena while a document is made. A relation between arenas that every operation
respects, and that can be chained, holds from the first object to the last. -/
namespace Triglot

def TypeExpr.outerMap? : TypeExpr → Option (String × TypeExpr)
  | .named _ _ => none
  | .array items _ => items.outerMap?
  | .map key value _ => some (key, value)

namespace Graphql

/-- A relation that leads from an arena to what any operation makes of it. -/
structure Arena.Steps (R : Arena → Arena → Prop) : Prop where
  refl : ∀ a, R a a
  trans : ∀ {a b c}, R a b → R b c → R a c
  intern : ∀ a e, R a (a.intern e).2
  allocate : ∀ a signature, R a (a.allocate signature).2
  complete : ∀ a index entry, R a (a.complete index entry)
  unknownValue : ∀ a shape ns, R a (a.unknownValue shape ns)

structure Arena.FreshSteps (R : Arena → Arena → Prop) : Prop where
  refl : ∀ a, R a a
  trans : ∀ {a b c}, R a b → R b c → R a c
  intern : ∀ a e, R a (a.intern e).2
  allocate : ∀ a signature, a.wrapperFor signature = none → R a (a.allocate signature).2
  complete : ∀ a index entry, R a (a.complete index entry)
  unknownValue : ∀ a shape ns, R a (a.unknownValue shape ns)

namespace Arena.FreshSteps

variable {R : Arena → Arena → Prop}

theorem namedSpelling (h : FreshSteps R) (scope : Scope) (name : String) (a : Arena) :
    R a (namedSpelling scope name a).2 := by
  unfold Graphql.namedSpelling
  split
  · exact h.refl a
  · split
    · exact h.refl a
    · exact h.unknownValue a name scope.ns

theorem elementSpelling (h : FreshSteps R) (scope : Scope) (items : TypeExpr) (a : Arena) :
    R a (elementSpelling scope items a).2 := by
  cases items with
  | named name o => exact h.namedSpelling scope name a
  | array items o => exact h.unknownValue a _ _
  | map key value o => exact h.unknownValue a _ _

/-- Spelling a map value is made of operations, and a wrapper is only allocated where the signature
has none. -/
theorem valueSpelling (h : FreshSteps R) (scope : Scope) (value : TypeExpr) (a : Arena) :
    R a (valueSpelling scope value a).2 := by
  induction value generalizing a with
  | named name o => exact h.namedSpelling scope name a
  | array items o => exact h.elementSpelling scope items a
  | map key value o ih =>
    unfold Graphql.valueSpelling
    dsimp only
    split
    · exact h.refl a
    · rename_i hnone
      apply h.trans (h.allocate a (TypeExpr.map key value o).signature hnone)
      apply h.trans (ih _)
      apply h.trans (h.intern _ _)
      exact h.complete _ _ _

/-- What each operation respects, the synthesis of a map does. -/
theorem synthesizeMap (h : FreshSteps R) (scope : Scope) (key : String) (value : TypeExpr)
    (a : Arena) : R a (synthesizeMap scope key value a).2 :=
  h.trans (h.valueSpelling scope value a) (h.intern _ _)

end Arena.FreshSteps

namespace Arena.Steps

variable {R : Arena → Arena → Prop}

/-- What holds of every allocation holds of those for new signatures. -/
theorem fresh (h : Steps R) : FreshSteps R :=
  ⟨h.refl, h.trans, h.intern, fun a signature _ => h.allocate a signature, h.complete,
    h.unknownValue⟩

theorem namedSpelling (h : Steps R) (scope : Scope) (name : String) (a : Arena) :
    R a (namedSpelling scope name a).2 :=
  h.fresh.namedSpelling scope name a

theorem elementSpelling (h : Steps R) (scope : Scope) (items : TypeExpr) (a : Arena) :
    R a (elementSpelling scope items a).2 :=
  h.fresh.elementSpelling scope items a

theorem valueSpelling (h : Steps R) (scope : Scope) (value : TypeExpr) (a : Arena) :
    R a (valueSpelling scope value a).2 :=
  h.fresh.valueSpelling scope value a

theorem synthesizeMap (h : Steps R) (scope : Scope) (key : String) (value : TypeExpr) (a : Arena) :
    R a (synthesizeMap scope key value a).2 :=
  h.fresh.synthesizeMap scope key value a

end Arena.Steps

/-- No operation takes the two maps of an arena apart. -/
theorem Arena.coherent_steps : Steps fun a b => a.Coherent → b.Coherent where
  refl := fun _ h => h
  trans := fun hab hbc h => hbc (hab h)
  intern := fun _ e h => h.intern e
  allocate := fun _ _ h => h.of_eq rfl rfl
  complete := fun _ _ _ h => h.of_eq rfl rfl
  unknownValue := by
    intro a shape ns h
    unfold Arena.unknownValue
    split <;> exact h.of_eq rfl rfl

/-- The name that is told for a map is that of an entry. -/
theorem synthesizeMap_mem_entries (scope : Scope) (key : String) (value : TypeExpr) {a : Arena}
    (ha : a.Coherent) : (synthesizeMap scope key value a).1 ∈
      (synthesizeMap scope key value a).2.entries.map EntryType.name :=
  (Arena.coherent_steps.valueSpelling scope value a ha).intern_mem_entries _

/-- A relation that leads from an arena to what each map makes of it that occurs in a namespace, as a
field type or in a list. -/
structure Arena.RunOver (scope : Scope) (occurs : String → TypeExpr → Prop)
    (R : Arena → Arena → Prop) : Prop where
  refl : ∀ a, R a a
  trans : ∀ {a b c}, R a b → R b c → R a c
  map : ∀ ns type, occurs ns type → ∀ key value, type.outerMap? = some (key, value) →
    ∀ a, R a (synthesizeMap (scope.within ns) key value a).2

namespace Arena.RunOver

variable {scope : Scope} {occurs : String → TypeExpr → Prop} {R : Arena → Arena → Prop}

theorem typeRef (h : RunOver scope occurs R) {ns : String} {d : Direction} {type : TypeExpr}
    (ho : occurs ns type) {a b : Arena} {r : TypeRef}
    (he : typeRef (scope.within ns) d type a = .ok (r, b)) : R a b := by
  have hmap := h.map ns type ho
  clear ho
  induction type generalizing r with
  | named name o =>
    obtain ⟨t, _, he⟩ := map_eq_ok he
    cases he
    exact h.refl a
  | array items o ih =>
    obtain ⟨⟨t, b⟩, ht, he⟩ := map_eq_ok he
    cases he
    exact ih ht hmap
  | map key value o =>
    cases he
    exact hmap key value rfl a

/-- What each map in some fields respects, writing these fields does. -/
theorem fieldDefs (h : RunOver scope occurs R) {ns : String} {d : Direction} {fs : List Field}
    (ho : ∀ f ∈ fs, occurs ns f.type) {a b : Arena} {defs : List FieldDef}
    (he : fieldDefs (scope.within ns) d fs a = .ok (defs, b)) : R a b := by
  induction fs generalizing a defs with
  | nil =>
    cases he
    exact h.refl _
  | cons f fs ih =>
    obtain ⟨hf, hfs⟩ := List.forall_mem_cons.mp ho
    obtain ⟨⟨t, c⟩, ht, he⟩ := bind_eq_ok he
    obtain ⟨⟨rest, b⟩, hrest, he⟩ := bind_eq_ok he
    cases he
    exact h.trans (h.typeRef hf ht) (ih hfs hrest)

theorem objectDef (h : RunOver scope occurs R) {t : ObjectType} {d : Direction}
    (ho : ∀ f ∈ t.includedFields .graphql, occurs t.ns f.type) {a b : Arena} {o : Definition}
    (he : objectDef scope t d a = .ok (o, b)) : R a b := by
  obtain ⟨⟨fields, b⟩, hf, he⟩ := bind_eq_ok he
  cases he
  exact h.fieldDefs ho hf

/-- What each map in the fields of an object type respects, writing its forms does. -/
theorem objectDefs (h : RunOver scope occurs R) {t : ObjectType}
    (ho : ∀ f ∈ t.includedFields .graphql, occurs t.ns f.type) {a b : Arena}
    {defs : List Definition} (he : objectDefs scope t a = .ok (defs, b)) : R a b := by
  obtain ⟨⟨output, c⟩, hout, he⟩ := bind_eq_ok he
  dsimp only at he
  split at he
  · obtain ⟨⟨input, b⟩, hin, he⟩ := bind_eq_ok he
    cases he
    exact h.trans (h.objectDef ho hout) (h.objectDef ho hin)
  · cases he
    exact h.objectDef ho hout

/-- From before the first object to after the last. -/
theorem allObjectDefs (h : RunOver scope occurs R) {ts : List ObjectType}
    (ho : ∀ t ∈ ts, ∀ f ∈ t.includedFields .graphql, occurs t.ns f.type) {a b : Arena}
    {defs : List Definition} (he : allObjectDefs scope ts a = .ok (defs, b)) : R a b := by
  induction ts generalizing a defs with
  | nil =>
    cases he
    exact h.refl _
  | cons t ts ih =>
    obtain ⟨ht, hts⟩ := List.forall_mem_cons.mp ho
    obtain ⟨⟨own, c⟩, hd, he⟩ := bind_eq_ok he
    obtain ⟨⟨rest, b⟩, hrest, he⟩ := bind_eq_ok he
    cases he
    exact h.trans (h.objectDefs ht hd) (ih hts hrest)

end Arena.RunOver

structure Arena.Run (scope : Scope) (R : Arena → Arena → Prop) : Prop where
  refl : ∀ a, R a a
  trans : ∀ {a b c}, R a b → R b c → R a c
  map : ∀ ns key value a, R a (synthesizeMap (scope.within ns) key value a).2

/-- What each operation respects, the maps of any namespace do. -/
theorem Arena.Steps.run {R : Arena → Arena → Prop} (h : Steps R) (scope : Scope) : Run scope R :=
  ⟨h.refl, h.trans, fun ns key value a => h.synthesizeMap (scope.within ns) key value a⟩

namespace Arena.Run

variable {scope : Scope} {R : Arena → Arena → Prop}

theorem runOver (h : Run scope R) (occurs : String → TypeExpr → Prop) : RunOver scope occurs R :=
  ⟨h.refl, h.trans, fun ns _ _ key value _ a => h.map ns key value a⟩

theorem fieldDefs (h : Run scope R) {ns : String} {d : Direction} {fs : List Field} {a b : Arena}
    {defs : List FieldDef} (he : fieldDefs (scope.within ns) d fs a = .ok (defs, b)) : R a b :=
  (h.runOver fun _ _ => True).fieldDefs (fun _ _ => trivial) he

theorem objectDef (h : Run scope R) {t : ObjectType} {d : Direction} {a b : Arena} {o : Definition}
    (he : objectDef scope t d a = .ok (o, b)) : R a b :=
  (h.runOver fun _ _ => True).objectDef (fun _ _ => trivial) he

theorem objectDefs (h : Run scope R) {t : ObjectType} {a b : Arena} {defs : List Definition}
    (he : objectDefs scope t a = .ok (defs, b)) : R a b :=
  (h.runOver fun _ _ => True).objectDefs (fun _ _ => trivial) he

/-- What each map respects, writing all object types does. -/
theorem allObjectDefs (h : Run scope R) {ts : List ObjectType} {a b : Arena} {defs : List Definition}
    (he : allObjectDefs scope ts a = .ok (defs, b)) : R a b :=
  (h.runOver fun _ _ => True).allObjectDefs (fun _ _ _ _ => trivial) he

end Arena.Run

end Graphql

end Triglot
