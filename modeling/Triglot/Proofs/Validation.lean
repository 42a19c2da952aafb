import Triglot.Proofs.Namespace.Scope
import Triglot.Validation.Rules

/-! What a good report tells about a model: references find their declarations, fields have distinct
numbers, and no target without namespaces has a conflict of names. -/
namespace Triglot

def Harmless (ds : List Diagnostic) : Prop := ∀ d ∈ ds, d.isError = false

theorem harmless_nil : Harmless [] := by
  intro d hd
  cases hd

theorem harmless_singleton {d : Diagnostic} (h : d.isError = false) : Harmless [d] := by
  intro e he
  rw [List.mem_singleton.mp he]
  exact h

theorem harmless_append {ds es : List Diagnostic} :
    Harmless (ds ++ es) ↔ Harmless ds ∧ Harmless es := List.forall_mem_append

/-- Findings are harmless if those of each part are. -/
theorem harmless_flatMap {α : Type} {xs : List α} {f : α → List Diagnostic} :
    Harmless (xs.flatMap f) ↔ ∀ x ∈ xs, Harmless (f x) := by
  unfold Harmless
  simp only [List.mem_flatMap]
  exact ⟨fun h x hx d hd => h d ⟨x, hx, hd⟩, fun h d ⟨x, hx, hd⟩ => h x hx d hd⟩

theorem Harmless.not_mem_of_isError {ds : List Diagnostic} (h : Harmless ds) {d : Diagnostic}
    (he : d.isError = true) : d ∉ ds := by
  intro hd
  have hf := h d hd
  rw [he] at hf
  cases hf

/-- Findings that are all errors are harmless only if there are none. -/
theorem Harmless.eq_nil {ds : List Diagnostic} (h : Harmless ds)
    (he : ∀ d ∈ ds, d.isError = true) : ds = [] := by
  apply List.eq_nil_iff_forall_not_mem.mpr
  exact fun d hd => h.not_mem_of_isError (he d hd) hd

theorem Harmless.of_mapIdx {α : Type} {xs : List α} {f : Nat → α → List Diagnostic}
    (h : Harmless (xs.mapIdx f).flatten) {x : α} (hx : x ∈ xs) : ∃ i, Harmless (f i x) := by
  obtain ⟨i, hi, rfl⟩ := List.getElem_of_mem hx
  refine ⟨i, fun d hd => h d ?_⟩
  exact List.mem_flatten.mpr ⟨f i xs[i], List.mem_mapIdx.mpr ⟨i, hi, rfl⟩, hd⟩

/-- What a walk that keeps what it has seen shows of the rest, it shows of the whole. -/
theorem nodup_cons_of_fresh {α : Type} {x : α} {xs seen : List α}
    (h : xs.Nodup ∧ ∀ y ∈ xs, y ∉ x :: seen) (hx : x ∉ seen) :
    (x :: xs).Nodup ∧ ∀ y ∈ x :: xs, y ∉ seen := by
  obtain ⟨hnodup, hfresh⟩ := h
  refine ⟨List.nodup_cons.mpr ⟨fun hlater => ?_, hnodup⟩, fun y hy => ?_⟩
  · exact hfresh x hlater List.mem_cons_self
  · rcases List.mem_cons.mp hy with rfl | hy
    · exact hx
    · exact fun hys => hfresh y hy (List.mem_cons_of_mem _ hys)

/-- A report is good if none of its entries is an error. -/
theorem Report.ok_iff (r : Report) : r.ok = true ↔ Harmless r.entries := by
  simp [Report.ok, Harmless]

theorem Report.count_error_eq_zero_iff (r : Report) : r.count .error = 0 ↔ Harmless r.entries := by
  have herror (d : Diagnostic) : ¬ (d.severity == .error) = true ↔ d.isError = false := by
    unfold Diagnostic.isError
    cases d.severity <;> decide
  rw [count, List.countP_eq_zero]
  exact forall₂_congr fun d _ => herror d

theorem ResolveError.diagnostic_isError (e : ResolveError) (file path : String) :
    (e.diagnostic file path).isError = true := by
  cases e <;> rfl

namespace SymbolTable

def FindsObject (t : SymbolTable) (name ns : String) : Prop :=
  ∃ s, t.resolve name ns = .ok s ∧ s.kind ≠ .enum

theorem FindsObject.succeeds {t : SymbolTable} {name ns : String} (h : t.FindsObject name ns) :
    Succeeds (t.resolve name ns) := by
  obtain ⟨s, hs, _⟩ := h
  exact ⟨s, hs⟩

/-- The name at the end of a checked type is a scalar or is found. -/
theorem resolve_of_checkType {t : SymbolTable} {type : TypeExpr} {ns file path : String}
    (h : Harmless (t.checkType type ns file path)) (hs : isScalar type.leafName = false) :
    Succeeds (t.resolve type.leafName ns) := by
  cases hr : t.resolve type.leafName ns with
  | ok s => exact .ok s
  | error e =>
    have hd : e.diagnostic file path ∈ t.checkType type ns file path := by
      simp [checkType, TypeExpr.referencedNames, hs, resolveAt, hr]
    exact absurd hd (h.not_mem_of_isError (e.diagnostic_isError file path))

theorem findsObject_of_faults {t : SymbolTable} {name ns file path : String}
    (h : Harmless (Validation.faults (t.resolveObject name ns file path))) :
    t.FindsObject name ns := by
  -- A reference that fails, or finds an enumeration, is told as an error.
  have hfault {d : Diagnostic} (hd : t.resolveObject name ns file path = .error d)
      (he : d.isError = true) : False := by
    rw [hd] at h
    exact h.not_mem_of_isError he (List.mem_singleton_self d)
  cases hr : t.resolve name ns with
  | error e =>
    have ho : t.resolveObject name ns file path = .error (e.diagnostic file path) := by
      unfold resolveObject resolveAt
      rw [hr]
      rfl
    exact (hfault ho (e.diagnostic_isError file path)).elim
  | ok s =>
    refine ⟨s, hr, fun hk => ?_⟩
    have ho : ∃ d, t.resolveObject name ns file path = .error d ∧ d.isError = true := by
      unfold resolveObject resolveAt
      rw [hr]
      simp only [bind, Except.bind, hk, if_true]
      exact ⟨_, rfl, rfl⟩
    obtain ⟨d, hd, he⟩ := ho
    exact hfault hd he

end SymbolTable

/-- The references of a model find their declarations: a name in a field type unless it is a scalar,
and options and payloads as object types or unions. -/
structure Model.Referable (m : Model) (table : SymbolTable) : Prop where
  fields : ∀ t ∈ m.types, ∀ f ∈ t.fields, isScalar f.type.leafName = false →
    Succeeds (table.resolve f.type.leafName t.ns)
  options : ∀ u ∈ m.unions, ∀ o ∈ u.options, table.FindsObject o u.ns
  payloads : ∀ s ∈ m.services, ∀ k ∈ s.methods,
    table.FindsObject k.input s.ns ∧ table.FindsObject k.output s.ns

def Scope.Spells (scope : Scope) (type : TypeExpr) : Prop :=
  isScalar type.leafName = false → Succeeds (scope.resolve type.leafName)

/-- Within its own namespace, a type spells its fields. -/
theorem Model.Referable.spells {m : Model} {scope : Scope} (h : m.Referable scope.table)
    {t : ObjectType} (ht : t ∈ m.types) {f : Field} (hf : f ∈ t.fields) :
    (scope.within t.ns).Spells f.type := h.fields t ht f hf

namespace Validation

/-- If no finding about references is an error, all of them are found. -/
theorem referable_of_references {table : SymbolTable} {m : Model}
    (h : Harmless (references table m)) : m.Referable table := by
  obtain ⟨hfo, hp⟩ := harmless_append.mp h
  obtain ⟨hf, ho⟩ := harmless_append.mp hfo
  refine ⟨?_, ?_, ?_⟩
  · intro t ht f hft hs
    obtain ⟨i, hi⟩ := Harmless.of_mapIdx hf ht
    obtain ⟨j, hj⟩ := Harmless.of_mapIdx hi hft
    exact SymbolTable.resolve_of_checkType hj hs
  · intro u hu o hou
    obtain ⟨i, hi⟩ := Harmless.of_mapIdx ho hu
    obtain ⟨j, hj⟩ := Harmless.of_mapIdx hi hou
    exact SymbolTable.findsObject_of_faults hj
  · intro s hs k hk
    obtain ⟨i, hi⟩ := Harmless.of_mapIdx hp hs
    obtain ⟨j, hj⟩ := Harmless.of_mapIdx hi hk
    obtain ⟨hin, hout⟩ := harmless_append.mp hj
    exact ⟨SymbolTable.findsObject_of_faults hin, SymbolTable.findsObject_of_faults hout⟩

theorem collision_of_fieldNumbers {m : Model} {target : Target}
    (h : Harmless (fieldNumbers m target)) {t : ObjectType} (ht : t ∈ m.types) :
    collision? t.name (numberFields t target) = none := by
  obtain ⟨i, hi⟩ := Harmless.of_mapIdx h ht
  split at hi
  · assumption
  · exact absurd (List.mem_singleton_self _) (hi.not_mem_of_isError rfl)

/-- If no finding about names is an error, no two declarations share one. -/
theorem flatConflicts_of_flatNames {m : Model} {table : SymbolTable} {target : Target}
    (h : Harmless (flatNames m table target)) :
    (NameTable.build m target).flatConflicts table = [] := by
  have hn : flatNames m table target = [] := h.eq_nil fun d hd => by
    obtain ⟨c, _, rfl⟩ := List.mem_map.mp hd
    rfl
  exact List.map_eq_nil_iff.mp hn

structure Accepted (m : Model) (o : Options) : Prop where
  -- What the targets rely on in a model that was checked for them.
  unrepeated : (SymbolTable.build m).2 = []
  referable : m.Referable (.of m)
  numbered : .proto ∈ o.targets → ∀ t ∈ m.types, collision? t.name (numberFields t .proto) = none
  distinct : ∀ target ∈ o.flatTargets, (NameTable.build m target).flatConflicts (.of m) = []

theorem validate_entries (m : Model) (o : Options) :
    (validate m o).entries = (SymbolTable.build m).2 ++ references (.of m) m ++ unionOptions m ++
      mapKeys m ++ numbers m o.targets ++ o.flatTargets.flatMap (flatNames m (.of m)) ++
      version m := rfl

/-- A good report means that the model has what the targets rely on. -/
theorem accepted_of_ok {m : Model} {o : Options} (h : (validate m o).ok = true) : Accepted m o := by
  have hall := (Report.ok_iff _).mp h
  rw [validate_entries] at hall
  obtain ⟨hall, _⟩ := harmless_append.mp hall
  obtain ⟨hall, hflat⟩ := harmless_append.mp hall
  obtain ⟨hall, hnum⟩ := harmless_append.mp hall
  obtain ⟨hall, _⟩ := harmless_append.mp hall
  obtain ⟨hall, _⟩ := harmless_append.mp hall
  obtain ⟨hdup, href⟩ := harmless_append.mp hall
  refine ⟨hdup.eq_nil (SymbolTable.build_findings_isError m), referable_of_references href, ?_, ?_⟩
  · intro hp t ht
    have hf := harmless_flatMap.mp (harmless_append.mp hnum).1 .proto
      (List.mem_filter.mpr ⟨hp, rfl⟩)
    exact collision_of_fieldNumbers hf ht
  · intro target htarget
    exact flatConflicts_of_flatNames (harmless_flatMap.mp hflat target htarget)

end Validation

end Triglot
