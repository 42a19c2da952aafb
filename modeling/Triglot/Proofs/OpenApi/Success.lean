import Triglot.OpenApi.Render
import Triglot.Proofs.Validation

/-! When an OpenAPI document can be made, and from which parts. References that find their
declarations are enough if names do not conflict, and all that is told on the way are warnings. -/
namespace Triglot.OpenApi

theorem reference_succeeds {scope : Scope} {name : String} (h : Succeeds (scope.resolve name)) :
    Succeeds (scope.reference name) := h.map _

theorem itemSchema_succeeds {scope : Scope} {type : TypeExpr} (h : scope.Spells type) :
    Succeeds (itemSchema scope type) := by
  induction type with
  | named name o =>
    unfold itemSchema
    split
    · exact .ok _
    · rename_i hn
      exact (reference_succeeds (h (by simp [isScalar, TypeExpr.leafName, hn]))).map _
  | array items o ih => exact (ih h).map _
  | map key value o => exact .ok _

theorem property_succeeds {scope : Scope} {f : Field} (h : scope.Spells f.type) :
    Succeeds (property scope f) := by
  unfold property
  dsimp only
  split
  · rename_i name o ht
    split
    · exact .ok _
    · rename_i hn
      have hs : isScalar f.type.leafName = false := by simp [ht, isScalar, TypeExpr.leafName, hn]
      have hr := h hs
      rw [ht] at hr
      exact (reference_succeeds hr).map _
  · rename_i items o ht
    rw [ht] at h
    have hi : Succeeds (itemSchema scope items) := itemSchema_succeeds h
    exact hi.map _
  · exact .ok _

/-- An object type has a schema if what its fields refer to is found. -/
theorem objectSchema_succeeds {scope : Scope} {t : ObjectType}
    (h : ∀ f ∈ t.fields, (scope.within t.ns).Spells f.type) : Succeeds (objectSchema scope t) := by
  have hp : Succeeds ((t.includedFields .openapi).mapM fun f => do
      pure (f.name, ← property (scope.within t.ns) f)) := by
    apply Succeeds.mapM
    intro f hf
    have hs := property_succeeds (h f (List.mem_filter.mp hf).1)
    exact hs.bind fun _ _ => .pure _
  exact hp.bind fun _ _ => .pure _

theorem renderUnion_succeeds {scope : Scope} {u : UnionType}
    (h : ∀ o ∈ u.options, Succeeds (scope.resolve o)) : Succeeds (renderUnion scope u) := by
  have hn : Succeeds (u.options.mapM fun o => (scope.reference o).map Reference.text) :=
    .mapM fun o ho => (reference_succeeds (h o ho)).map _
  exact hn.bind fun _ _ => .pure _

/-- Paths can be built if all payloads are found. -/
theorem buildPaths_succeeds {scope : Scope} {services : List Service}
    (h : ∀ s ∈ services, ∀ k ∈ s.methods,
      scope.table.FindsObject k.input s.ns ∧ scope.table.FindsObject k.output s.ns) :
    Succeeds (buildPaths scope services) := by
  have ho : Succeeds ((routes services).mapM fun r => do
      pure (r, ← operation (scope.within r.ns) r.method r.path)) := by
    apply Succeeds.mapM
    intro r hr
    obtain ⟨⟨s, i⟩, hs, hr⟩ := List.mem_flatMap.mp hr
    obtain ⟨⟨k, j⟩, hk, rfl⟩ := List.mem_map.mp hr
    obtain ⟨hin, hout⟩ := h s (List.fst_mem_of_mem_zipIdx hs) k (List.fst_mem_of_mem_zipIdx hk)
    have hi : Succeeds ((scope.within s.ns).reference k.input) := reference_succeeds hin.succeeds
    have ho : Succeeds ((scope.within s.ns).reference k.output) := reference_succeeds hout.succeeds
    have hop : Succeeds (operation (scope.within s.ns) k (k.path.getD (defaultPath s k))) :=
      hi.bind fun _ _ => ho.bind fun _ _ => .pure _
    exact hop.bind fun _ _ => .pure _
  exact ho.bind fun _ _ => .pure _

theorem buildSchemas_succeeds {scope : Scope} {m : Model} (h : m.Referable scope.table) :
    Succeeds (buildSchemas scope m) := by
  have ht : Succeeds (m.types.mapM fun t => do
      pure (scope.names.declaredName t.ns t.name, ← objectSchema scope t)) := by
    apply Succeeds.mapM
    intro t ht
    have ho : Succeeds (objectSchema scope t) := objectSchema_succeeds fun f hf => h.spells ht hf
    exact ho.bind fun _ _ => .pure _
  have hu : Succeeds (m.unions.mapM fun u => do
      pure (scope.names.declaredName u.ns u.name, ← renderUnion (scope.within u.ns) u)) := by
    apply Succeeds.mapM
    intro u hu
    have ho : Succeeds (renderUnion (scope.within u.ns) u) :=
      renderUnion_succeeds fun o ho => (h.options u hu o ho).succeeds
    exact ho.bind fun _ _ => .pure _
  exact ht.bind fun _ _ => hu.bind fun _ _ => .pure _

/-- A model can be exported if its references are found, no two declarations share a name and the
version begins with 3. -/
theorem exportModel_succeeds {version : String} {m : Model} {table : SymbolTable}
    (hv : Text.startsWith version "3." = true) (h : m.Referable table)
    (hn : (NameTable.build m .openapi).flatConflicts table = []) :
    Succeeds (exportModel version m table) := by
  have hp : Succeeds (buildPaths (.flat m table .openapi) m.services) :=
    buildPaths_succeeds h.payloads
  have hs : Succeeds (buildSchemas (.flat m table .openapi) m) := buildSchemas_succeeds h
  unfold exportModel
  simp only [hv, hn, Bool.not_true, Bool.false_eq_true, if_false]
  exact (hp.mapError _).bind fun _ _ => (hs.mapError _).bind fun _ _ => .pure _

/-- A model that is exported has no conflict of names, and its document has the paths and schemas
that were built. -/
theorem exportModel_eq_ok {version : String} {m : Model} {table : SymbolTable} {e : Exported}
    (h : exportModel version m table = .ok e) :
    (NameTable.build m .openapi).flatConflicts table = [] ∧
      ∃ paths schemas, buildPaths (.flat m table .openapi) m.services = .ok paths ∧
        buildSchemas (.flat m table .openapi) m = .ok schemas ∧
        e.document = { version, info := buildInfo m, paths := paths.items, schemas } ∧
        e.warnings = paths.warnings ++ m.types.flatMap (objectWarnings (.flat m table .openapi)) := by
  unfold exportModel at h
  split at h
  · cases h
  · dsimp only at h
    split at h
    · cases h
    · rename_i hn
      obtain ⟨paths, hp, h⟩ := bind_eq_ok h
      obtain ⟨schemas, hs, h⟩ := bind_eq_ok h
      cases h
      exact ⟨hn, paths, schemas, mapError_eq_ok hp, mapError_eq_ok hs, rfl, rfl⟩

theorem valueWarnings_harmless (scope : Scope) (value : TypeExpr) :
    Harmless (valueWarnings scope value) := by
  unfold valueWarnings
  split
  · exact harmless_singleton rfl
  · exact harmless_nil

theorem typeWarnings_harmless (scope : Scope) (type : TypeExpr) :
    Harmless (typeWarnings scope type) := by
  induction type with
  | named name o => exact harmless_nil
  | array items o ih => exact ih
  | map key value o => exact valueWarnings_harmless scope value

/-- Paths warn of routes that are taken, and of nothing else. -/
theorem buildPaths_warnings {scope : Scope} {services : List Service} {t : PathTable}
    (h : buildPaths scope services = .ok t) : ∀ w ∈ t.warnings, ∃ r holder, w = taken r holder := by
  obtain ⟨operations, _, h⟩ := bind_eq_ok h
  cases h
  refine List.foldlRecOn operations _
    (motive := fun t : PathTable => ∀ w ∈ t.warnings, ∃ r holder, w = taken r holder) nofun ?_
  intro t ht p _
  unfold PathTable.add
  dsimp only
  -- The slot is free, or its holder is told of.
  split
  · exact List.forall_mem_append.mpr ⟨ht, List.forall_mem_singleton.mpr ⟨_, _, rfl⟩⟩
  · exact ht

theorem buildPaths_warnings_harmless {scope : Scope} {services : List Service} {t : PathTable}
    (h : buildPaths scope services = .ok t) : Harmless t.warnings := by
  intro w hw
  obtain ⟨r, holder, rfl⟩ := buildPaths_warnings h w hw
  rfl

/-- What an export tells of is never an error. -/
theorem exportModel_warnings_harmless {version : String} {m : Model} {table : SymbolTable}
    {e : Exported} (h : exportModel version m table = .ok e) : Harmless e.warnings := by
  obtain ⟨_, paths, schemas, hp, _, _, hw⟩ := exportModel_eq_ok h
  rw [hw]
  refine harmless_append.mpr ⟨buildPaths_warnings_harmless hp, harmless_flatMap.mpr fun t _ => ?_⟩
  exact harmless_flatMap.mpr fun f _ => typeWarnings_harmless _ f.type

end Triglot.OpenApi
