import Triglot.Graphql.Render
import Triglot.Proofs.Graphql.Arena
import Triglot.Proofs.Validation

/-! When a GraphQL document can be made, and from which parts. References that find their
declarations are enough if names do not conflict, and all that is told on the way are warnings. -/
namespace Triglot.Graphql

theorem namedRef_succeeds {scope : Scope} {usage : UsageMap} {d : Direction} {name : String}
    (h : isScalar name = false → Succeeds (scope.resolve name)) :
    Succeeds (namedRef scope usage d name) := by
  unfold namedRef
  split
  · exact .ok _
  · rename_i hn
    have hr := h (by simp [isScalar, hn])
    exact hr.map _

theorem typeRef_succeeds {scope : Scope} {d : Direction} {type : TypeExpr} {a : Arena}
    (h : scope.Spells type) : Succeeds (typeRef scope d type a) := by
  induction type with
  | named name o => exact (namedRef_succeeds h).map _
  | array items o ih => exact (ih h).map _
  | map key value o => exact .ok _

/-- Fields can be written if the names at the ends of their types find something. -/
theorem fieldDefs_succeeds {scope : Scope} {d : Direction} {fs : List Field} {a : Arena}
    (h : ∀ f ∈ fs, scope.Spells f.type) : Succeeds (fieldDefs scope d fs a) := by
  induction fs generalizing a with
  | nil => exact .ok _
  | cons f fs ih =>
    have hf : Succeeds (typeRef scope d f.type a) := typeRef_succeeds (h f List.mem_cons_self)
    refine hf.bind fun p _ => ?_
    have ht : Succeeds (fieldDefs scope d fs p.2) := ih fun g hg => h g (List.mem_cons_of_mem f hg)
    exact ht.bind fun _ _ => .pure _

theorem objectDef_succeeds {scope : Scope} {t : ObjectType} {d : Direction} {a : Arena}
    (h : ∀ f ∈ t.fields, (scope.within t.ns).Spells f.type) : Succeeds (objectDef scope t d a) := by
  have hf : Succeeds (fieldDefs (scope.within t.ns) d (t.includedFields .graphql) a) :=
    fieldDefs_succeeds fun f hf => h f (List.mem_filter.mp hf).1
  exact hf.bind fun _ _ => .pure _

/-- Object types can be written if what their fields refer to is found. -/
theorem allObjectDefs_succeeds {scope : Scope} {ts : List ObjectType} {a : Arena}
    (h : ∀ t ∈ ts, ∀ f ∈ t.fields, (scope.within t.ns).Spells f.type) :
    Succeeds (allObjectDefs scope ts a) := by
  induction ts generalizing a with
  | nil => exact .ok _
  | cons t ts ih =>
    have ho : Succeeds (objectDefs scope t a) := by
      have hd {d : Direction} {b : Arena} : Succeeds (objectDef scope t d b) :=
        objectDef_succeeds (h t List.mem_cons_self)
      refine hd.bind fun p _ => ?_
      dsimp only
      split
      · exact hd.bind fun _ _ => .pure _
      · exact .pure _
    refine ho.bind fun p _ => ?_
    have ht : Succeeds (allObjectDefs scope ts p.2) := ih fun u hu => h u (List.mem_cons_of_mem t hu)
    exact ht.bind fun _ _ => .pure _

theorem rootFields_succeeds {scope : Scope} {usage : UsageMap} {services : List Service}
    (h : ∀ s ∈ services, ∀ k ∈ s.methods,
      scope.table.FindsObject k.input s.ns ∧ scope.table.FindsObject k.output s.ns) :
    Succeeds (rootFields scope usage services) := by
  apply Succeeds.mapM
  intro p hp
  obtain ⟨s, hs, hp⟩ := List.mem_flatMap.mp hp
  obtain ⟨k, hk, rfl⟩ := List.mem_map.mp hp
  obtain ⟨hin, hout⟩ := h s hs k hk
  have hi : Succeeds (namedRef (scope.within s.ns) usage .input k.input) :=
    namedRef_succeeds fun _ => hin.succeeds
  have ho : Succeeds (namedRef (scope.within s.ns) usage .output k.output) :=
    namedRef_succeeds fun _ => hout.succeeds
  have hf : Succeeds (rootField (scope.within s.ns) usage k) :=
    hi.bind fun _ _ => ho.bind fun _ _ => .pure _
  exact hf.bind fun _ _ => .pure _

/-- A document can be written if all references are found and no two declarations share a name. -/
theorem render_succeeds {m : Model} {table : SymbolTable} (h : m.Referable table)
    (hn : (NameTable.build m .graphql).flatConflicts table = []) : Succeeds (render m table) := by
  have ho : Succeeds (allObjectDefs (.flat m table .graphql) m.types
      { usage := .classify m table .graphql }) :=
    allObjectDefs_succeeds fun t ht f hf => h.spells ht hf
  have hu : Succeeds (m.unions.mapM fun u =>
      renderUnion ((Scope.flat m table .graphql).within u.ns) u) := by
    apply Succeeds.mapM
    intro u hu
    have hs : Succeeds (u.options.mapM ((Scope.flat m table .graphql).within u.ns).resolve) :=
      .mapM fun o ho => (h.options u hu o ho).succeeds
    exact hs.bind fun _ _ => .pure _
  have hr : Succeeds (rootFields (.flat m table .graphql) (.classify m table .graphql) m.services) :=
    rootFields_succeeds h.payloads
  unfold render
  simp only [hn]
  exact (ho.mapError _).bind fun _ _ => (hu.mapError _).bind fun _ _ =>
    (hr.mapError _).bind fun _ _ => .pure _

structure Parts where
  objects : List Definition
  arena : Arena
  unions : List UnionDefs
  roots : List (RootKind × FieldDef)

structure Parts.Of (m : Model) (table : SymbolTable) (p : Parts) : Prop where
  objects : allObjectDefs (.flat m table .graphql) m.types
    { usage := .classify m table .graphql } = .ok (p.objects, p.arena)
  unions : (m.unions.mapM fun u =>
    renderUnion ((Scope.flat m table .graphql).within u.ns) u) = .ok p.unions
  roots : rootFields (.flat m table .graphql) (.classify m table .graphql) m.services = .ok p.roots

def Parts.definitions (p : Parts) (m : Model) (scope : Scope) : List Definition :=
  arenaDefs p.arena ++ m.enums.map (enumDef scope) ++ p.objects ++
    (p.unions.flatMap fun u => [u.output, u.input]) ++ rootDefs p.roots

/-- A document that is written has no conflict of names and is put together from the parts of its
model. -/
theorem render_eq_ok {m : Model} {table : SymbolTable} {r : Rendered} (h : render m table = .ok r) :
    (NameTable.build m .graphql).flatConflicts table = [] ∧
      ∃ p : Parts, p.Of m table ∧ r.warnings = p.arena.warnings ∧
        r.document.definitions = p.definitions m (.flat m table .graphql) := by
  unfold render at h
  dsimp only at h
  split at h
  · cases h
  · rename_i hn
    refine ⟨hn, ?_⟩
    obtain ⟨⟨objects, arena⟩, ho, h⟩ := bind_eq_ok h
    obtain ⟨unions, hu, h⟩ := bind_eq_ok h
    obtain ⟨roots, hr, h⟩ := bind_eq_ok h
    cases h
    exact ⟨⟨objects, arena, unions, roots⟩,
      ⟨mapError_eq_ok ho, mapError_eq_ok hu, mapError_eq_ok hr⟩, rfl, rfl⟩

/-- Operations on an arena tell warnings only. -/
theorem harmless_steps : Arena.Steps fun a b => Harmless a.warnings → Harmless b.warnings where
  refl := fun _ h => h
  trans := fun hab hbc h => hbc (hab h)
  intern := by
    intro a e h
    rcases a.intern_cases e with ⟨name, _, he⟩ | ⟨_, he⟩ <;> rw [he] <;> exact h
  allocate := fun _ _ h => h
  complete := fun _ _ _ h => h
  unknownValue := by
    intro a shape ns h
    unfold Arena.unknownValue
    split
    · exact h
    · exact harmless_append.mpr ⟨h, harmless_singleton rfl⟩

theorem render_warnings_harmless {m : Model} {table : SymbolTable} {r : Rendered}
    (h : render m table = .ok r) : Harmless r.warnings := by
  obtain ⟨_, p, hp, hw, _⟩ := render_eq_ok h
  rw [hw]
  exact (harmless_steps.run _).allObjectDefs hp.objects harmless_nil

end Triglot.Graphql
