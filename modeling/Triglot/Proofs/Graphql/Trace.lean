import Triglot.Proofs.Graphql.Known

/-! How each object and each field of a document was made. A relation that holds along all maps leads
to the arena in which a field is made, and from there to the last one. -/
namespace Triglot.Graphql

section TypeRef

variable {scope : Scope} {d : Direction} {type : TypeExpr} {a b : Arena} {t : TypeRef}

/-- Under its marks, a type with a map is the entry of that map. -/
theorem typeRef_of_map {key : String} {value : TypeExpr}
    (hmap : type.outerMap? = some (key, value)) (he : typeRef scope d type a = .ok (t, b)) :
    t.base = d.name (synthesizeMap scope key value a).1 ∧ b = (synthesizeMap scope key value a).2 := by
  induction type generalizing t with
  | named name o => cases hmap
  | array items o ih =>
    obtain ⟨⟨u, c⟩, hu, he⟩ := map_eq_ok he
    cases he
    have hitems : u.base = d.name (synthesizeMap scope key value a).1 ∧
      b = (synthesizeMap scope key value a).2 := ih hmap hu
    exact hitems
  | map key value o =>
    cases hmap
    cases he
    exact ⟨rfl, rfl⟩

theorem namedRef_eq_named {usage : UsageMap} {name : String}
    (he : namedRef scope usage d name = .ok t) : t = .named t.base := by
  unfold namedRef at he
  split at he
  · cases he
    rfl
  · obtain ⟨s, _, rfl⟩ := map_eq_ok he
    rfl

/-- Under its marks, a type without a map is the name at its end. -/
theorem typeRef_of_name (hmap : type.outerMap? = none) (he : typeRef scope d type a = .ok (t, b)) :
    namedRef scope a.usage d type.leafName = .ok (.named t.base) := by
  induction type generalizing t with
  | named name o =>
    obtain ⟨u, hu, he⟩ := map_eq_ok he
    cases he
    have hnamed := namedRef_eq_named hu
    exact hnamed ▸ hu
  | array items o ih =>
    obtain ⟨⟨u, c⟩, hu, he⟩ := map_eq_ok he
    cases he
    have hitems : namedRef scope a.usage d items.leafName = .ok (.named u.base) := ih hmap hu
    exact hitems
  | map key value o => cases hmap

end TypeRef

def FieldMade (scope : Scope) (R : Arena → Arena → Prop) (d : Direction) (a b : Arena) (f : Field)
    (fd : FieldDef) : Prop :=
  fd.name = f.name ∧ fd.argument = none ∧
    ∃ c c' t, R a c ∧ typeRef scope d f.type c = .ok (t, c') ∧ R c' b ∧ fd.type.base = t.base

def ObjectMade (scope : Scope) (R : Arena → Arena → Prop) (a b : Arena) (t : ObjectType)
    (d : Direction) (o : ObjectDef) : Prop :=
  o.name = d.name (scope.names.declaredName t.ns t.name) ∧ o.direction = d ∧
    List.Forall₂ (FieldMade (scope.within t.ns) R d a b) (t.includedFields .graphql) o.fields

section

variable {scope : Scope} {occurs : String → TypeExpr → Prop} {R : Arena → Arena → Prop}

theorem FieldMade.widen (h : Arena.RunOver scope occurs R) {within : Scope} {d : Direction}
    {a b c e : Arena} (hab : R a b) (hce : R c e) {f : Field} {fd : FieldDef}
    (hf : FieldMade within R d b c f fd) : FieldMade within R d a e f fd := by
  obtain ⟨hname, harg, x, y, t, hx, ht, hy, hbase⟩ := hf
  exact ⟨hname, harg, x, y, t, h.trans hab hx, ht, h.trans hy hce, hbase⟩

/-- What is written between two arenas is written between any that enclose them. -/
theorem ObjectMade.widen (h : Arena.RunOver scope occurs R) {a b c e : Arena} (hab : R a b)
    (hce : R c e) {t : ObjectType} {d : Direction} {o : ObjectDef}
    (ho : ObjectMade scope R b c t d o) : ObjectMade scope R a e t d o :=
  ⟨ho.1, ho.2.1, ho.2.2.imp fun _ _ hf => hf.widen h hab hce⟩

theorem fieldDefs_made (h : Arena.RunOver scope occurs R) {ns : String} {d : Direction}
    {fs : List Field} (ho : ∀ f ∈ fs, occurs ns f.type) {a b : Arena} {defs : List FieldDef}
    (he : fieldDefs (scope.within ns) d fs a = .ok (defs, b)) :
    List.Forall₂ (FieldMade (scope.within ns) R d a b) fs defs := by
  induction fs generalizing a defs with
  | nil =>
    cases he
    exact .nil
  | cons f fs ih =>
    obtain ⟨hf, hfs⟩ := List.forall_mem_cons.mp ho
    obtain ⟨⟨t, c⟩, ht, he⟩ := bind_eq_ok he
    obtain ⟨⟨rest, b⟩, hrest, he⟩ := bind_eq_ok he
    cases he
    have hfirst : R a c := h.typeRef hf ht
    have hlater : R c b := h.fieldDefs hfs hrest
    refine .cons ⟨rfl, rfl, a, c, t, h.refl a, ht, hlater, ?_⟩ ?_
    · dsimp only
      split <;> rfl
    · exact (ih hfs hrest).imp fun _ _ hmade => hmade.widen h hfirst (h.refl b)

theorem objectDef_made (h : Arena.RunOver scope occurs R) {t : ObjectType} {d : Direction}
    (ho : ∀ f ∈ t.includedFields .graphql, occurs t.ns f.type) {a b : Arena} {o : Definition}
    (he : objectDef scope t d a = .ok (o, b)) :
    ∃ def', o = .object def' ∧ ObjectMade scope R a b t d def' := by
  obtain ⟨⟨fields, b⟩, hf, he⟩ := bind_eq_ok he
  cases he
  exact ⟨_, rfl, rfl, rfl, fieldDefs_made h ho hf⟩

def Directed (usage : UsageMap) (t : ObjectType) (d : Direction) : Prop :=
  d = .output ∨ usage.needsInput t.ns t.name = true

structure ObjectsMade (scope : Scope) (R : Arena → Arena → Prop) (a b : Arena)
    (ts : List ObjectType) (defs : List Definition) : Prop where
  -- Definitions that are made of object types: each comes from one of them, and each of them has
  -- one in every direction in which it is written.
  sound : ∀ o ∈ defs, ∃ t ∈ ts, ∃ d, Directed a.usage t d ∧
    ∃ def', o = .object def' ∧ ObjectMade scope R a b t d def'
  complete : ∀ t ∈ ts, ∀ d, Directed a.usage t d →
    ∃ def', .object def' ∈ defs ∧ ObjectMade scope R a b t d def'

/-- An object type is written in each direction that it has. -/
theorem objectDefs_made (h : Arena.RunOver scope occurs R) {t : ObjectType}
    (ho : ∀ f ∈ t.includedFields .graphql, occurs t.ns f.type) {a b : Arena}
    {defs : List Definition} (he : objectDefs scope t a = .ok (defs, b)) :
    ObjectsMade scope R a b [t] defs := by
  obtain ⟨⟨output, c⟩, hout, he⟩ := bind_eq_ok he
  have husage : c.usage = a.usage := ((Arena.extends_steps.run scope).objectDef hout).usage
  dsimp only at he
  rw [husage] at he
  obtain ⟨outDef, rfl, houtMade⟩ := objectDef_made h ho hout
  -- The input form, if there is one, starts from the arena that the output form leaves.
  split at he
  · rename_i hneeds
    obtain ⟨⟨input, b⟩, hin, he⟩ := bind_eq_ok he
    cases he
    obtain ⟨inDef, rfl, hinMade⟩ := objectDef_made h ho hin
    have hfirst := houtMade.widen h (h.refl a) (h.objectDef ho hin)
    have hsecond := hinMade.widen h (h.objectDef ho hout) (h.refl b)
    constructor
    · intro o hmem
      rcases List.mem_pair.mp hmem with rfl | rfl
      · exact ⟨t, List.mem_singleton_self t, .output, .inl rfl, outDef, rfl, hfirst⟩
      · exact ⟨t, List.mem_singleton_self t, .input, .inr hneeds, inDef, rfl, hsecond⟩
    · intro t' ht' d _
      cases List.mem_singleton.mp ht'
      cases d with
      | output => exact ⟨outDef, by simp, hfirst⟩
      | input => exact ⟨inDef, by simp, hsecond⟩
  · rename_i hneeds
    cases he
    constructor
    · intro o hmem
      cases List.mem_singleton.mp hmem
      exact ⟨t, List.mem_singleton_self t, .output, .inl rfl, outDef, rfl, houtMade⟩
    · intro t' ht' d hd
      cases List.mem_singleton.mp ht'
      rcases hd with rfl | hd
      · exact ⟨outDef, by simp, houtMade⟩
      · exact absurd hd hneeds

theorem allObjectDefs_made (h : Arena.RunOver scope occurs R) {ts : List ObjectType}
    (ho : ∀ t ∈ ts, ∀ f ∈ t.includedFields .graphql, occurs t.ns f.type) {a b : Arena}
    {defs : List Definition} (he : allObjectDefs scope ts a = .ok (defs, b)) :
    ObjectsMade scope R a b ts defs := by
  induction ts generalizing a defs with
  | nil =>
    cases he
    exact ⟨by simp, by simp⟩
  | cons t ts ih =>
    obtain ⟨ht, hts⟩ := List.forall_mem_cons.mp ho
    obtain ⟨⟨own, c⟩, hd, he⟩ := bind_eq_ok he
    obtain ⟨⟨rest, b⟩, hrest, he⟩ := bind_eq_ok he
    cases he
    have husage : c.usage = a.usage := ((Arena.extends_steps.run scope).objectDefs hd).usage
    have hfirst := objectDefs_made h ht hd
    have hlater := ih hts hrest
    have hac : R a c := h.objectDefs ht hd
    have hcb : R c b := h.allObjectDefs hts hrest
    constructor
    · intro o hmem
      rcases List.mem_append.mp hmem with hmem | hmem
      · obtain ⟨u, hu, d, hdir, def', rfl, hmade⟩ := hfirst.sound o hmem
        cases List.mem_singleton.mp hu
        exact ⟨t, List.mem_cons_self, d, hdir, def', rfl, hmade.widen h (h.refl a) hcb⟩
      · obtain ⟨u, hu, d, hdir, def', rfl, hmade⟩ := hlater.sound o hmem
        rw [husage] at hdir
        exact ⟨u, List.mem_cons_of_mem t hu, d, hdir, def', rfl, hmade.widen h hac (h.refl b)⟩
    · intro u hu d hdir
      rcases List.mem_cons.mp hu with rfl | hu
      · obtain ⟨def', hmem, hmade⟩ := hfirst.complete u (List.mem_singleton_self u) d hdir
        exact ⟨def', List.mem_append_left _ hmem, hmade.widen h (h.refl a) hcb⟩
      · obtain ⟨def', hmem, hmade⟩ := hlater.complete u hu d (husage ▸ hdir)
        exact ⟨def', List.mem_append_right _ hmem, hmade.widen h hac (h.refl b)⟩

end

end Triglot.Graphql
