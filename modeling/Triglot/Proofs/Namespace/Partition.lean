import Triglot.Proofs.Namespace.Gathering
import Triglot.Proofs.Outcome
import Triglot.Proofs.Symbol.Table

/-! The parts of a model by namespace: where a declaration is found, and which namespaces a part
imports. -/
namespace Triglot

theorem effectiveNamespace_of_ne {ns : String} (h : ns ≠ "") : effectiveNamespace ns = ns := by
  simp [effectiveNamespace, h]

/-- The namespace that stands for none is one of its own. -/
theorem effectiveNamespace_idem (ns : String) :
    effectiveNamespace (effectiveNamespace ns) = effectiveNamespace ns := by
  by_cases h : ns = ""
  · subst h
    rfl
  · rw [effectiveNamespace_of_ne h, effectiveNamespace_of_ne h]

/-- Two namespaces are one package only if they are the same, or one is the name of packages without
a namespace and the other has none. -/
theorem eq_of_effectiveNamespace_eq {a b : String}
    (h : effectiveNamespace a = effectiveNamespace b) :
    a = b ∨ (a = "" ∧ b = defaultNamespace) ∨ (a = defaultNamespace ∧ b = "") := by
  by_cases ha : a = "" <;> by_cases hb : b = ""
  · exact .inl (ha.trans hb.symm)
  · rw [effectiveNamespace_of_ne hb, ha] at h
    exact .inr (.inl ⟨ha, h.symm⟩)
  · rw [effectiveNamespace_of_ne ha, hb] at h
    exact .inr (.inr ⟨h, hb⟩)
  · rw [effectiveNamespace_of_ne ha, effectiveNamespace_of_ne hb] at h
    exact .inl h

namespace Model

variable {m part : Model} {key : String}

theorem namespaces_eq (m : Model) :
    m.namespaces = sortedTexts ((m.perDeclaration fun ns _ => effectiveNamespace ns) ++
      m.services.map fun s => effectiveNamespace s.ns) := rfl

/-- A key of the partition is a namespace in its effective form. -/
theorem effectiveNamespace_of_mem_namespaces (h : key ∈ m.namespaces) :
    effectiveNamespace key = key := by
  simp only [namespaces, sortedTexts, mem_sortedSet, List.mem_append, List.mem_map] at h
  rcases h with ((⟨x, _, rfl⟩ | ⟨x, _, rfl⟩) | ⟨x, _, rfl⟩) | ⟨x, _, rfl⟩ <;>
    exact effectiveNamespace_idem x.ns

/-- A part tells about its declarations what the model tells, in the same order. -/
theorem part_perDeclaration {β : Type} (m : Model) (key : String) (g : String → String → β) :
    (m.part key).perDeclaration g = ((m.perDeclaration fun ns name => (g ns name, ns)).filter
      fun p => effectiveNamespace p.2 == key).map Prod.fst := by
  have hpart {α : Type} (ns name : α → String) (xs : List α) :
      (xs.filter fun x => effectiveNamespace (ns x) == key).map (fun x => g (ns x) (name x)) =
        ((xs.map fun x => (g (ns x) (name x), ns x)).filter
          fun p => effectiveNamespace p.2 == key).map Prod.fst := by
    rw [List.filter_map, List.map_map]
    rfl
  simp only [perDeclaration, List.filter_append, List.map_append]
  rw [← hpart EnumType.ns EnumType.name, ← hpart ObjectType.ns ObjectType.name,
    ← hpart UnionType.ns UnionType.name]
  rfl

/-- What is told about a declaration stands in the part of its namespace, which there is. -/
theorem mem_namespaces_of_place {β : Type} {g : String → String → β} {b : β} {ns : String}
    (h : (b, ns) ∈ m.perDeclaration fun ns name => (g ns name, ns)) :
    effectiveNamespace ns ∈ m.namespaces := by
  have hmap : (m.perDeclaration fun ns name => (g ns name, ns)).map
      (fun p => effectiveNamespace p.2) = m.perDeclaration fun ns _ => effectiveNamespace ns := by
    simp only [perDeclaration, List.map_append, List.map_map]
    rfl
  rw [namespaces_eq, sortedTexts, mem_sortedSet, ← hmap]
  exact List.mem_append_left _ (List.mem_map.mpr ⟨_, h, rfl⟩)

namespace Declares

variable {s : Symbol}

theorem mem_perDeclaration (h : m.Declares s) {β : Type} (g : String → String → β) :
    g s.ns s.name ∈ m.perDeclaration g := by
  have h := h.declared
  simp only [perDeclaration, List.mem_append, List.mem_map]
  split at h <;> obtain ⟨x, hx, hns, hname⟩ := h <;> rw [← hns, ← hname]
  · exact .inl (.inl ⟨x, hx, rfl⟩)
  · exact .inl (.inr ⟨x, hx, rfl⟩)
  · exact .inr ⟨x, hx, rfl⟩

/-- The namespace of a declaration is one of those that have a part. -/
theorem mem_namespaces (h : m.Declares s) : effectiveNamespace s.ns ∈ m.namespaces :=
  mem_namespaces_of_place (h.mem_perDeclaration fun ns name => (name, ns))

/-- A declaration is written in the part of its namespace. -/
theorem mem_part (h : m.Declares s) (names : NameTable) :
    names.emitted s ∈ (m.part (effectiveNamespace s.ns)).writtenNames names := by
  rw [writtenNames, part_perDeclaration, h.emitted_eq]
  refine List.mem_map.mpr ⟨(names.declaredName s.ns s.name, s.ns),
    List.mem_filter.mpr ⟨?_, beq_self_eq_true _⟩, rfl⟩
  exact h.mem_perDeclaration fun ns name => (names.declaredName ns name, ns)

end Declares

structure InNamespace (m : Model) (ns : String) : Prop where
  enums : ∀ e ∈ m.enums, e.ns = ns
  types : ∀ t ∈ m.types, t.ns = ns
  unions : ∀ u ∈ m.unions, u.ns = ns
  services : ∀ s ∈ m.services, s.ns = ns

instance (m : Model) (ns : String) : Decidable (m.InNamespace ns) :=
  decidable_of_iff ((∀ e ∈ m.enums, e.ns = ns) ∧ (∀ t ∈ m.types, t.ns = ns) ∧
    (∀ u ∈ m.unions, u.ns = ns) ∧ ∀ s ∈ m.services, s.ns = ns)
    ⟨fun h => ⟨h.1, h.2.1, h.2.2.1, h.2.2.2⟩, fun h => ⟨h.enums, h.types, h.unions, h.services⟩⟩

namespace InNamespace

variable {ns : String}

theorem of_declares (h : m.InNamespace ns) {s : Symbol} (hs : m.Declares s) : s.ns = ns := by
  have hs := hs.declared
  split at hs <;> obtain ⟨x, hx, hns, _⟩ := hs <;> rw [← hns]
  · exact h.enums x hx
  · exact h.types x hx
  · exact h.unions x hx

theorem of_mem_declarations (h : m.InNamespace ns) :
    ∀ s ∈ (SymbolTable.of m).declarations, s.ns = ns := fun _ hs =>
  h.of_declares (SymbolTable.declares_of_mem_symbolsOf ((SymbolTable.of_declarations_perm m).subset hs))

theorem namespaces_eq (h : m.InNamespace ns) (hne : 0 < m.declarationCount) :
    m.namespaces = [effectiveNamespace ns] := by
  apply sortedTexts_of_forall_eq
  · intro hnil
    simp only [List.append_eq_nil_iff, List.map_eq_nil_iff] at hnil
    simp [declarationCount, hnil] at hne
  · simp only [List.mem_append, List.mem_map]
    rintro s (((⟨x, hx, rfl⟩ | ⟨x, hx, rfl⟩) | ⟨x, hx, rfl⟩) | ⟨x, hx, rfl⟩)
    · rw [h.enums x hx]
    · rw [h.types x hx]
    · rw [h.unions x hx]
    · rw [h.services x hx]

/-- The part of the only namespace is the model under the effective name of that namespace. -/
theorem part_eq (h : m.InNamespace m.ns) :
    m.part (effectiveNamespace m.ns) = { m with ns := effectiveNamespace m.ns } := by
  have hall {α : Type} {xs : List α} {ns : α → String} (hx : ∀ x ∈ xs, ns x = m.ns) :
      (xs.filter fun x => effectiveNamespace (ns x) == effectiveNamespace m.ns) = xs :=
    List.filter_eq_self.mpr fun x hx' => by rw [hx x hx', beq_self_eq_true]
  rw [part, if_pos rfl, hall h.enums, hall h.types, hall h.unions, hall h.services]

end InNamespace

variable {target : Target}

theorem mem_references_of_field {t : ObjectType} (ht : t ∈ part.types) {f : Field}
    (hf : f ∈ t.includedFields target) : (f.type.leafName, t.ns) ∈ part.references target := by
  refine List.mem_append_left _ (List.mem_append_left _ (List.mem_flatMap.mpr ⟨t, ht, ?_⟩))
  exact List.mem_flatMap.mpr ⟨f, hf, List.mem_singleton_self _⟩

theorem mem_references_of_option (target : Target) {u : UnionType} (hu : u ∈ part.unions)
    {o : String} (ho : o ∈ u.options) : (o, u.ns) ∈ part.references target := by
  refine List.mem_append_left _ (List.mem_append_right _ (List.mem_flatMap.mpr ⟨u, hu, ?_⟩))
  exact List.mem_map_of_mem ho

theorem mem_references_of_payload (target : Target) {s : Service} (hs : s ∈ part.services)
    {k : Method} (hk : k ∈ s.methods) {name : String} (hname : name = k.input ∨ name = k.output) :
    (name, s.ns) ∈ part.references target := by
  refine List.mem_append_right _ (List.mem_flatMap.mpr ⟨s, hs, List.mem_flatMap.mpr ⟨k, hk, ?_⟩⟩)
  rcases hname with rfl | rfl <;> simp

def FieldsResolve (m : Model) (table : SymbolTable) (target : Target) : Prop :=
  ∀ t ∈ m.types, ∀ f ∈ t.includedFields target, ∀ name ∈ f.type.referencedNames,
    isScalar name = false → Succeeds (table.resolve name t.ns)

instance (m : Model) (table : SymbolTable) (target : Target) :
    Decidable (m.FieldsResolve table target) :=
  inferInstanceAs (Decidable (∀ t ∈ m.types, ∀ f ∈ t.includedFields target,
    ∀ name ∈ f.type.referencedNames, isScalar name = false → Succeeds (table.resolve name t.ns)))

structure ReferencesResolve (m : Model) (table : SymbolTable) (target : Target) : Prop where
  fields : m.FieldsResolve table target
  options : ∀ u ∈ m.unions, ∀ o ∈ u.options, isScalar o = false → Succeeds (table.resolve o u.ns)
  payloads : ∀ s ∈ m.services, ∀ k ∈ s.methods,
    (isScalar k.input = false → Succeeds (table.resolve k.input s.ns)) ∧
      (isScalar k.output = false → Succeeds (table.resolve k.output s.ns))

instance (m : Model) (table : SymbolTable) (target : Target) :
    Decidable (m.ReferencesResolve table target) :=
  decidable_of_iff (m.FieldsResolve table target ∧
    (∀ u ∈ m.unions, ∀ o ∈ u.options, isScalar o = false → Succeeds (table.resolve o u.ns)) ∧
    ∀ s ∈ m.services, ∀ k ∈ s.methods,
      (isScalar k.input = false → Succeeds (table.resolve k.input s.ns)) ∧
        (isScalar k.output = false → Succeeds (table.resolve k.output s.ns)))
    ⟨fun h => ⟨h.1, h.2.1, h.2.2⟩, fun h => ⟨h.fields, h.options, h.payloads⟩⟩

theorem ReferencesResolve.of_mem {table : SymbolTable} (h : part.ReferencesResolve table target)
    {r : String × String} (hr : r ∈ part.references target) (hs : isScalar r.1 = false) :
    Succeeds (table.resolve r.1 r.2) := by
  simp only [references, List.mem_append, List.mem_flatMap, List.mem_map, List.mem_cons,
    List.not_mem_nil, or_false] at hr
  rcases hr with (⟨t, ht, f, hf, name, hname, rfl⟩ | ⟨u, hu, o, ho, rfl⟩) | ⟨s, hs', k, hk, hr⟩
  · exact h.fields t ht f hf name hname hs
  · exact h.options u hu o ho hs
  · rcases hr with rfl | rfl
    · exact (h.payloads s hs' k hk).1 hs
    · exact (h.payloads s hs' k hk).2 hs

end Model

theorem referencedNamespace_of_resolve {table : SymbolTable} {name ns : String} {s : Symbol}
    (hn : isScalar name = false) (hs : table.resolve name ns = .ok s) :
    referencedNamespace table name ns = some (effectiveNamespace s.ns) := by
  simp [referencedNamespace, hn, hs]

variable {part : Model} {table : SymbolTable} {target : Target}

/-- A part imports the namespaces of what it refers to, without its own. -/
theorem mem_requiredImports {ns : String} :
    ns ∈ requiredImports part table target ↔ ns ≠ effectiveNamespace part.ns ∧
      ∃ r ∈ part.references target, referencedNamespace table r.1 r.2 = some ns := by
  simp only [requiredImports, sortedTexts, mem_sortedSet, List.mem_filter, List.mem_filterMap,
    bne_iff_ne]
  exact and_comm

theorem requiredImports_increasing (part : Model) (table : SymbolTable) (target : Target) :
    (requiredImports part table target).Pairwise (· < ·) := sortedTexts_increasing _

/-- Where all names find their declarations, only namespaces of the model are imported. -/
theorem requiredImports_subset {m : Model} (h : part.ReferencesResolve (.of m) target) :
    requiredImports part (.of m) target ⊆ m.namespaces := by
  intro ns hns
  obtain ⟨_, r, hr, hns⟩ := mem_requiredImports.mp hns
  cases hn : isScalar r.1 with
  | true => simp [referencedNamespace, hn] at hns
  | false =>
    obtain ⟨s, hs⟩ := h.of_mem hr hn
    rw [referencedNamespace_of_resolve hn hs] at hns
    cases hns
    exact (SymbolTable.declares_of_resolve hs).mem_namespaces

end Triglot
