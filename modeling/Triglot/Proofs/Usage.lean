import Triglot.Proofs.TypeGraph

/-! The directions in which a declaration travels, against what the model itself says: which payloads
methods have, and which declarations contain which others. -/
namespace Triglot

/-- A type mentions the name at its end, through array items and map values. Keys do not count. -/
inductive TypeExpr.Mentions : TypeExpr → String → Prop where
  | named (name : String) (o : Bool) : Mentions (.named name o) name
  | array {items : TypeExpr} {name : String} (o : Bool) (h : Mentions items name) :
    Mentions (.array items o) name
  | map {value : TypeExpr} {name : String} (key : String) (o : Bool) (h : Mentions value name) :
    Mentions (.map key value o) name

theorem TypeExpr.mentions_leafName (t : TypeExpr) : t.Mentions t.leafName := by
  induction t with
  | named name o => exact .named name o
  | array items o ih => exact .array o ih
  | map key value o ih => exact .map key o ih

theorem TypeExpr.mem_referencedNames_iff {t : TypeExpr} {name : String} :
    name ∈ t.referencedNames ↔ t.Mentions name := by
  rw [referencedNames, List.mem_singleton]
  constructor
  · rintro rfl
    exact t.mentions_leafName
  · intro h
    induction h with
    | named name o => rfl
    | array o _ ih => exact ih
    | map key o _ ih => exact ih

namespace Model

variable (m : Model) (table : SymbolTable) (target : Target)

/-- One declaration of a model contains another, both told by their qualified names: a field of an
object type that takes part in the target mentions it, and it is no enumeration, or it is an option of
a union. -/
inductive Contains : String → String → Prop where
  | field {t : ObjectType} {f : Field} {name : String} {s : Symbol} (ht : t ∈ m.types)
    (hf : f ∈ t.fields) (hincluded : f.includes target = true) (hname : f.type.Mentions name)
    (hscalar : isScalar name = false) (hs : table.resolve name t.ns = .ok s)
    (hkind : s.kind ≠ .enum) : Contains (qualify t.ns t.name) s.qualified
  | option {u : UnionType} {o : String} {s : Symbol} (hu : u ∈ m.unions) (ho : o ∈ u.options)
    (hs : table.resolve o u.ns = .ok s) : Contains (qualify u.ns u.name) s.qualified

def Carries (side : Method → String) (q : String) : Prop :=
  -- The payload on one side of a method, with all that it contains in finitely many steps.
  ∃ service ∈ m.services, ∃ k ∈ service.methods, ∃ s, table.resolve (side k) service.ns = .ok s ∧
    Relation.ReflTransGen (m.Contains table target) s.qualified q

def HasOption (q : String) : Prop :=
  ∃ u ∈ m.unions, ∃ o ∈ u.options, ∃ s, table.resolve o u.ns = .ok s ∧ s.qualified = q

end Model

variable {m : Model} {table : SymbolTable} {target : Target}

namespace TypeGraph

/-- An object type has an edge to each declaration that an included field of it mentions,
enumerations apart. -/
theorem mem_typeEdges_iff {t : ObjectType} {e : String × String} :
    e ∈ typeEdges table target t ↔
      ∃ f ∈ t.fields, f.includes target = true ∧ ∃ name, f.type.Mentions name ∧
        isScalar name = false ∧ ∃ s, table.resolve name t.ns = .ok s ∧ s.kind ≠ .enum ∧
          e = (qualify t.ns t.name, s.qualified) := by
  simp only [typeEdges, ObjectType.includedFields, List.mem_flatMap, List.mem_filter,
    List.mem_filterMap, TypeExpr.mem_referencedNames_iff, and_assoc]
  refine exists_congr fun f => and_congr_right fun _ => and_congr_right fun _ =>
    exists_congr fun name => and_congr_right fun _ => ?_
  cases hscalar : isScalar name with
  | true => simp
  | false =>
    cases hr : table.resolve name t.ns with
    | error _ => simp
    | ok s =>
      by_cases hk : s.kind = .enum
      · simp [hk]
      · simp [hk, eq_comm (a := e)]

theorem mem_unionEdges_iff {u : UnionType} {e : String × String} :
    e ∈ unionEdges table u ↔ ∃ o ∈ u.options, ∃ s, table.resolve o u.ns = .ok s ∧
      e = (qualify u.ns u.name, s.qualified) := by
  rw [unionEdges, List.mem_filterMap]
  refine exists_congr fun o => and_congr_right fun _ => ?_
  cases table.resolve o u.ns with
  | error _ => simp
  | ok s => simp [eq_comm (a := e)]

/-- The edges of a graph are what contains what in the model. -/
theorem mem_build_edges_iff {source goal : String} :
    (source, goal) ∈ (build m table target).edges ↔ m.Contains table target source goal := by
  rw [mem_build_edges, List.mem_flatMap, List.mem_flatMap]
  constructor
  · rintro (⟨t, ht, he⟩ | ⟨u, hu, he⟩)
    · obtain ⟨f, hf, hi, name, hname, hscalar, s, hs, hk, he⟩ := mem_typeEdges_iff.mp he
      obtain ⟨rfl, rfl⟩ := Prod.mk.inj he
      exact .field ht hf hi hname hscalar hs hk
    · obtain ⟨o, ho, s, hs, he⟩ := mem_unionEdges_iff.mp he
      obtain ⟨rfl, rfl⟩ := Prod.mk.inj he
      exact .option hu ho hs
  · intro h
    cases h with
    | field ht hf hi hname hscalar hs hk =>
      exact .inl ⟨_, ht, mem_typeEdges_iff.mpr ⟨_, hf, hi, _, hname, hscalar, _, hs, hk, rfl⟩⟩
    | option hu ho hs => exact .inr ⟨_, hu, mem_unionEdges_iff.mpr ⟨_, ho, _, hs, rfl⟩⟩

end TypeGraph

namespace UsageMap

theorem mem_filterMap_resolved {α : Type} (name : α → String) {as : List α} {ns q : String} :
    q ∈ as.filterMap (fun a => resolved table ns (name a)) ↔
      ∃ a ∈ as, ∃ s, table.resolve (name a) ns = .ok s ∧ s.qualified = q := by
  rw [List.mem_filterMap]
  refine exists_congr fun a => and_congr_right fun _ => ?_
  unfold resolved
  cases table.resolve (name a) ns with
  | error _ => simp
  | ok s => simp

theorem mem_options_iff {q : String} :
    q ∈ (classify m table target).options ↔ m.HasOption table q := by
  rw [classify, List.mem_flatMap]
  exact exists_congr fun u => and_congr_right fun _ => mem_filterMap_resolved fun o => o

/-- A search from the payloads of one side finds what these carry. -/
theorem mem_reachableFrom_payloads {side : Method → String} {q : String} :
    q ∈ (TypeGraph.build m table target).reachableFrom (m.services.flatMap fun s =>
      s.methods.filterMap fun k => resolved table s.ns (side k)) ↔ m.Carries table target side q := by
  simp only [TypeGraph.mem_reachableFrom_iff, TypeGraph.mem_build_edges_iff, List.mem_flatMap,
    mem_filterMap_resolved]
  constructor
  · rintro ⟨_, ⟨service, hservice, k, hk, s, hs, rfl⟩, hr⟩
    exact ⟨service, hservice, k, hk, s, hs, hr⟩
  · rintro ⟨service, hservice, k, hk, s, hs, hr⟩
    exact ⟨_, ⟨service, hservice, k, hk, s, hs, rfl⟩, hr⟩

theorem mem_input_iff {q : String} :
    q ∈ (classify m table target).input ↔ m.Carries table target Method.input q :=
  mem_reachableFrom_payloads

theorem mem_output_iff {q : String} :
    q ∈ (classify m table target).output ↔ m.Carries table target Method.output q :=
  mem_reachableFrom_payloads

/-- The four answers about a name, each by where it was found. -/
theorem usage_cases (u : UsageMap) (q : String) :
    (u.usage q = some .both ↔ q ∈ u.options ∨ q ∈ u.input ∧ q ∈ u.output) ∧
    (u.usage q = some .input ↔ q ∉ u.options ∧ q ∈ u.input ∧ q ∉ u.output) ∧
    (u.usage q = some .output ↔ q ∉ u.options ∧ q ∉ u.input ∧ q ∈ u.output) ∧
    (u.usage q = none ↔ q ∉ u.options ∧ q ∉ u.input ∧ q ∉ u.output) := by
  unfold usage
  by_cases ho : q ∈ u.options <;> by_cases hi : q ∈ u.input <;> by_cases hout : q ∈ u.output <;>
    simp [ho, hi, hout]

/-- The directions of a qualified name are those in which some payload carries it. An option of a
union goes in both, whether or not a payload carries it. -/
theorem usage_exact (m : Model) (target : Target) (q : String) :
    ((classify m (.of m) target).usage q = some .both ↔ m.HasOption (.of m) q ∨
      m.Carries (.of m) target Method.input q ∧ m.Carries (.of m) target Method.output q) ∧
    ((classify m (.of m) target).usage q = some .input ↔ ¬ m.HasOption (.of m) q ∧
      m.Carries (.of m) target Method.input q ∧ ¬ m.Carries (.of m) target Method.output q) ∧
    ((classify m (.of m) target).usage q = some .output ↔ ¬ m.HasOption (.of m) q ∧
      ¬ m.Carries (.of m) target Method.input q ∧ m.Carries (.of m) target Method.output q) ∧
    ((classify m (.of m) target).usage q = none ↔ ¬ m.HasOption (.of m) q ∧
      ¬ m.Carries (.of m) target Method.input q ∧ ¬ m.Carries (.of m) target Method.output q) := by
  have h := usage_cases (classify m (.of m) target) q
  simp only [mem_options_iff, mem_input_iff, mem_output_iff] at h
  exact h

end UsageMap

end Triglot
