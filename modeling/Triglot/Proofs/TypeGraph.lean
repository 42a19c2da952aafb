import Triglot.Proofs.Search

/-! What a payload leads to. A declaration travels as an input as soon as a method takes it, or something
that contains it. -/
namespace Triglot

namespace TypeGraph

theorem seeds_subset_reachableFrom (g : TypeGraph) (seeds : List String) :
    seeds ⊆ g.reachableFrom seeds :=
  fun seed hseed => (mem_reachableFrom_iff g seeds seed).mpr ⟨seed, hseed, .refl⟩

theorem reachableFrom_closed (g : TypeGraph) (seeds : List String) {source target : String}
    (h : source ∈ g.reachableFrom seeds) (he : (source, target) ∈ g.edges) :
    target ∈ g.reachableFrom seeds := by
  obtain ⟨seed, hseed, hpath⟩ := (mem_reachableFrom_iff g seeds source).mp h
  exact (mem_reachableFrom_iff g seeds target).mpr ⟨seed, hseed, hpath.tail he⟩

/-- The edges of a graph are those of the types and unions of the model. -/
theorem mem_build_edges {m : Model} {table : SymbolTable} {target : Target} {e : String × String} :
    e ∈ (build m table target).edges ↔
      e ∈ m.types.flatMap (typeEdges table target) ∨ e ∈ m.unions.flatMap (unionEdges table) := by
  rw [build, mem_foldl_addEdge, List.mem_append]
  simp

end TypeGraph

namespace UsageMap

theorem needsInput_iff (u : UsageMap) (ns name : String) :
    u.needsInput ns name = true ↔ qualify ns name ∈ u.options ∨ qualify ns name ∈ u.input := by
  unfold needsInput usage
  by_cases ho : qualify ns name ∈ u.options <;> by_cases hi : qualify ns name ∈ u.input <;>
    by_cases hout : qualify ns name ∈ u.output <;> simp [ho, hi, hout]

variable {m : Model} {table : SymbolTable} {target : Target} {s : Symbol}

/-- What a method takes travels as an input. -/
theorem mem_input_of_payload {service : Service} (hs : service ∈ m.services) {k : Method}
    (hk : k ∈ service.methods) (hr : table.resolve k.input service.ns = .ok s) :
    s.qualified ∈ (classify m table target).input := by
  apply TypeGraph.seeds_subset_reachableFrom
  refine List.mem_flatMap.mpr ⟨service, hs, List.mem_filterMap.mpr ⟨k, hk, ?_⟩⟩
  simp only [resolved, hr]

/-- What a field of an input mentions travels as an input, enumerations apart. -/
theorem mem_input_of_field {t : ObjectType} (ht : t ∈ m.types) {f : Field}
    (hf : f ∈ t.includedFields target) (hn : isScalar f.type.leafName = false)
    (hr : table.resolve f.type.leafName t.ns = .ok s) (hkind : s.kind ≠ .enum)
    (hin : qualify t.ns t.name ∈ (classify m table target).input) :
    s.qualified ∈ (classify m table target).input := by
  apply TypeGraph.reachableFrom_closed _ _ hin
  refine TypeGraph.mem_build_edges.mpr (.inl (List.mem_flatMap.mpr ⟨t, ht, ?_⟩))
  refine List.mem_flatMap.mpr ⟨f, hf, List.mem_filterMap.mpr ⟨_, List.mem_singleton_self _, ?_⟩⟩
  simp [hn, hr, hkind]

end UsageMap

end Triglot
