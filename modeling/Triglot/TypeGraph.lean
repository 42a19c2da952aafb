import Triglot.Symbol.Table

/-! References between object types and unions, the declarations that a payload can contain, and the
directions in which each of them travels. -/
namespace Triglot

/-- Distinct edges between qualified names: a payload with the first contains the second. -/
structure TypeGraph where
  edges : List (String × String) := []
deriving DecidableEq, Repr, Inhabited

namespace TypeGraph

def addEdge (g : TypeGraph) (source target : String) : TypeGraph :=
  if (source, target) ∈ g.edges then g else ⟨g.edges ++ [(source, target)]⟩

def edgeCount (g : TypeGraph) : Nat := g.edges.length

def successors (edges : List (String × String)) (node : String) : List String :=
  (edges.filter fun e => e.1 == node).map Prod.snd

/-- The direct references of a node in increasing order, if it has any. -/
def dependents (g : TypeGraph) (node : String) : Option (List String) :=
  match sortedTexts (successors g.edges node) with
  | [] => none
  | nodes => some nodes

theorem length_filter_split (edges : List (String × String)) (visited : List String) (node : String)
    (h : node ∉ visited) :
    (edges.filter fun e => e.1 == node).length +
      (edges.filter fun e => !(node :: visited).contains e.1).length =
    (edges.filter fun e => !visited.contains e.1).length := by
  induction edges with
  | nil => rfl
  | cons e es ih =>
    by_cases he : e.1 = node
    · subst he
      simp [h] at ih ⊢
      omega
    · by_cases hv : e.1 ∈ visited <;> simp [he, hv] at ih ⊢ <;> omega

/-- Adds to `visited` what the nodes of `queue` lead to. -/
def visit (edges : List (String × String)) (visited queue : List String) : List String :=
  match queue with
  | [] => visited
  | node :: rest =>
    if _h : node ∈ visited then visit edges visited rest
    else visit edges (node :: visited) (successors edges node ++ rest)
termination_by queue.length + (edges.filter fun e => !visited.contains e.1).length
decreasing_by
  · simp only [List.length_cons]
    omega
  · have := length_filter_split edges visited node (by assumption)
    simp only [successors, List.length_append, List.length_map, List.length_cons]
    omega

/-- Every node that some seed leads to, the seeds included. -/
def reachableFrom (g : TypeGraph) (seeds : List String) : List String := visit g.edges [] seeds

/-- The edges of a type: what the fields that a target includes mention, enumerations apart. -/
def typeEdges (table : SymbolTable) (target : Target) (t : ObjectType) : List (String × String) :=
  (t.includedFields target).flatMap fun f => f.type.referencedNames.filterMap fun name =>
    if isScalar name then none
    else match table.resolve name t.ns with
      | .ok s => if s.kind = .enum then none else some (qualify t.ns t.name, s.qualified)
      | .error _ => none

/-- The edges of a union: its options. -/
def unionEdges (table : SymbolTable) (u : UnionType) : List (String × String) :=
  u.options.filterMap fun o =>
    match table.resolve o u.ns with
    | .ok s => some (qualify u.ns u.name, s.qualified)
    | .error _ => none

def build (m : Model) (table : SymbolTable) (target : Target) : TypeGraph :=
  (m.types.flatMap (typeEdges table target) ++ m.unions.flatMap (unionEdges table)).foldl
    (fun g e => g.addEdge e.1 e.2) {}

end TypeGraph

inductive Usage where
  | input
  | output
  | both
deriving DecidableEq, Repr

def Usage.name : Usage → String
  | .input => "input"
  | .output => "output"
  | .both => "both"

/-- What method inputs reach, what method outputs reach, and the options of unions. -/
structure UsageMap where
  input : List String
  output : List String
  options : List String
deriving DecidableEq, Repr

namespace UsageMap

/-- The qualified name that a reference resolves to. -/
def resolved (table : SymbolTable) (ns name : String) : Option String :=
  match table.resolve name ns with
  | .ok s => some s.qualified
  | .error _ => none

def classify (m : Model) (table : SymbolTable) (target : Target) : UsageMap :=
  let graph := TypeGraph.build m table target
  let payloads (payload : Method → String) : List String :=
    m.services.flatMap fun s => s.methods.filterMap fun k => resolved table s.ns (payload k)
  ⟨graph.reachableFrom (payloads Method.input), graph.reachableFrom (payloads Method.output),
    m.unions.flatMap fun u => u.options.filterMap fun o => resolved table u.ns o⟩

/-- The directions of a declaration; an option of a union goes in both. -/
def usage (u : UsageMap) (qualified : String) : Option Usage :=
  if u.options.contains qualified then some .both
  else match u.input.contains qualified, u.output.contains qualified with
    | true, true => some .both
    | true, false => some .input
    | false, true => some .output
    | false, false => none

/-- Whether a declaration is also written as an input. -/
def needsInput (u : UsageMap) (ns name : String) : Bool :=
  match u.usage (qualify ns name) with
  | some .input | some .both => true
  | _ => false

end UsageMap

end Triglot
