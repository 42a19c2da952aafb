import Mathlib.Data.List.Perm.Subperm
import Mathlib.Logic.Relation
import Triglot.TypeGraph

/-! Searching a graph in any order. A search may take the nodes that wait in any order, and put the
successors of a new node into the queue in any order, with or without those that it has visited. Nodes
may wait more than once, so neither the queue nor what is visited bounds a search: an edge joins the
queue at most once, when its source is visited first, and that does. Whichever way is taken, the search
ends, and it ends with the same nodes. -/
namespace Triglot.TypeGraph

theorem mem_addEdge (g : TypeGraph) (source target : String) (e : String × String) :
    e ∈ (g.addEdge source target).edges ↔ e ∈ g.edges ∨ e = (source, target) := by
  unfold addEdge
  split
  · rename_i h
    exact ⟨.inl, fun he => he.elim id fun he => he ▸ h⟩
  · simp

theorem mem_foldl_addEdge (es : List (String × String)) (g : TypeGraph) (e : String × String) :
    e ∈ (es.foldl (fun g e => g.addEdge e.1 e.2) g).edges ↔ e ∈ g.edges ∨ e ∈ es := by
  induction es generalizing g with
  | nil => simp
  | cons first es ih =>
    rw [List.foldl_cons, ih, mem_addEdge, List.mem_cons, or_assoc]

def ofEdges (added : List (String × String)) : TypeGraph :=
  added.foldl (fun g e => g.addEdge e.1 e.2) {}

theorem mem_successors {edges : List (String × String)} {node next : String} :
    next ∈ successors edges node ↔ (node, next) ∈ edges := by
  simp only [successors, List.mem_map, List.mem_filter, beq_iff_eq]
  constructor
  · rintro ⟨⟨source, target⟩, ⟨he, rfl⟩, rfl⟩
    exact he
  · exact fun he => ⟨_, ⟨he, rfl⟩, rfl⟩

def Reaches (edges : List (String × String)) (seeds : List String) (n : String) : Prop :=
  ∃ seed ∈ seeds, Relation.ReflTransGen (fun a b => (a, b) ∈ edges) seed n

theorem Reaches.tail {edges : List (String × String)} {seeds : List String} {n next : String}
    (h : Reaches edges seeds n) (hnext : next ∈ successors edges n) : Reaches edges seeds next := by
  obtain ⟨seed, hseed, hpath⟩ := h
  exact ⟨seed, hseed, hpath.tail (mem_successors.mp hnext)⟩

structure Search where
  visited : List String
  queue : List String

namespace Search

variable {edges : List (String × String)} {seeds : List String} {s t : Search} {k : Nat}

/-- One step of a search, in any order: it takes some node that waits. A new node is visited, and its
successors wait from then on; those that are visited already may be left out. -/
inductive Step (edges : List (String × String)) : Search → Search → Prop
  | skip {visited queue rest : List String} {node : String} (hqueue : queue.Perm (node :: rest))
    (hnode : node ∈ visited) : Step edges ⟨visited, queue⟩ ⟨visited, rest⟩
  | expand {visited queue rest next queue' : List String} {node : String}
    (hqueue : queue.Perm (node :: rest)) (hnode : node ∉ visited)
    (hnext : next.Subperm (successors edges node))
    (hall : ∀ k ∈ successors edges node, k ∈ next ∨ k ∈ node :: visited)
    (hqueue' : queue'.Perm (next ++ rest)) : Step edges ⟨visited, queue⟩ ⟨node :: visited, queue'⟩

inductive Run (edges : List (String × String)) : Nat → Search → Search → Prop
  | done (s : Search) : Run edges 0 s s
  | step {k : Nat} {s t u : Search} (first : Step edges s t) (rest : Run edges k t u) :
    Run edges (k + 1) s u

def pending (edges : List (String × String)) (s : Search) : Nat :=
  -- What is left to do: the nodes that wait, and the edges whose source is not visited.
  s.queue.length + (edges.filter fun e => !s.visited.contains e.1).length

/-- Each step leaves less to do. -/
theorem Step.pending_lt (h : Step edges s t) : t.pending edges < s.pending edges := by
  cases h with
  | skip hqueue hnode =>
    have hlength := hqueue.length_eq
    simp only [pending, List.length_cons] at hlength ⊢
    omega
  | @expand visited queue rest next queue' node hqueue hnode hnext hall hqueue' =>
    -- The successors that join the queue are edges that leave the count.
    have hsplit := length_filter_split edges visited node hnode
    have hjoin : next.length ≤ (edges.filter fun e => e.1 == node).length := by
      simpa only [successors, List.length_map] using hnext.length_le
    have hbefore := hqueue.length_eq
    have hafter := hqueue'.length_eq
    simp only [pending, List.length_cons, List.length_append] at hbefore hafter ⊢
    omega

/-- A run has at most as many steps as there was to do at its start. -/
theorem Run.steps_le (h : Run edges k s t) : k + t.pending edges ≤ s.pending edges := by
  induction h with
  | done s => exact Nat.le_of_eq (Nat.zero_add _)
  | step first _ ih =>
    have hlt := first.pending_lt
    omega

/-- A search goes on exactly as long as something waits. -/
theorem exists_step_iff : (∃ t, Step edges s t) ↔ s.queue ≠ [] := by
  obtain ⟨visited, queue⟩ := s
  constructor
  · rintro ⟨t, h⟩
    cases h with
    | skip hqueue _ => exact List.ne_nil_of_mem (hqueue.mem_iff.mpr List.mem_cons_self)
    | expand hqueue _ _ _ _ => exact List.ne_nil_of_mem (hqueue.mem_iff.mpr List.mem_cons_self)
  · intro h
    obtain ⟨node, rest, rfl⟩ := List.exists_cons_of_ne_nil h
    by_cases hnode : node ∈ visited
    · exact ⟨_, .skip (.refl _) hnode⟩
    · exact ⟨_, .expand (.refl _) hnode (.refl _) (fun _ => .inl) (.refl _)⟩

/-- What holds at any time in a search from some seeds: no node is visited twice, what is visited or
waits is reached, each seed is visited or waits, and so is each successor of a visited node. -/
structure Sound (edges : List (String × String)) (seeds : List String) (s : Search) : Prop where
  nodup : s.visited.Nodup
  reached : ∀ n, n ∈ s.visited ∨ n ∈ s.queue → Reaches edges seeds n
  seeds : ∀ n ∈ seeds, n ∈ s.visited ∨ n ∈ s.queue
  successors : ∀ n ∈ s.visited, ∀ k ∈ successors edges n, k ∈ s.visited ∨ k ∈ s.queue

theorem sound_start (edges : List (String × String)) (seeds : List String) :
    Sound edges seeds ⟨[], seeds⟩ where
  nodup := List.nodup_nil
  reached n hn := ⟨n, hn.resolve_left List.not_mem_nil, .refl⟩
  seeds _ hn := .inr hn
  successors _ hn := absurd hn List.not_mem_nil

/-- Nothing that was visited or waited is lost in a step. -/
theorem Step.keeps (h : Step edges s t) {n : String} (hn : n ∈ s.visited ∨ n ∈ s.queue) :
    n ∈ t.visited ∨ n ∈ t.queue := by
  cases h with
  | skip hqueue hnode => grind [hqueue.mem_iff]
  | expand hqueue hnode hnext hall hqueue' => grind [hqueue.mem_iff, hqueue'.mem_iff]

theorem Step.sound (h : Step edges s t) (hs : Sound edges seeds s) : Sound edges seeds t := by
  have hseeds : ∀ n ∈ seeds, n ∈ t.visited ∨ n ∈ t.queue := fun n hn => h.keeps (hs.seeds n hn)
  have hold : ∀ n ∈ s.visited, ∀ k ∈ TypeGraph.successors edges n,
      k ∈ t.visited ∨ k ∈ t.queue := fun n hn k hk => h.keeps (hs.successors n hn k hk)
  cases h with
  | skip hqueue hnode =>
    refine ⟨hs.nodup, fun n hn => hs.reached n ?_, hseeds, hold⟩
    exact hn.imp_right fun hn => hqueue.mem_iff.mpr (List.mem_cons_of_mem _ hn)
  | @expand visited queue rest next queue' node hqueue hnode hnext hall hqueue' =>
    have hwaits : Reaches edges seeds node :=
      hs.reached node (.inr (hqueue.mem_iff.mpr List.mem_cons_self))
    refine ⟨List.nodup_cons.mpr ⟨hnode, hs.nodup⟩, ?_, hseeds, ?_⟩
    · rintro n (hn | hn)
      · rcases List.mem_cons.mp hn with rfl | hn
        · exact hwaits
        · exact hs.reached n (.inl hn)
      · rcases List.mem_append.mp (hqueue'.mem_iff.mp hn) with hn | hn
        · exact hwaits.tail (hnext.subset hn)
        · exact hs.reached n (.inr (hqueue.mem_iff.mpr (List.mem_cons_of_mem _ hn)))
    · intro n hn k hk
      rcases List.mem_cons.mp hn with rfl | hn
      · rcases hall k hk with hk | hk
        · exact .inr (hqueue'.mem_iff.mpr (List.mem_append_left _ hk))
        · exact .inl hk
      · exact hold n hn k hk

/-- In whatever order steps are taken, the nodes that are visited or wait are reached from the seeds. -/
theorem Run.sound (h : Run edges k s t) (hs : Sound edges seeds s) : Sound edges seeds t := by
  induction h with
  | done s => exact hs
  | step first _ ih => exact ih (first.sound hs)

/-- When nothing waits any more, what is visited is what is reached. -/
theorem Sound.mem_visited_iff (h : Sound edges seeds s) (hend : s.queue = []) {n : String} :
    n ∈ s.visited ↔ Reaches edges seeds n := by
  have hleft {n : String} (hn : n ∈ s.visited ∨ n ∈ s.queue) : n ∈ s.visited :=
    hn.resolve_right (hend ▸ List.not_mem_nil)
  constructor
  · exact fun hn => h.reached n (.inl hn)
  · rintro ⟨seed, hseed, hpath⟩
    induction hpath with
    | refl => exact hleft (h.seeds seed hseed)
    | tail _ hedge ih => exact hleft (h.successors _ ih _ (mem_successors.mpr hedge))

/-- A visit is a search that takes the first node that waits and puts all its successors in front. -/
theorem run_visit (edges : List (String × String)) (visited queue : List String) :
    ∃ k, Run edges k ⟨visited, queue⟩ ⟨visit edges visited queue, []⟩ := by
  fun_induction visit edges visited queue with
  | case1 visited => exact ⟨0, .done _⟩
  | case2 visited node rest hnode ih =>
    obtain ⟨k, hk⟩ := ih
    exact ⟨k + 1, .step (.skip (.refl _) hnode) hk⟩
  | case3 visited node rest hnode ih =>
    obtain ⟨k, hk⟩ := ih
    exact ⟨k + 1, .step (.expand (.refl _) hnode (.refl _) (fun _ => .inl) (.refl _)) hk⟩

/-- The end of a search from some seeds: each node that they reach, once. -/
theorem Run.visited_exact (h : Run edges k ⟨[], seeds⟩ s) (hend : s.queue = []) :
    s.visited.Nodup ∧ ∀ n, n ∈ s.visited ↔ Reaches edges seeds n := by
  have hsound : Sound edges seeds s := h.sound (sound_start edges seeds)
  exact ⟨hsound.nodup, fun _ => hsound.mem_visited_iff hend⟩

end Search

theorem nodup_reachableFrom (g : TypeGraph) (seeds : List String) :
    (g.reachableFrom seeds).Nodup := by
  obtain ⟨_, hrun⟩ := Search.run_visit g.edges [] seeds
  exact (hrun.visited_exact rfl).1

/-- `reachableFrom` finds exactly what some seed reaches. -/
theorem mem_reachableFrom_iff (g : TypeGraph) (seeds : List String) (n : String) :
    n ∈ g.reachableFrom seeds ↔
      ∃ seed ∈ seeds, Relation.ReflTransGen (fun a b => (a, b) ∈ g.edges) seed n := by
  obtain ⟨_, hrun⟩ := Search.run_visit g.edges [] seeds
  exact (hrun.visited_exact rfl).2 n

theorem mem_ofEdges {added : List (String × String)} {e : String × String} :
    e ∈ (ofEdges added).edges ↔ e ∈ added := by
  simp [ofEdges, mem_foldl_addEdge]

theorem mem_reachableFrom_ofEdges_iff {added : List (String × String)} {seeds : List String}
    {n : String} : n ∈ (ofEdges added).reachableFrom seeds ↔ Reaches added seeds n := by
  simp only [mem_reachableFrom_iff, mem_ofEdges, Reaches]

/-- Neither the order in which edges were added, which is that of the successors, nor the order of the
seeds decides what is found. -/
theorem reachableFrom_perm {added added' : List (String × String)} {seeds seeds' : List String}
    (hadded : added'.Perm added) (hseeds : seeds'.Perm seeds) :
    ((ofEdges added').reachableFrom seeds').Perm ((ofEdges added).reachableFrom seeds) := by
  refine (List.perm_ext_iff_of_nodup (nodup_reachableFrom _ _) (nodup_reachableFrom _ _)).mpr ?_
  intro n
  simp only [mem_reachableFrom_ofEdges_iff, Reaches, hadded.mem_iff, hseeds.mem_iff]

/-- Whatever edges were added and whatever the seeds are, a search takes at most one step for each seed
and each edge. As long as it is not at its end it can go on, and at its end it has visited, each once,
the nodes that the seeds reach along the edges that were added. The order of the steps, of the
successors and of the seeds does not matter, and `reachableFrom` is the end of one such search. -/
theorem search_exact (added : List (String × String)) (seeds : List String) :
    (∃ k, Search.Run (ofEdges added).edges k ⟨[], seeds⟩
      ⟨(ofEdges added).reachableFrom seeds, []⟩) ∧
    (∀ k s, Search.Run (ofEdges added).edges k ⟨[], seeds⟩ s →
      k ≤ seeds.length + (ofEdges added).edgeCount ∧
      ((∃ t, Search.Step (ofEdges added).edges s t) ↔ s.queue ≠ []) ∧
      (s.queue = [] → s.visited.Nodup ∧ ∀ n, n ∈ s.visited ↔ Reaches added seeds n)) ∧
    ((ofEdges added).reachableFrom seeds).Nodup ∧
    (∀ n, n ∈ (ofEdges added).reachableFrom seeds ↔ Reaches added seeds n) ∧
    ∀ added' seeds', added'.Perm added → seeds'.Perm seeds →
      ((ofEdges added').reachableFrom seeds').Perm ((ofEdges added).reachableFrom seeds) := by
  refine ⟨Search.run_visit _ [] seeds, fun k s hrun => ⟨?_, Search.exists_step_iff, fun hend => ?_⟩,
    nodup_reachableFrom _ seeds, fun _ => mem_reachableFrom_ofEdges_iff,
    fun _ _ => reachableFrom_perm⟩
  · have hstart : Search.pending (ofEdges added).edges ⟨[], seeds⟩ =
        seeds.length + (ofEdges added).edgeCount := by
      simp [Search.pending, edgeCount]
    have hsteps := hrun.steps_le
    omega
  · obtain ⟨hnodup, hmem⟩ := hrun.visited_exact hend
    simp only [Reaches, mem_ofEdges] at hmem
    exact ⟨hnodup, hmem⟩

end Triglot.TypeGraph
