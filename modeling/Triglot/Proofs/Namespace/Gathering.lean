import Mathlib.Data.List.Perm.Basic
import Triglot.Namespace.Partition
import Triglot.Proofs.Symbol.Sorted

/-! How the parts of a model come together. Declarations are added one after the other, each to the
part of its namespace. The parts are then, for each namespace that occurs, the declarations in it as
the model lists them, so that none is lost, moved or repeated. -/
namespace Triglot

namespace Model

def namespaces (m : Model) : List String :=
  sortedTexts ((m.enums.map fun e => effectiveNamespace e.ns) ++
    (m.types.map fun t => effectiveNamespace t.ns) ++
    (m.unions.map fun u => effectiveNamespace u.ns) ++
    (m.services.map fun s => effectiveNamespace s.ns))

def part (m : Model) (key : String) : Model where
  -- The declarations of one effective namespace. The annotations of the model go with its own.
  ns := key
  version := m.version
  annotations := if key = effectiveNamespace m.ns then m.annotations else .none
  enums := m.enums.filter fun e => effectiveNamespace e.ns == key
  types := m.types.filter fun t => effectiveNamespace t.ns == key
  unions := m.unions.filter fun u => effectiveNamespace u.ns == key
  services := m.services.filter fun s => effectiveNamespace s.ns == key

/-- A run over declarations of one kind. Each part gets those of its namespace, in their order. -/
theorem gathered_gather {α : Type} {m : Model} {keys : List String} {held : String → Model}
    {parts : List (String × Model)} (h : Gathered (fun a b => a < b) m.emptyPart keys held parts)
    (ns : α → String) (add : Model → α → Model) (xs : List α) :
    Gathered (fun a b => a < b) m.emptyPart (keys ++ xs.map fun x => effectiveNamespace (ns x))
      (fun k => (xs.filter fun x => effectiveNamespace (ns x) == k).foldl add (held k))
      (m.gather ns add xs parts) :=
  h.alterEach strictlyOrders_texts (fun x => effectiveNamespace (ns x)) (fun x part => add part x) xs

theorem foldl_addEnum (part : Model) (es : List EnumType) :
    es.foldl addEnum part = { part with enums := part.enums ++ es } := by
  induction es generalizing part with
  | nil => simp
  | cons e es ih => simp [ih, addEnum]

theorem foldl_addType (part : Model) (ts : List ObjectType) :
    ts.foldl addType part = { part with types := part.types ++ ts } := by
  induction ts generalizing part with
  | nil => simp
  | cons t ts ih => simp [ih, addType]

theorem foldl_addUnion (part : Model) (us : List UnionType) :
    us.foldl addUnion part = { part with unions := part.unions ++ us } := by
  induction us generalizing part with
  | nil => simp
  | cons u us ih => simp [ih, addUnion]

theorem foldl_addService (part : Model) (ss : List Service) :
    ss.foldl addService part = { part with services := part.services ++ ss } := by
  induction ss generalizing part with
  | nil => simp
  | cons s ss ih => simp [ih, addService]

/-- The four runs leave the part of each namespace that occurs, and no other. -/
theorem partition_eq (m : Model) : m.partition = m.namespaces.map fun k => (k, m.part k) := by
  have henums := gathered_gather (gathered_start (fun a b => a < b) m.emptyPart) EnumType.ns addEnum
    m.enums
  have htypes := gathered_gather henums ObjectType.ns addType m.types
  have hunions := gathered_gather htypes UnionType.ns addUnion m.unions
  have hservices := gathered_gather hunions Service.ns addService m.services
  simp only [foldl_addEnum, foldl_addType, foldl_addUnion, foldl_addService] at hservices
  exact hservices.values_eq

variable {m part : Model} {key : String}

/-- A partition has a part for each namespace, which holds the declarations of it. -/
theorem mem_partition : (key, part) ∈ m.partition ↔ key ∈ m.namespaces ∧ part = m.part key := by
  simp only [partition_eq, List.mem_map, Prod.mk.injEq]
  constructor
  · rintro ⟨k, hk, rfl, rfl⟩
    exact ⟨hk, rfl⟩
  · rintro ⟨hk, rfl⟩
    exact ⟨key, hk, rfl, rfl⟩

theorem partition_keys (m : Model) : m.partition.map Prod.fst = m.namespaces := by
  rw [partition_eq, List.map_map]
  exact List.map_id _

end Model

/-- Items that are told apart by their keys are all there is for these keys. -/
theorem flatMap_filter_perm {α : Type} (key : α → String) {keys : List String} (hn : keys.Nodup)
    {xs : List α} (hx : ∀ x ∈ xs, key x ∈ keys) :
    (keys.flatMap fun k => xs.filter fun x => key x == k).Perm xs := by
  induction keys generalizing xs with
  | nil =>
    have hnil : xs = [] := List.eq_nil_iff_forall_not_mem.mpr fun x hmem => by cases hx x hmem
    rw [hnil]
    exact .nil
  | cons k ks ih =>
    obtain ⟨hk, hks⟩ := List.nodup_cons.mp hn
    -- The other keys only see what the first one leaves.
    have hrest : (ks.flatMap fun c => xs.filter fun x => key x == c) =
        ks.flatMap fun c => (xs.filter fun x => !(key x == k)).filter fun x => key x == c := by
      apply List.flatMap_congr
      intro c hc
      rw [List.filter_filter]
      apply List.filter_congr
      intro x _
      have hck : c ≠ k := by
        rintro rfl
        exact hk hc
      by_cases hxc : key x = c
      · simp [hxc, hck]
      · simp [hxc]
    have hleft : ∀ x ∈ xs.filter (fun x => !(key x == k)), key x ∈ ks := by
      intro x hmem
      obtain ⟨hmem, hne⟩ := List.mem_filter.mp hmem
      rcases List.mem_cons.mp (hx x hmem) with heq | hin
      · simp [heq] at hne
      · exact hin
    rw [List.flatMap_cons, hrest]
    exact ((ih hks hleft).append_left _).trans (List.filter_append_perm _ xs)

def countOver {α : Type} (count : α → Nat) (xs : List α) : Nat :=
  xs.foldr (fun x n => count x + n) 0

theorem countOver_add {α : Type} (f g : α → Nat) (xs : List α) :
    countOver (fun x => f x + g x) xs = countOver f xs + countOver g xs := by
  induction xs with
  | nil => rfl
  | cons x xs ih =>
    simp only [countOver, List.foldr_cons] at ih ⊢
    omega

theorem countOver_length {α β : Type} (f : α → List β) (xs : List α) :
    countOver (fun x => (f x).length) xs = (xs.flatMap f).length := by
  induction xs with
  | nil => rfl
  | cons x xs ih =>
    rw [List.flatMap_cons, List.length_append, ← ih]
    rfl

/-- Declarations of one kind are dealt out to parts by their namespaces. Each part holds those of its
own namespace as they are listed, each declaration is in one part only, and the parts together hold as
many as there are. -/
structure DealtOut {α : Type} (ns : α → String) (listed : Model → List α) (xs : List α)
    (parts : List (String × Model)) : Prop where
  held : ∀ p ∈ parts, listed p.2 = xs.filter fun x => effectiveNamespace (ns x) == p.1
  once : ∀ x ∈ xs, ∃! p, p ∈ parts ∧ x ∈ listed p.2
  perm : (parts.flatMap fun p => listed p.2).Perm xs
  count : countOver (fun p => (listed p.2).length) parts = xs.length

namespace Model

variable {m : Model}

/-- If the parts list the declarations of one kind by namespace, that kind is dealt out. -/
theorem dealtOut_partition {α : Type} {ns : α → String} {listed : Model → List α} {xs : List α}
    (hlisted : ∀ k, listed (m.part k) = xs.filter fun x => effectiveNamespace (ns x) == k)
    (hmem : ∀ x ∈ xs, effectiveNamespace (ns x) ∈ m.namespaces) :
    DealtOut ns listed xs m.partition := by
  have hnodup : m.namespaces.Nodup := (sortedTexts_increasing _).imp ne_of_lt
  have hperm : (m.partition.flatMap fun p => listed p.2).Perm xs := by
    rw [partition_eq, List.flatMap_map]
    simp only [hlisted]
    exact flatMap_filter_perm (fun x => effectiveNamespace (ns x)) hnodup hmem
  refine ⟨?_, ?_, hperm, ?_⟩
  · rintro ⟨k, part⟩ hp
    obtain ⟨_, rfl⟩ := mem_partition.mp hp
    exact hlisted k
  · intro x hx
    refine ⟨(effectiveNamespace (ns x), m.part (effectiveNamespace (ns x))), ⟨?_, ?_⟩, ?_⟩
    · exact mem_partition.mpr ⟨hmem x hx, rfl⟩
    · rw [hlisted]
      exact List.mem_filter.mpr ⟨hx, beq_self_eq_true _⟩
    · rintro ⟨k, part⟩ ⟨hp, hxp⟩
      obtain ⟨_, rfl⟩ := mem_partition.mp hp
      rw [hlisted] at hxp
      rw [beq_iff_eq.mp (List.mem_filter.mp hxp).2]
  · rw [countOver_length, hperm.length_eq]

theorem mem_namespaces_iff {key : String} : key ∈ m.namespaces ↔
    (∃ e ∈ m.enums, effectiveNamespace e.ns = key) ∨
      (∃ t ∈ m.types, effectiveNamespace t.ns = key) ∨
      (∃ u ∈ m.unions, effectiveNamespace u.ns = key) ∨
      ∃ s ∈ m.services, effectiveNamespace s.ns = key := by
  simp only [namespaces, mem_sortedTexts, List.mem_append, List.mem_map, or_assoc]

/-- The parts together count as many declarations as their kinds do. -/
theorem declarationCount_partition (m : Model) :
    countOver (fun p => p.2.declarationCount) m.partition =
      countOver (fun p => p.2.enums.length) m.partition +
      countOver (fun p => p.2.types.length) m.partition +
      countOver (fun p => p.2.unions.length) m.partition +
      countOver (fun p => p.2.services.length) m.partition := by
  simp only [declarationCount, countOver_add]

/-- The parts of a model are one for each effective namespace of a declaration, in increasing order.
The declarations of each kind are dealt out to them, unchanged and in order, and their counts add up.
Each part has its namespace and the version of the model; the annotations of the model are in the part
of its own effective namespace and in no other. -/
theorem partition_exact (m : Model) :
    (m.partition.map Prod.fst).Pairwise (· < ·) ∧
    (∀ key, key ∈ m.partition.map Prod.fst ↔
      (∃ e ∈ m.enums, effectiveNamespace e.ns = key) ∨
        (∃ t ∈ m.types, effectiveNamespace t.ns = key) ∨
        (∃ u ∈ m.unions, effectiveNamespace u.ns = key) ∨
        ∃ s ∈ m.services, effectiveNamespace s.ns = key) ∧
    DealtOut EnumType.ns Model.enums m.enums m.partition ∧
    DealtOut ObjectType.ns Model.types m.types m.partition ∧
    DealtOut UnionType.ns Model.unions m.unions m.partition ∧
    DealtOut Service.ns Model.services m.services m.partition ∧
    countOver (fun p => p.2.declarationCount) m.partition = m.declarationCount ∧
    ∀ key part, (key, part) ∈ m.partition → part.ns = key ∧ part.version = m.version ∧
      part.annotations = if key = effectiveNamespace m.ns then m.annotations else .none := by
  have henums : DealtOut EnumType.ns Model.enums m.enums m.partition :=
    dealtOut_partition (fun _ => rfl) fun e he => mem_namespaces_iff.mpr (.inl ⟨e, he, rfl⟩)
  have htypes : DealtOut ObjectType.ns Model.types m.types m.partition :=
    dealtOut_partition (fun _ => rfl) fun t ht =>
      mem_namespaces_iff.mpr (.inr (.inl ⟨t, ht, rfl⟩))
  have hunions : DealtOut UnionType.ns Model.unions m.unions m.partition :=
    dealtOut_partition (fun _ => rfl) fun u hu =>
      mem_namespaces_iff.mpr (.inr (.inr (.inl ⟨u, hu, rfl⟩)))
  have hservices : DealtOut Service.ns Model.services m.services m.partition :=
    dealtOut_partition (fun _ => rfl) fun s hs =>
      mem_namespaces_iff.mpr (.inr (.inr (.inr ⟨s, hs, rfl⟩)))
  refine ⟨?_, fun key => ?_, henums, htypes, hunions, hservices, ?_, fun key part hp => ?_⟩
  · rw [partition_keys]
    exact sortedTexts_increasing _
  · rw [partition_keys]
    exact mem_namespaces_iff
  · rw [declarationCount_partition, henums.count, htypes.count, hunions.count, hservices.count]
    rfl
  · obtain ⟨_, rfl⟩ := mem_partition.mp hp
    exact ⟨rfl, rfl, rfl⟩

end Model

def stations : Model :=
  -- Declarations without a namespace, in the namespace that stands for none, and in another one.
  { annotations := { Annotations.none with proto := { options := ["java_package = \"rail\""] } }
    enums := [{ name := "Gauge", ns := "north" }]
    types :=
      [{ name := "Track" }, { name := "Switch", ns := "north" }, { name := "Signal", ns := "api" }] }

theorem partition_stations :
    stations.partition.map Prod.fst = ["api", "north"] ∧
      ∀ part, ("api", part) ∈ stations.partition →
        part.types.map ObjectType.name = ["Track", "Signal"] ∧
          part.annotations = stations.annotations := by
  obtain ⟨_, _, _, htypes, _, _, _, hparts⟩ := Model.partition_exact stations
  refine ⟨by decide +kernel, fun part hp => ⟨?_, (hparts "api" part hp).2.2⟩⟩
  have hheld : part.types = stations.types.filter fun t => effectiveNamespace t.ns == "api" :=
    htypes.held _ hp
  rw [hheld]
  decide +kernel

end Triglot
