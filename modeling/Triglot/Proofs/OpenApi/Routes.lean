import Mathlib.Data.List.Basic
import Triglot.Proofs.OpenApi.Closure

/-! What becomes of the methods of a model under their paths. Routes are served in the order of services
and methods. The first one with a path and a verb fills their slot, and every later one is told of once,
so that no operation is lost in silence or replaced. -/
namespace Triglot.OpenApi

def routeAt (s : Service) (i : Nat) (k : Method) (j : Nat) : Route :=
  ⟨i, j, s.ns, k, k.path.getD (defaultPath s k)⟩

def Route.key (r : Route) : String × HttpVerb := (r.path, r.method.verb)

def Route.location (r : Route) : String :=
  s!"$.services[{r.serviceIndex}].methods[{r.methodIndex}]"

def Route.Before (a b : Route) : Prop :=
  a.serviceIndex < b.serviceIndex ∨ a.serviceIndex = b.serviceIndex ∧ a.methodIndex < b.methodIndex

structure IsFirst (services : List Service) (r : Route) : Prop where
  listed : r ∈ routes services
  earlier : ∀ q ∈ routes services, q.Before r → q.key ≠ r.key

def PathItem.operations (p : PathItem) : List Operation :=
  HttpVerb.all.flatMap fun verb => (p.slot verb).toList

def PathTable.item (t : PathTable) (path : String) : PathItem := (t.items.lookup path).getD {}

def PathTable.slot (t : PathTable) (key : String × HttpVerb) : Option Operation :=
  (t.item key.1).slot key.2

def PathTable.operations (t : PathTable) : List Operation := t.items.flatMap fun p => p.2.operations

def tellsTaken (location : String) (w : Diagnostic) : Bool :=
  w.code == Code.duplicateOperation && w.path == location

def PathTable.warningsAt (t : PathTable) (location : String) : List Diagnostic :=
  t.warnings.filter (tellsTaken location)

section Places

theorem mem_routes {services : List Service} {r : Route} :
    r ∈ routes services ↔ ∃ s i k j, services[i]? = some s ∧ s.methods[j]? = some k ∧
      r = routeAt s i k j := by
  simp only [routes, List.mem_flatMap, List.mem_map]
  constructor
  · rintro ⟨⟨s, i⟩, hs, ⟨k, j⟩, hk, rfl⟩
    exact ⟨s, i, k, j, List.mem_zipIdx_iff_getElem?.mp hs, List.mem_zipIdx_iff_getElem?.mp hk, rfl⟩
  · rintro ⟨s, i, k, j, hs, hk, rfl⟩
    exact ⟨(s, i), List.mem_zipIdx_iff_getElem?.mpr hs, (k, j),
      List.mem_zipIdx_iff_getElem?.mpr hk, rfl⟩

/-- Every method of every service has one route. -/
theorem routes_methods (services : List Service) :
    (routes services).map (·.method) = services.flatMap (·.methods) := by
  have hfrom (n : Nat) (ss : List Service) :
      ((ss.zipIdx n).flatMap fun p => p.1.methods.zipIdx.map fun q =>
        routeAt p.1 p.2 q.1 q.2).map (·.method) = ss.flatMap (·.methods) := by
    induction ss generalizing n with
    | nil => rfl
    | cons s ss ih =>
      have hown : (s.methods.zipIdx.map fun q => routeAt s n q.1 q.2).map (·.method) = s.methods := by
        rw [List.map_map]
        exact List.zipIdx_map_fst 0 s.methods
      rw [List.zipIdx_cons, List.flatMap_cons, List.map_append, hown, ih, List.flatMap_cons]
  exact hfrom 0 services

theorem zipIdx_ordered {α : Type} (xs : List α) : xs.zipIdx.Pairwise fun p q => p.2 < q.2 := by
  rw [← List.pairwise_map, List.zipIdx_map_snd]
  exact List.pairwise_lt_range'

theorem Route.Before.irrefl (r : Route) : ¬r.Before r := by
  unfold Route.Before
  omega

theorem Route.Before.ne {a b : Route} (h : a.Before b) : a ≠ b := by
  rintro rfl
  exact Route.Before.irrefl a h

theorem Route.Before.asymm {a b : Route} (h : a.Before b) : ¬b.Before a := by
  unfold Route.Before at h ⊢
  omega

/-- Routes are listed in the order of services and methods. -/
theorem routes_ordered (services : List Service) : (routes services).Pairwise Route.Before := by
  rw [routes, List.pairwise_flatMap]
  constructor
  · rintro ⟨s, i⟩ _
    rw [List.pairwise_map]
    exact (zipIdx_ordered s.methods).imp fun h => .inr ⟨rfl, h⟩
  · refine (zipIdx_ordered services).imp fun {p q} h a ha b hb => .inl ?_
    obtain ⟨x, _, rfl⟩ := List.mem_map.mp ha
    obtain ⟨y, _, rfl⟩ := List.mem_map.mp hb
    exact h

/-- A number is read from its digits up to a bracket. -/
theorem digits_inj_of_bracket {i j : Nat} {cs ds : List Char}
    (h : Nat.toDigits 10 i ++ ']' :: cs = Nat.toDigits 10 j ++ ']' :: ds) : i = j ∧ cs = ds := by
  have htake (n : Nat) (es : List Char) :
      (Nat.toDigits 10 n ++ ']' :: es).takeWhile Char.isDigit = Nat.toDigits 10 n := by
    have hdigits : ∀ c ∈ Nat.toDigits 10 n, c.isDigit = true :=
      fun c hc => Nat.isDigit_of_mem_toDigits (by decide) (by decide) hc
    rw [List.takeWhile_append_of_pos hdigits, List.takeWhile_cons_of_neg (by decide),
      List.append_nil]
  have hdigits : Nat.toDigits 10 i = Nat.toDigits 10 j := by
    rw [← htake i cs, h, htake]
  have hij : i = j := by
    rw [← Nat.ofDigitChars_ten_toDigits (n := i), hdigits, Nat.ofDigitChars_ten_toDigits]
  rw [hij] at h
  exact ⟨hij, (List.cons.inj (List.append_cancel_left h)).2⟩

/-- The texts of two places differ as the places do. -/
theorem location_injective {a b : Route} (h : a.location = b.location) :
    a.serviceIndex = b.serviceIndex ∧ a.methodIndex = b.methodIndex := by
  have htext (r : Route) : r.location.toList = "$.services[".toList ++
      (Nat.toDigits 10 r.serviceIndex ++ ']' ::
        (".methods[".toList ++ (Nat.toDigits 10 r.methodIndex ++ [']']))) := by
    simp [Route.location, toString]
  have hlists := congrArg String.toList h
  rw [htext, htext] at hlists
  obtain ⟨hi, hrest⟩ := digits_inj_of_bracket (List.append_cancel_left hlists)
  exact ⟨hi, (digits_inj_of_bracket (List.append_cancel_left hrest)).1⟩

theorem eq_of_location {services : List Service} {a b : Route} (ha : a ∈ routes services)
    (hb : b ∈ routes services) (h : a.location = b.location) : a = b := by
  obtain ⟨hi, hj⟩ := location_injective h
  obtain ⟨s, i, k, j, hs, hk, rfl⟩ := mem_routes.mp ha
  obtain ⟨s', i', k', j', hs', hk', rfl⟩ := mem_routes.mp hb
  cases hi
  cases hj
  rw [hs] at hs'
  cases hs'
  rw [hk] at hk'
  cases hk'
  rfl

theorem before_or_before {services : List Service} {a b : Route} (ha : a ∈ routes services)
    (hb : b ∈ routes services) (h : a ≠ b) : a.Before b ∨ b.Before a := by
  by_contra hneither
  have hplace : a.serviceIndex = b.serviceIndex ∧ a.methodIndex = b.methodIndex := by
    unfold Route.Before at hneither
    omega
  exact h (eq_of_location ha hb (by rw [Route.location, Route.location, hplace.1, hplace.2]))

/-- What an ordered list finds first, it has before all others that satisfy the test. -/
theorem not_of_find? {α : Type} {R : α → α → Prop} (hR : ∀ a b, R a b → ¬R b a) {p : α → Bool}
    {xs : List α} (hxs : xs.Pairwise R) {x : α} (hx : xs.find? p = some x) {y : α} (hy : y ∈ xs)
    (hyx : R y x) : p y = false := by
  obtain ⟨_, before, after, rfl, hbefore⟩ := List.find?_eq_some_iff_append.mp hx
  rcases List.mem_append.mp hy with hy | hy
  · simpa using hbefore y hy
  · exfalso
    have hafter := (List.pairwise_append.mp hxs).2.1
    rcases List.mem_cons.mp hy with rfl | hy
    · exact hR y y hyx hyx
    · exact hR y x hyx ((List.pairwise_cons.mp hafter).1 y hy)

end Places

section Table

theorem slot_empty (verb : HttpVerb) : ({} : PathItem).slot verb = none := by
  cases verb <;> rfl

variable {t : PathTable} {r : Route}

theorem add_of_taken {holder : Operation} (h : t.slot r.key = some holder) (o : Operation) :
    t.add r o = { t with warnings := t.warnings ++ [taken r holder] } := by
  have hslot : ((t.items.lookup r.path).getD {}).slot r.method.verb = some holder := h
  unfold PathTable.add
  dsimp only
  rw [hslot]

theorem add_of_free (h : t.slot r.key = none) (o : Operation) :
    t.add r o =
      { t with items := putEntry r.path ((t.item r.path).fill r.method.verb o) t.items } := by
  have hslot : ((t.items.lookup r.path).getD {}).slot r.method.verb = none := h
  unfold PathTable.add
  dsimp only
  rw [hslot]
  rfl

/-- An operation in a free slot is found there, and all other slots are as before. -/
theorem slot_add_of_free (h : t.slot r.key = none) (o : Operation) (key : String × HttpVerb) :
    (t.add r o).slot key = if key = r.key then some o else t.slot key := by
  obtain ⟨path, verb⟩ := key
  rw [add_of_free h]
  unfold PathTable.slot
  by_cases hpath : path = r.path
  · have hitem : PathTable.item
        { t with items := putEntry r.path ((t.item r.path).fill r.method.verb o) t.items } path =
        (t.item r.path).fill r.method.verb o := by
      rw [PathTable.item, lookup_putEntry, if_pos hpath, Option.getD_some]
    rw [hitem, hpath]
    by_cases hverb : verb = r.method.verb
    · rw [if_pos (by rw [Route.key, hverb]), hverb, slot_fill_self]
    · have hne : (r.path, verb) ≠ r.key := fun hk => hverb (Prod.mk.inj hk).2
      rw [if_neg hne, slot_fill_of_ne _ hverb]
  · have hne : (path, verb) ≠ r.key := fun hk => hpath (Prod.mk.inj hk).1
    rw [if_neg hne, PathTable.item, lookup_putEntry, if_neg hpath]
    rfl

theorem fill_operations_length {p : PathItem} {verb : HttpVerb} (h : p.slot verb = none)
    (o : Operation) : (p.fill verb o).operations.length = p.operations.length + 1 := by
  simp only [PathItem.operations, HttpVerb.all, List.flatMap_cons, List.flatMap_nil,
    List.length_append]
  cases verb <;> simp only [PathItem.slot] at h <;>
    simp only [PathItem.slot, PathItem.fill, h, Option.toList_some, Option.toList_none,
      List.length_singleton, List.length_nil] <;> omega

/-- A path gains or loses operations by the difference to those that it had. -/
theorem putEntry_operations_length (key : String) (item : PathItem)
    (es : List (String × PathItem)) :
    ((putEntry key item es).flatMap fun p => p.2.operations).length +
        ((es.lookup key).getD {}).operations.length =
      (es.flatMap fun p => p.2.operations).length + item.operations.length := by
  induction es with
  | nil => simp [putEntry, PathItem.operations, HttpVerb.all, PathItem.slot]
  | cons e es ih =>
    unfold putEntry
    by_cases he : e.1 = key
    · rw [if_pos he, List.lookup_cons, beq_iff_eq.mpr he.symm]
      simp only [List.flatMap_cons, List.length_append, Option.getD_some]
      omega
    · rw [if_neg he, List.lookup_cons, beq_eq_false_iff_ne.mpr (Ne.symm he)]
      simp only [List.flatMap_cons, List.length_append]
      omega

theorem add_operations_length (h : t.slot r.key = none) (o : Operation) :
    (t.add r o).operations.length = t.operations.length + 1 := by
  have hfill : ((t.item r.path).fill r.method.verb o).operations.length =
      (t.item r.path).operations.length + 1 := fill_operations_length h o
  have hput : (t.add r o).operations.length + (t.item r.path).operations.length =
      t.operations.length + ((t.item r.path).fill r.method.verb o).operations.length := by
    rw [add_of_free h]
    exact putEntry_operations_length r.path _ t.items
  omega

end Table

section Run

def holder? (done : List (Route × Operation)) (key : String × HttpVerb) :
    Option (Route × Operation) :=
  done.find? fun p => p.1.key = key

def told? (done : List (Route × Operation)) (r : Route) : Option Diagnostic :=
  -- What is told of a route, unless it is the first one with its key.
  (holder? done r.key).bind fun q => if q.1 = r then none else some (taken r q.2)

structure Served (done : List (Route × Operation)) (t : PathTable) : Prop where
  slots : ∀ key, t.slot key = (holder? done key).map Prod.snd
  keys : t.items.map Prod.fst = (done.map fun p => p.1.path).eraseDups
  warnings : t.warnings = done.filterMap fun p => told? done p.1
  conserved : t.operations.length + t.warnings.length = done.length

theorem served_start : Served [] {} where
  slots := fun key => slot_empty key.2
  keys := rfl
  warnings := rfl
  conserved := rfl

variable {done : List (Route × Operation)} {t : PathTable} {r : Route} {o : Operation}

theorem holder?_append_singleton (key : String × HttpVerb) :
    holder? (done ++ [(r, o)]) key =
      (holder? done key).or (if r.key = key then some (r, o) else none) := by
  rw [holder?, List.find?_append, List.find?_singleton]
  simp only [decide_eq_true_eq]
  rfl

theorem holder?_isSome_of_mem {p : Route × Operation} (hp : p ∈ done) :
    (holder? done p.1.key).isSome = true :=
  List.find?_isSome.mpr ⟨p, hp, by simp⟩

/-- A served route keeps its holder, whatever is served after it. -/
theorem told?_append_of_mem {p : Route × Operation} (hp : p ∈ done) :
    told? (done ++ [(r, o)]) p.1 = told? done p.1 := by
  obtain ⟨q, hq⟩ := Option.isSome_iff_exists.mp (holder?_isSome_of_mem hp)
  rw [told?, told?, holder?_append_singleton, hq, Option.some_or]

theorem filterMap_told?_append :
    ((done ++ [(r, o)]).filterMap fun p => told? (done ++ [(r, o)]) p.1) =
      (done.filterMap fun p => told? done p.1) ++ (told? (done ++ [(r, o)]) r).toList := by
  have hdone : (done.filterMap fun p => told? (done ++ [(r, o)]) p.1) =
      done.filterMap fun p => told? done p.1 :=
    List.filterMap_congr fun p hp => told?_append_of_mem hp
  rw [List.filterMap_append, hdone]
  cases h : told? (done ++ [(r, o)]) r <;> simp [h]

theorem eraseDups_append_singleton (xs : List String) (x : String) :
    (xs ++ [x]).eraseDups = if x ∈ xs then xs.eraseDups else xs.eraseDups ++ [x] := by
  rw [List.eraseDups_append]
  by_cases hx : x ∈ xs <;> simp [List.removeAll, hx, List.eraseDups_cons]

/-- One more route either fills its slot or is told of. -/
theorem Served.add (h : Served done t) (hnew : r ∉ done.map Prod.fst) (o : Operation) :
    Served (done ++ [(r, o)]) (t.add r o) := by
  cases hholder : holder? done r.key with
  | some q =>
    -- The slot is taken by an earlier route, which the new one is not.
    have hslot : t.slot r.key = some q.2 := by rw [h.slots, hholder, Option.map_some]
    have hq : q ∈ done := List.mem_of_find?_eq_some hholder
    have hqr : q.1 ≠ r := fun heq => hnew (heq ▸ List.mem_map_of_mem hq)
    have hkey : q.1.key = r.key := by simpa using List.find?_some hholder
    have htold : told? (done ++ [(r, o)]) r = some (taken r q.2) := by
      rw [told?, holder?_append_singleton, hholder, Option.some_or, Option.bind_some, if_neg hqr]
    rw [add_of_taken hslot]
    refine ⟨fun key => ?_, ?_, ?_, ?_⟩
    · rw [holder?_append_singleton]
      by_cases hk : r.key = key
      · rw [← hk, hholder, Option.some_or, Option.map_some]
        exact hslot
      · rw [if_neg hk, Option.or_none]
        exact h.slots key
    · have hpath : r.path ∈ done.map fun p => p.1.path := by
        rw [← (Prod.mk.inj hkey).1]
        exact List.mem_map_of_mem (f := fun p : Route × Operation => p.1.path) hq
      rw [List.map_append, List.map_singleton, eraseDups_append_singleton, if_pos hpath]
      exact h.keys
    · rw [filterMap_told?_append, htold, ← h.warnings]
      rfl
    · have hcount := h.conserved
      change t.operations.length + (t.warnings ++ [taken r q.2]).length = _
      simp only [List.length_append, List.length_singleton]
      omega
  | none =>
    have hslot : t.slot r.key = none := by rw [h.slots, hholder, Option.map_none]
    have htold : told? (done ++ [(r, o)]) r = none := by
      rw [told?, holder?_append_singleton, hholder, Option.none_or, if_pos rfl, Option.bind_some,
        if_pos rfl]
    have hwarnings : (t.add r o).warnings = t.warnings := by rw [add_of_free hslot]
    refine ⟨fun key => ?_, ?_, ?_, ?_⟩
    · rw [slot_add_of_free hslot, holder?_append_singleton]
      by_cases hk : key = r.key
      · rw [if_pos hk, hk, hholder, Option.none_or, if_pos rfl, Option.map_some]
      · rw [if_neg hk, if_neg (Ne.symm hk), Option.or_none]
        exact h.slots key
    · rw [add_of_free hslot, List.map_append, List.map_singleton, eraseDups_append_singleton]
      have hkeys := h.keys
      change (putEntry _ _ t.items).map Prod.fst = _
      rw [putEntry_keys, hkeys]
      simp only [List.mem_eraseDups]
    · rw [filterMap_told?_append, htold, hwarnings, h.warnings]
      simp
    · have hcount := h.conserved
      have hstored := add_operations_length hslot o
      rw [hwarnings]
      simp only [List.length_append, List.length_singleton]
      omega

/-- A run over more routes. -/
theorem Served.run (h : Served done t) {ps : List (Route × Operation)}
    (hnodup : ((done ++ ps).map Prod.fst).Nodup) :
    Served (done ++ ps) (ps.foldl (fun t p => t.add p.1 p.2) t) := by
  induction ps generalizing done t with
  | nil =>
    rw [List.append_nil]
    exact h
  | cons p ps ih =>
    have hnew : p.1 ∉ done.map Prod.fst := by
      rw [List.map_append, List.map_cons, List.nodup_append] at hnodup
      exact fun hmem => hnodup.2.2 p.1 hmem p.1 List.mem_cons_self rfl
    rw [List.append_cons] at hnodup ⊢
    exact ih (h.add hnew p.2) hnodup

end Run

section

variable {scope : Scope} {services : List Service} {t : PathTable}

/-- The table holds all routes with their operations, served one after the other. -/
theorem served_of_buildPaths (h : buildPaths scope services = .ok t) :
    ∃ done, done.map Prod.fst = routes services ∧ Served done t ∧
      ∀ p ∈ done, operation (scope.within p.1.ns) p.1.method p.1.path = .ok p.2 := by
  obtain ⟨done, hdone, h⟩ := bind_eq_ok h
  cases h
  have hstep {r : Route} {p : Route × Operation}
      (hp : (do pure (r, ← operation (scope.within r.ns) r.method r.path)) = .ok p) :
      p.1 = r ∧ operation (scope.within r.ns) r.method r.path = .ok p.2 := by
    obtain ⟨o, ho, hp⟩ := bind_eq_ok hp
    cases hp
    exact ⟨rfl, ho⟩
  have hroutes : done.map Prod.fst = routes services := by
    rw [map_eq_of_mapM (k := id) hdone fun r _ p hp => (hstep hp).1, List.map_id]
  refine ⟨done, hroutes, ?_, fun p hp => ?_⟩
  · have hnodup : (done.map Prod.fst).Nodup := by
      rw [hroutes]
      exact (routes_ordered services).imp Route.Before.ne
    exact served_start.run hnodup
  · obtain ⟨r, _, hr⟩ := exists_of_mem_mapM hdone hp
    obtain ⟨hpr, ho⟩ := hstep hr
    rw [hpr]
    exact ho

/-- The holder of a key is the first route with it. -/
theorem isFirst_of_holder? {done : List (Route × Operation)}
    (hroutes : done.map Prod.fst = routes services) {key : String × HttpVerb}
    {q : Route × Operation} (hq : holder? done key = some q) :
    IsFirst services q.1 ∧ q.1.key = key := by
  have hkey : q.1.key = key := by simpa using List.find?_some hq
  have hordered : done.Pairwise fun a b => a.1.Before b.1 := by
    rw [← List.pairwise_map, hroutes]
    exact routes_ordered services
  refine ⟨⟨hroutes ▸ List.mem_map_of_mem (List.mem_of_find?_eq_some hq), fun r hr hbefore => ?_⟩, hkey⟩
  rw [← hroutes] at hr
  obtain ⟨p, hp, rfl⟩ := List.mem_map.mp hr
  have hother := not_of_find? (fun a b => Route.Before.asymm) hordered hq hp hbefore
  rw [hkey]
  simpa using hother

theorem told?_eq_some {done : List (Route × Operation)} {r : Route} {w : Diagnostic}
    (h : told? done r = some w) : ∃ holder, w = taken r holder := by
  obtain ⟨q, _, hw⟩ := Option.bind_eq_some_iff.mp h
  split at hw
  · cases hw
  · exact ⟨q.2, (Option.some.inj hw).symm⟩

/-- Where all others give nothing, a walk over distinct items gives what one of them does. -/
theorem filterMap_eq_toList {α β : Type} {xs : List α} (hn : xs.Nodup) {x : α} (hx : x ∈ xs)
    {g : α → Option β} (hg : ∀ y ∈ xs, y ≠ x → g y = none) : xs.filterMap g = (g x).toList := by
  obtain ⟨before, after, rfl⟩ := List.append_of_mem hx
  rw [List.nodup_middle, List.nodup_cons] at hn
  have hnone : ∀ ys ⊆ before ++ after, ys.filterMap g = [] := by
    intro ys hys
    refine List.filterMap_eq_nil_iff.mpr fun y hy => hg y ?_ ?_
    · exact List.perm_middle.mem_iff.mpr (List.mem_cons_of_mem x (hys hy))
    · rintro rfl
      exact hn.1 (hys hy)
  rw [List.filterMap_append, hnone before (List.subset_append_left before after),
    List.filterMap_cons, hnone after (List.subset_append_right before after)]
  cases g x <;> rfl

/-- What is told of one route, among all that is told. -/
theorem warningsAt_of_served {done : List (Route × Operation)}
    (hroutes : done.map Prod.fst = routes services) (ht : Served done t) {r : Route}
    (hr : r ∈ routes services) : t.warningsAt r.location = (told? done r).toList := by
  have hown : (told? done r).filter (tellsTaken r.location) = told? done r := by
    cases hw : told? done r with
    | none => rfl
    | some w =>
      obtain ⟨holder, rfl⟩ := told?_eq_some hw
      exact Option.filter_some_pos (by simp [tellsTaken, taken, Route.location])
  have hother : ∀ x ∈ routes services, x ≠ r →
      (told? done x).filter (tellsTaken r.location) = none := by
    intro x hx hne
    cases hw : told? done x with
    | none => rfl
    | some w =>
      obtain ⟨holder, rfl⟩ := told?_eq_some hw
      have hlocation : x.location ≠ r.location := fun h => hne (eq_of_location hx hr h)
      exact Option.filter_some_neg (by simpa [tellsTaken, taken, Route.location] using hlocation)
  have hwarnings : t.warnings = (routes services).filterMap (told? done) := by
    rw [ht.warnings, ← hroutes, List.filterMap_map]
    rfl
  have hnodup : (routes services).Nodup := (routes_ordered services).imp Route.Before.ne
  rw [PathTable.warningsAt, hwarnings, List.filter_filterMap, filterMap_eq_toList hnodup hr hother, hown]

end

/-- If all methods have an operation, then for each of them its slot holds the operation of the first
method with this path and verb, in the order of services and methods. If that is the method itself,
nothing is told of it; otherwise one warning is, at the place of the method. All that is stored is
stored for such a first method, operations and warnings together are as many as there are methods, and
paths are listed as they first occur. -/
theorem buildPaths_conserves (scope : Scope) (services : List Service) (t : PathTable)
    (h : buildPaths scope services = .ok t) :
    (∀ i s j k, services[i]? = some s → s.methods[j]? = some k →
      ∃ first o, IsFirst services first ∧ first.key = (routeAt s i k j).key ∧
        operation (scope.within first.ns) first.method first.path = .ok o ∧
        t.slot (k.path.getD (defaultPath s k), k.verb) = some o ∧
        (first = routeAt s i k j ∧
            t.warningsAt s!"$.services[{i}].methods[{j}]" = [] ∨
          first.Before (routeAt s i k j) ∧
            t.warningsAt s!"$.services[{i}].methods[{j}]" = [taken (routeAt s i k j) o])) ∧
    (∀ key o, t.slot key = some o → ∃ first, IsFirst services first ∧ first.key = key ∧
      operation (scope.within first.ns) first.method first.path = .ok o) ∧
    t.operations.length + t.warnings.length = (services.flatMap (·.methods)).length ∧
    t.items.map Prod.fst = ((routes services).map (·.path)).eraseDups := by
  obtain ⟨done, hroutes, ht, hops⟩ := served_of_buildPaths h
  have hholder {key : String × HttpVerb} {q : Route × Operation} (hq : holder? done key = some q) :
      IsFirst services q.1 ∧ q.1.key = key ∧
        operation (scope.within q.1.ns) q.1.method q.1.path = .ok q.2 := by
    obtain ⟨hfirst, hkey⟩ := isFirst_of_holder? hroutes hq
    exact ⟨hfirst, hkey, hops q (List.mem_of_find?_eq_some hq)⟩
  refine ⟨fun i s j k hs hk => ?_, fun key o ho => ?_, ?_, ?_⟩
  · have hr : routeAt s i k j ∈ routes services := mem_routes.mpr ⟨s, i, k, j, hs, hk, rfl⟩
    have hserved := hr
    rw [← hroutes] at hserved
    obtain ⟨p, hp, hpr⟩ := List.mem_map.mp hserved
    -- The route itself has its key, so that some route holds it.
    obtain ⟨q, hq⟩ := Option.isSome_iff_exists.mp (holder?_isSome_of_mem hp)
    rw [hpr] at hq
    obtain ⟨hfirst, hkey, ho⟩ := hholder hq
    have hslot : t.slot (routeAt s i k j).key = some q.2 := by rw [ht.slots, hq, Option.map_some]
    have hwarnings := warningsAt_of_served hroutes ht hr
    rw [told?, hq, Option.bind_some] at hwarnings
    refine ⟨q.1, q.2, hfirst, hkey, ho, hslot, ?_⟩
    by_cases heq : q.1 = routeAt s i k j
    · rw [if_pos heq] at hwarnings
      exact .inl ⟨heq, hwarnings⟩
    · rw [if_neg heq] at hwarnings
      refine .inr ⟨?_, hwarnings⟩
      rcases before_or_before hfirst.listed hr heq with hbefore | hafter
      · exact hbefore
      · exact absurd hkey.symm (hfirst.earlier _ hr hafter)
  · rw [ht.slots] at ho
    obtain ⟨q, hq, rfl⟩ := Option.map_eq_some_iff.mp ho
    exact ⟨q.1, hholder hq⟩
  · rw [ht.conserved, ← routes_methods, List.length_map, ← hroutes, List.length_map]
  · rw [ht.keys, ← hroutes, List.map_map]
    rfl

def market : Model :=
  -- Services whose names differ in case only, a path of its own, and two verbs under one path.
  let add : Method := { name := "Add", input := "Cart", output := "Cart" }
  { ns := "shop"
    types := [{ name := "Cart", ns := "shop" }]
    services :=
      [{ name := "Cart", ns := "shop"
         methods :=
          [add, { add with name := "GetCart", path := some "/cart" },
           { add with name := "ListCarts", path := some "/cart" }] },
       { name := "CART", ns := "shop"
         methods := [{ add with name := "ADD" }, { add with path := some "/cart" }] }] }

/-- The first operation of each slot is kept, and the two others are told of. -/
theorem buildPaths_market :
    ∃ t, buildPaths (.flat market (.of market) .openapi) market.services = .ok t ∧
      t.operations.map (·.operationId) = ["Add", "GetCart", "Add"] ∧ t.warnings.length = 2 ∧
      t.items.map Prod.fst = ["/cart/add", "/cart"] ∧
      ∃ o, t.slot ("/cart/add", .post) = some o ∧
        t.warningsAt "$.services[1].methods[0]" =
          [taken (routeAt market.services[1] 1 market.services[1].methods[0] 0) o] := by
  obtain ⟨t, ht, hstored⟩ := exists_ok_of_toOption
    (x := buildPaths (.flat market (.of market) .openapi) market.services)
    (f := fun t => t.operations.map (·.operationId)) (b := ["Add", "GetCart", "Add"])
    (by decide +kernel)
  obtain ⟨hmethods, _, hcount, hkeys⟩ := buildPaths_conserves _ market.services t ht
  obtain ⟨first, o, hfirst, hkey, _, hslot, hserved⟩ :=
    hmethods 1 market.services[1] 0 market.services[1].methods[0] rfl rfl
  have hpath : (routeAt market.services[1] 1 market.services[1].methods[0] 0).key =
      ("/cart/add", .post) := by decide +kernel
  refine ⟨t, ht, hstored, ?_, hkeys.trans (by decide +kernel), o, hpath ▸ hslot, ?_⟩
  · have hthree : t.operations.length = 3 := by rw [← List.length_map, hstored]; rfl
    have hfive : (market.services.flatMap (·.methods)).length = 5 := by decide +kernel
    omega
  · rcases hserved with ⟨rfl, _⟩ | ⟨_, hwarning⟩
    · -- Under the same path and verb, a method of the first service comes before.
      have hlisted : routeAt market.services[0] 0 market.services[0].methods[0] 0 ∈
          routes market.services := mem_routes.mpr ⟨_, 0, _, 0, rfl, rfl, rfl⟩
      exact absurd (by decide +kernel) (hfirst.earlier _ hlisted (.inl Nat.zero_lt_one))
    · exact hwarning

end Triglot.OpenApi
