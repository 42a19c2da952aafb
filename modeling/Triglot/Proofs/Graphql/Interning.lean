import Triglot.Proofs.Entries
import Triglot.Proofs.Graphql.Names
import Triglot.Proofs.Graphql.Sharing

/-! What an arena holds after any operations in any order. Entries and the pairings that were interned
belong together one to one, a pairing keeps the name it was first given, every signature leads to its
wrapper, and each value that only the placeholder stands for is told about once. -/
namespace Triglot

/-- A finding about a value tells its shape and the namespace. -/
theorem unknownValue_injective :
    Function.Injective fun p : String × String => unknownValue p.1 p.2 := by
  intro p q h
  have hpath : p.2 = q.2 := congrArg Diagnostic.path h
  have hmessage : (unknownValue p.1 p.2).message = (unknownValue q.1 q.2).message :=
    congrArg Diagnostic.message h
  unfold unknownValue at hmessage
  dsimp only at hmessage
  rw [String.append_left_inj, String.append_right_inj] at hmessage
  exact Prod.ext hmessage hpath

namespace Graphql

namespace Arena

inductive Operation where
  | intern (entry : EntryType)
  | allocate (signature : String)
  | complete (index : Nat) (entry : String)
  | unknownValue (shape ns : String)
  | takeWarnings

def perform (a : Arena) : Operation → Arena
  | .intern e => (a.intern e).2
  | .allocate signature => (a.allocate signature).2
  | .complete index entry => a.complete index entry
  | .unknownValue shape ns => a.unknownValue shape ns
  | .takeWarnings => a.takeWarnings.2

def after (a : Arena) (ops : List Operation) : Arena := ops.foldl perform a

def made (usage : UsageMap) (ops : List Operation) : Arena := ({ usage } : Arena).after ops

def handsOut (a : Arena) : Operation → List Diagnostic
  | .takeWarnings => a.takeWarnings.1
  | _ => []

def told : Arena → List Operation → List Diagnostic
  -- All warnings of a run: those handed out on the way, and those still there at its end.
  | a, [] => a.warnings
  | a, op :: ops => a.handsOut op ++ (a.perform op).told ops

section Run

/-- What every operation respects, a run does. -/
theorem Steps.after {R : Arena → Arena → Prop} (h : Steps R) (htake : ∀ a, R a a.takeWarnings.2)
    (a : Arena) (ops : List Operation) : R a (a.after ops) := by
  induction ops generalizing a with
  | nil => exact h.refl a
  | cons op ops ih =>
    have hop : R a (a.perform op) := by
      cases op with
      | intern e => exact h.intern a e
      | allocate signature => exact h.allocate a signature
      | complete index entry => exact h.complete a index entry
      | unknownValue shape ns => exact h.unknownValue a shape ns
      | takeWarnings => exact htake a
    exact h.trans hop (ih _)

/-- If an operation leaves what there was and what it adds, then from an empty arena a run leaves just
what its operations add. -/
theorem mem_made {α : Type} (view : Arena → List α) {adds : Operation → α → Prop}
    (h : ∀ a op x, x ∈ view (a.perform op) ↔ x ∈ view a ∨ adds op x) {usage : UsageMap}
    (hempty : view { usage } = []) (ops : List Operation) (x : α) :
    x ∈ view (made usage ops) ↔ ∃ op ∈ ops, adds op x := by
  have hrun (a : Arena) : x ∈ view (a.after ops) ↔ x ∈ view a ∨ ∃ op ∈ ops, adds op x := by
    induction ops generalizing a with
    | nil => simp [Arena.after]
    | cons op ops ih =>
      have hrest : x ∈ view (a.after (op :: ops)) ↔
          x ∈ view (a.perform op) ∨ ∃ op ∈ ops, adds op x := ih (a.perform op)
      rw [hrest, h, or_assoc, List.exists_mem_cons_iff]
  rw [made, hrun, hempty]
  simp only [List.not_mem_nil, false_or]

end Run

section Pairings

/-- Pairings are added behind the others, and none is changed. -/
theorem pairings_prefix_steps : Steps fun a b => a.pairings <+: b.pairings where
  refl := fun a => List.prefix_refl a.pairings
  trans := fun hab hbc => hab.trans hbc
  intern := by
    intro a e
    rcases a.intern_cases e with ⟨name, _, hi⟩ | ⟨_, hi⟩
    · have hsame : (a.intern e).2.pairings = a.pairings := congrArg (fun r => r.2.pairings) hi
      exact hsame ▸ List.prefix_rfl
    · rw [hi]
      exact List.prefix_append _ _
  allocate := fun a _ => List.prefix_refl a.pairings
  complete := fun a _ _ => List.prefix_refl a.pairings
  unknownValue := by
    intro a shape ns
    unfold Arena.unknownValue
    split <;> exact List.prefix_rfl

theorem mem_pairings_perform (a : Arena) (op : Operation) (p : String × String) :
    p ∈ (a.perform op).pairings.map Prod.fst ↔
      p ∈ a.pairings.map Prod.fst ∨ ∃ e, op = .intern e ∧ e.pairing = p := by
  cases op with
  | intern e =>
    have hop : (∃ x, Operation.intern e = .intern x ∧ x.pairing = p) ↔ e.pairing = p := by simp
    rw [hop]
    change p ∈ (a.intern e).2.pairings.map Prod.fst ↔ _
    rcases a.intern_cases e with ⟨name, hname, hi⟩ | ⟨_, hi⟩ <;> rw [hi]
    · constructor
      · exact .inl
      · rintro (hp | rfl)
        · exact hp
        · -- The pairing is there already.
          exact List.mem_map_of_mem (mem_of_lookup hname)
    · rw [add, List.map_append, List.mem_append, List.map_singleton, List.mem_singleton, eq_comm]
      rfl
  | allocate signature => simp [perform, allocate]
  | complete index entry => simp [perform, complete]
  | unknownValue shape ns =>
    have hsame : (a.unknownValue shape ns).pairings = a.pairings := by
      unfold unknownValue
      split <;> rfl
    simp [perform, hsame]
  | takeWarnings => simp [perform, takeWarnings]

/-- Two interned entries get one name exactly if they have one pairing, whatever happens between. -/
theorem Coherent.intern_name_eq_iff {a : Arena} (h : a.Coherent) (e e' : EntryType)
    (between : List Operation) :
    (((a.intern e).2.after between).intern e').1 = (a.intern e).1 ↔ e'.pairing = e.pairing := by
  let b := (a.intern e).2.after between
  have hgrown : (a.intern e).2.pairings <+: b.pairings :=
    pairings_prefix_steps.after (fun c => List.prefix_refl c.pairings) _ between
  have hb : b.Coherent :=
    coherent_steps.after (fun _ h => h.of_eq rfl rfl) _ between (h.intern e)
  -- Both pairings are in the last arena, where no two of them lead to one name.
  have hlater : (b.intern e').2.pairings.lookup e.pairing = some (a.intern e).1 :=
    lookup_of_prefix (hgrown.trans (pairings_prefix_steps.intern b e'))
  have hlast : (b.intern e').2.pairings.lookup e'.pairing = some (b.intern e').1 :=
    b.lookup_intern e'
  constructor
  · intro hname
    exact (hb.intern e').pairing_unique hlast (hlater.trans (congrArg some hname.symm))
  · intro hpairing
    rw [hpairing, hlater] at hlast
    exact (Option.some.inj hlast).symm

end Pairings

section Wrappers

/-- Where signatures and wrappers belong together, a signature leads to the wrapper of its number. -/
theorem wrapperFor_eq_map {a : Arena} (hn : a.Numbered) (hi : a.Indexed) (signature : String) :
    a.wrapperFor signature = (a.signatures.lookup signature).map wrapperName := by
  rw [wrapperFor_eq]
  cases hl : a.signatures.lookup signature with
  | none => rfl
  | some i =>
    have hlt : i < a.wrappers.length := hi (signature, i) (mem_of_lookup hl)
    rw [Option.bind_some, Option.map_some, hn, List.getElem?_map, List.getElem?_range hlt,
      Option.map_some]

theorem Numbered.name_eq {a : Arena} (h : a.Numbered) {i : Nat} {w : Wrapper}
    (hw : a.wrappers[i]? = some w) : w.name = wrapperName i := by
  have hlt : i < a.wrappers.length := (List.getElem?_eq_some_iff.mp hw).1
  have hname : (a.wrappers.map Wrapper.name)[i]? = some w.name := by
    rw [List.getElem?_map, hw, Option.map_some]
  rw [h, List.getElem?_map, List.getElem?_range hlt, Option.map_some] at hname
  exact (Option.some.inj hname).symm

/-- The signatures that lead to a wrapper are those that are listed. -/
theorem Indexed.mem_signatures_iff {a : Arena} (ha : a.Indexed) {signature : String} :
    signature ∈ a.signatures.map Prod.fst ↔ ∃ name, a.wrapperFor signature = some name := by
  constructor
  · intro hmem
    cases hl : a.signatures.lookup signature with
    | none =>
      obtain ⟨p, hp, rfl⟩ := List.mem_map.mp hmem
      exact absurd rfl (bne_iff_ne.mp (List.lookup_eq_none_iff.mp hl p hp))
    | some i =>
      have hlt : i < a.wrappers.length := ha (signature, i) (mem_of_lookup hl)
      rw [wrapperFor, hl, Option.bind_some, List.getElem?_eq_getElem hlt]
      exact ⟨_, rfl⟩
  · rintro ⟨name, hn⟩
    obtain ⟨i, hl, _⟩ := Option.bind_eq_some_iff.mp hn
    exact List.mem_map.mpr ⟨_, mem_of_lookup hl, rfl⟩

theorem mem_signatures_perform (a : Arena) (op : Operation) (signature : String) :
    signature ∈ (a.perform op).signatures.map Prod.fst ↔
      signature ∈ a.signatures.map Prod.fst ∨ op = .allocate signature := by
  cases op with
  | intern e =>
    have hsame : (a.intern e).2.signatures = a.signatures := by
      rcases a.intern_cases e with ⟨name, _, hi⟩ | ⟨_, hi⟩ <;> rw [hi]
      rfl
    simp [perform, hsame]
  | allocate other =>
    simp only [perform, allocate, List.map_cons, List.mem_cons, Operation.allocate.injEq]
    rw [or_comm, eq_comm]
  | complete index entry => simp [perform, complete]
  | unknownValue shape ns =>
    have hsame : (a.unknownValue shape ns).signatures = a.signatures := by
      unfold unknownValue
      split <;> rfl
    simp [perform, hsame]
  | takeWarnings => simp [perform, takeWarnings]

end Wrappers

section Warnings

def firstReports (a : Arena) : Operation → List (String × String)
  | .unknownValue shape ns => if a.reported.contains (shape, ns) then [] else [(shape, ns)]
  | _ => []

theorem perform_reported (a : Arena) (op : Operation) :
    (a.perform op).reported = a.firstReports op ++ a.reported ∧
      a.handsOut op ++ (a.perform op).warnings =
        a.warnings ++ (a.firstReports op).map fun p => Triglot.unknownValue p.1 p.2 := by
  cases op with
  | intern e =>
    simp only [perform, firstReports, handsOut]
    rcases a.intern_cases e with ⟨name, _, hi⟩ | ⟨_, hi⟩ <;> rw [hi] <;> simp [add]
  | allocate signature => simp [perform, allocate, firstReports, handsOut]
  | complete index entry => simp [perform, complete, firstReports, handsOut]
  | unknownValue shape ns =>
    simp only [perform, unknownValue, firstReports, handsOut]
    split <;> simp
  | takeWarnings => simp [perform, takeWarnings, firstReports, handsOut]

/-- The warnings of a run are those for the shapes and namespaces that it reports, in the order in
which they are first seen. -/
theorem told_eq (a : Arena) (ops : List Operation) :
    ∃ new : List (String × String), (a.after ops).reported = new.reverse ++ a.reported ∧
      a.told ops = a.warnings ++ new.map fun p => Triglot.unknownValue p.1 p.2 := by
  induction ops generalizing a with
  | nil => exact ⟨[], rfl, (List.append_nil _).symm⟩
  | cons op ops ih =>
    obtain ⟨hreported, htold⟩ := a.perform_reported op
    obtain ⟨new, hnew, hrest⟩ := ih (a.perform op)
    have hone : (a.firstReports op).reverse = a.firstReports op := by
      unfold firstReports
      split
      · split <;> rfl
      · rfl
    refine ⟨a.firstReports op ++ new, ?_, ?_⟩
    · rw [List.reverse_append, hone, List.append_assoc, ← hreported]
      exact hnew
    · rw [told, hrest, ← List.append_assoc, htold, List.map_append, List.append_assoc]

theorem reported_steps : Steps fun a b => a.reported.Nodup → b.reported.Nodup where
  refl := fun _ h => h
  trans := fun hab hbc h => hbc (hab h)
  intern := by
    intro a e h
    rcases a.intern_cases e with ⟨name, _, hi⟩ | ⟨_, hi⟩ <;> rw [hi] <;> exact h
  allocate := fun _ _ h => h
  complete := fun _ _ _ h => h
  unknownValue := by
    intro a shape ns h
    unfold unknownValue
    split
    · exact h
    · rename_i hnew
      rw [List.contains_iff_mem] at hnew
      exact List.nodup_cons.mpr ⟨hnew, h⟩

theorem mem_reported_perform (a : Arena) (op : Operation) (p : String × String) :
    p ∈ (a.perform op).reported ↔ p ∈ a.reported ∨ op = .unknownValue p.1 p.2 := by
  rw [(a.perform_reported op).1, List.mem_append, or_comm]
  cases op with
  | unknownValue shape ns =>
    have hop : Operation.unknownValue shape ns = .unknownValue p.1 p.2 ↔ p = (shape, ns) := by
      rw [Operation.unknownValue.injEq, Prod.ext_iff, eq_comm, eq_comm (a := ns)]
    rw [hop]
    simp only [firstReports]
    split
    · rename_i hold
      rw [List.contains_iff_mem] at hold
      constructor
      · rintro (hp | hp)
        · exact .inl hp
        · cases hp
      · rintro (hp | rfl)
        · exact .inl hp
        · exact .inl hold
    · rw [List.mem_singleton]
  | intern e => simp [firstReports]
  | allocate signature => simp [firstReports]
  | complete index entry => simp [firstReports]
  | takeWarnings => simp [firstReports]

end Warnings

/-- An arena holds what operations put there. Its maps have one entry a key, and each entry is stored
under its own name. By `paired` and `interned` the look-up of pairings leads, from each pairing that was
interned and from no other, to the name of an entry of that pairing, and every entry is found that way.
Wrappers are numbered; by `indexed` and `located` each signature that was allocated, and no other, leads
to a wrapper that is there. -/
structure Holds (ops : List Operation) (a : Arena) : Prop where
  keys : (a.named.map Prod.fst).Nodup ∧ (a.pairings.map Prod.fst).Nodup
  stored : ∀ p ∈ a.named, p.1 = p.2.name
  paired : ∀ pairing name, a.pairings.lookup pairing = some name ↔
    ∃ e, a.named.lookup name = some e ∧ e.pairing = pairing
  interned : ∀ pairing, (∃ name, a.pairings.lookup pairing = some name) ↔
    ∃ e, .intern e ∈ ops ∧ e.pairing = pairing
  numbered : ∀ i w, a.wrappers[i]? = some w → w.name = wrapperName i
  indexed : ∀ p ∈ a.signatures, p.2 < a.wrappers.length
  located : ∀ signature, a.wrapperFor signature = (a.signatures.lookup signature).map wrapperName
  allocated : ∀ signature, (∃ name, a.wrapperFor signature = some name) ↔ .allocate signature ∈ ops

section Start

variable (usage : UsageMap) (ops : List Operation)

theorem made_coherent : (made usage ops).Coherent :=
  coherent_steps.after (fun _ h => h.of_eq rfl rfl) _ ops (coherent_start usage)

theorem made_numbered : (made usage ops).Numbered :=
  numbered_steps.after (fun _ h => h) _ ops rfl

theorem made_indexed : (made usage ops).Indexed :=
  indexed_steps.after (fun _ h => h) _ ops (indexed_start usage)

theorem made_holds : (made usage ops).Holds ops where
  keys := by
    have h := made_coherent usage ops
    exact ⟨h.keys ▸ h.names, h.pairings ▸ h.distinct⟩
  stored p hp := by
    rw [(made_coherent usage ops).named] at hp
    obtain ⟨e, _, rfl⟩ := List.mem_map.mp hp
    rfl
  paired pairing name := by
    have h := made_coherent usage ops
    simp only [h.lookup_iff, h.lookup_named_iff, and_assoc, and_comm (a := _ = pairing)]
  interned pairing := by
    have hfound : (∃ name, (made usage ops).pairings.lookup pairing = some name) ↔
        pairing ∈ (made usage ops).pairings.map Prod.fst := by
      rw [← Option.ne_none_iff_exists', ne_eq, lookup_eq_none_iff_key, not_not]
    rw [hfound, mem_made (fun a => a.pairings.map Prod.fst) mem_pairings_perform rfl]
    constructor
    · rintro ⟨op, hop, e, rfl, he⟩
      exact ⟨e, hop, he⟩
    · rintro ⟨e, hop, he⟩
      exact ⟨_, hop, e, rfl, he⟩
  numbered i w hw := (made_numbered usage ops).name_eq hw
  indexed := made_indexed usage ops
  located := wrapperFor_eq_map (made_numbered usage ops) (made_indexed usage ops)
  allocated signature := by
    rw [← (made_indexed usage ops).mem_signatures_iff,
      mem_made (fun a => a.signatures.map Prod.fst) mem_signatures_perform rfl]
    exact exists_eq_right

/-- A run tells about each shape and namespace that has no spelling, and once. -/
theorem told_exact : (({ usage } : Arena).told ops).Nodup ∧
    ∀ d, d ∈ ({ usage } : Arena).told ops ↔
      ∃ shape ns, .unknownValue shape ns ∈ ops ∧ d = Triglot.unknownValue shape ns := by
  obtain ⟨new, hnew, htold⟩ := ({ usage } : Arena).told_eq ops
  have hreported : (made usage ops).reported = new.reverse := hnew.trans (List.append_nil _)
  have hnodup : (made usage ops).reported.Nodup :=
    reported_steps.after (fun _ h => h) _ ops List.nodup_nil
  have hmem (p : String × String) : p ∈ new ↔ .unknownValue p.1 p.2 ∈ ops := by
    rw [← List.mem_reverse, ← hreported, mem_made Arena.reported mem_reported_perform rfl]
    exact exists_eq_right
  rw [hreported, List.nodup_reverse] at hnodup
  rw [htold]
  refine ⟨hnodup.map unknownValue_injective, fun d => ?_⟩
  rw [List.nil_append, List.mem_map]
  constructor
  · rintro ⟨p, hp, rfl⟩
    exact ⟨p.1, p.2, (hmem p).mp hp, rfl⟩
  · rintro ⟨shape, ns, hop, rfl⟩
    exact ⟨(shape, ns), (hmem (shape, ns)).mpr hop, rfl⟩

end Start

/-- An arena after any operations. It holds what they put there. A further entry gets the name of an
earlier one exactly if the two have one pairing, whatever happens between them. The entry of a new
pairing gets its base name if that is free, or else the base with the least number from two that is.
And over the whole run, each shape and namespace without a spelling is told about once. -/
theorem operations_exact (usage : UsageMap) (ops : List Operation) :
    (made usage ops).Holds ops ∧
    (∀ e e' between,
      ((((made usage ops).intern e).2.after between).intern e').1 =
        ((made usage ops).intern e).1 ↔ e'.pairing = e.pairing) ∧
    (∀ e, (made usage ops).pairings.lookup e.pairing = none →
      (e.name ∉ (made usage ops).named.map Prod.fst →
        ((made usage ops).intern e).1 = e.name) ∧
      (e.name ∈ (made usage ops).named.map Prod.fst → ∃ k, 2 ≤ k ∧
        ((made usage ops).intern e).1 = e.name ++ toString k ∧
        e.name ++ toString k ∉ (made usage ops).named.map Prod.fst ∧
        ∀ j, 2 ≤ j → j < k → e.name ++ toString j ∈ (made usage ops).named.map Prod.fst)) ∧
    (({ usage } : Arena).told ops).Nodup ∧
    ∀ d, d ∈ ({ usage } : Arena).told ops ↔
      ∃ shape ns, .unknownValue shape ns ∈ ops ∧ d = Triglot.unknownValue shape ns := by
  refine ⟨made_holds usage ops, fun e e' between => ?_, fun e hnone => ?_, told_exact usage ops⟩
  · exact (made_coherent usage ops).intern_name_eq_iff e e' between
  · rcases (made usage ops).intern_cases e with ⟨name, hname, _⟩ | ⟨_, hi⟩
    · rw [hname] at hnone
      cases hnone
    · rw [hi]
      exact freeName_least _ e.name

def tagEntry (value : TypeRef) : EntryType :=
  -- The entry for a list of tags, and the one for a type that is named like such a list.
  { name := "StringTagListEntry", key := "String", value, valueInput := value
    described := "map<string, " ++ value.text ++ ">" }

def tagOperations : List Operation :=
  -- A list of tags, and one shape told about before and after the warnings are taken.
  [.intern (tagEntry (.list (.named "Tag"))), .unknownValue "Ghost" "shop", .takeWarnings,
    .allocate "map<string,bool>", .unknownValue "Ghost" "shop"]

theorem operations_exact_tags :
    (made ⟨[], [], []⟩ tagOperations).pairings.lookup ("String", "TagList") = none ∧
    ((made ⟨[], [], []⟩ tagOperations).intern (tagEntry (.named "TagList"))).1 =
      "StringTagListEntry2" ∧
    (∃ k, 2 ≤ k ∧ ((made ⟨[], [], []⟩ tagOperations).intern (tagEntry (.named "TagList"))).1 =
      "StringTagListEntry" ++ toString k) ∧
    ({ usage := ⟨[], [], []⟩ } : Arena).told tagOperations = [Triglot.unknownValue "Ghost" "shop"] ∧
    (({ usage := ⟨[], [], []⟩ } : Arena).told tagOperations).Nodup := by
  have hnone : (made ⟨[], [], []⟩ tagOperations).pairings.lookup ("String", "TagList") = none := by
    decide +kernel
  have hmem : "StringTagListEntry" ∈ (made ⟨[], [], []⟩ tagOperations).named.map Prod.fst := by
    decide +kernel
  obtain ⟨_, _, hfree, hnodup, _⟩ := operations_exact ⟨[], [], []⟩ tagOperations
  obtain ⟨k, hk, hname, _⟩ := (hfree (tagEntry (.named "TagList")) hnone).2 hmem
  exact ⟨hnone, by decide +kernel, ⟨k, hk, hname⟩, by decide +kernel, hnodup⟩

end Arena

end Graphql

end Triglot
