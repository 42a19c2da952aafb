import Mathlib.Data.List.Duplicate
import Mathlib.Data.List.FinRange
import Mathlib.Data.List.Induction
import Triglot.Proofs.Symbol.Sorted
import Triglot.Proofs.Symbol.Table

/-! Conflicts of names. A list of conflicts tells each name that several declarations have, by itself
or together with a namespace, once and in order, so it is empty exactly if the names are distinct. -/
namespace Triglot

section Shared

variable {α κ γ : Type} [BEq κ] (key : α → κ) (xs : List α)

def sharedKeys (tell : κ → γ) (keys : List κ) : List γ :=
  keys.filterMap fun k => if 1 < (xs.filter fun x => key x == k).length then some (tell k) else none

theorem length_filter_key (k : κ) :
    (xs.filter fun x => key x == k).length = (xs.map key).count k := by
  rw [List.count, List.countP_map, List.countP_eq_length_filter]
  rfl

theorem mem_sharedKeys {tell : κ → γ} {keys : List κ} {c : γ}
    (h : c ∈ sharedKeys key xs tell keys) : ∃ k ∈ keys, 1 < (xs.map key).count k ∧ tell k = c := by
  obtain ⟨k, hk, ht⟩ := List.mem_filterMap.mp h
  split at ht
  · rename_i hl
    rw [length_filter_key] at hl
    exact ⟨k, hk, hl, Option.some.inj ht⟩
  · cases ht

theorem one_lt_length_filter_iff [LawfulBEq κ] (k : κ) :
    1 < (xs.filter fun x => key x == k).length ↔ List.Duplicate k (xs.map key) := by
  rw [length_filter_key, List.duplicate_iff_sublist]
  exact List.replicate_sublist_iff.symm

theorem mem_sharedKeys_iff [LawfulBEq κ] {tell : κ → γ} {keys : List κ}
    (hk : ∀ k, k ∈ keys ↔ k ∈ xs.map key) {c : γ} :
    c ∈ sharedKeys key xs tell keys ↔ ∃ k, List.Duplicate k (xs.map key) ∧ tell k = c := by
  rw [sharedKeys, List.mem_filterMap]
  refine exists_congr fun k => ?_
  rw [Option.ite_none_right_eq_some, one_lt_length_filter_iff, Option.some_inj]
  exact ⟨fun h => h.2, fun h => ⟨(hk k).mpr h.1.mem, h⟩⟩

theorem sharedKeys_eq_nil_iff [LawfulBEq κ] (tell : κ → γ) {keys : List κ}
    (hk : ∀ k, k ∈ keys ↔ k ∈ xs.map key) :
    sharedKeys key xs tell keys = [] ↔ (xs.map key).Nodup := by
  rw [List.eq_nil_iff_forall_not_mem, List.nodup_iff_forall_not_duplicate]
  constructor
  · intro h k hd
    exact h (tell k) ((mem_sharedKeys_iff key xs hk).mpr ⟨k, hd, rfl⟩)
  · intro h c hc
    obtain ⟨k, hd, _⟩ := (mem_sharedKeys_iff key xs hk).mp hc
    exact h k hd

/-- Shared keys are told in the order of the keys. -/
theorem sharedKeys_pairwise {tell : κ → γ} {keys : List κ} {before : κ → κ → Prop}
    {r : γ → γ → Prop} (hr : ∀ a b, before a b → r (tell a) (tell b)) (hs : keys.Pairwise before) :
    (sharedKeys key xs tell keys).Pairwise r := by
  refine hs.filterMap _ fun a b hab c hc d hd => ?_
  obtain ⟨_, hc⟩ := Option.ite_none_right_eq_some.mp hc
  obtain ⟨_, hd⟩ := Option.ite_none_right_eq_some.mp hd
  rw [← Option.some.inj hc, ← Option.some.inj hd]
  exact hr a b hab

end Shared

theorem duplicate_iff_of_perm {α : Type} [DecidableEq α] {as bs : List α} (h : as.Perm bs) (a : α) :
    List.Duplicate a as ↔ List.Duplicate a bs := by
  rw [List.duplicate_iff_two_le_count, List.duplicate_iff_two_le_count, h.count_eq]

/-- A list of values is without repetition exactly if no two places have one value. -/
theorem nodup_map_iff_injective {α β : Type} (f : α → β) (as : List α) :
    (as.map f).Nodup ↔ Function.Injective fun i : Fin as.length => f (as.get i) := by
  have hof : as.map f = List.ofFn fun i : Fin as.length => f (as.get i) := by
    rw [← Function.comp_def, ← List.map_ofFn, List.ofFn_get]
  rw [hof, List.nodup_ofFn]

namespace SymbolTable

/-- One pass that gathers namespaces by name tells what looking for each name would tell. -/
theorem flatConflicts_eq_sharedKeys (t : SymbolTable) (emitted : Symbol → String) :
    t.flatConflicts emitted =
      sharedKeys emitted t.declarations
        (fun name =>
          ⟨name, sortedTexts ((t.declarations.filter fun s => emitted s == name).map fun s => s.ns)⟩)
        (sortedTexts (t.declarations.map emitted)) := by
  have hfold (ss : List Symbol) :
      ss.foldl (fun found s => found ++ [s.ns]) [] = ss.map fun s => s.ns := by
    rw [List.foldl_append_eq_append, List.nil_append, ← List.flatMap_def, List.map_eq_flatMap]
  have hpass := ((gathered_start (fun a b => a < b) fun _ => []).alterEach strictlyOrders_texts emitted
    (fun s found => found ++ [s.ns]) t.declarations).values_eq
  simp only [hfold] at hpass
  rw [flatConflicts, hpass, List.filterMap_map, sharedKeys]
  simp only [Function.comp_def, List.length_map]
  rfl

theorem flatConflicts_eq_nil_iff (t : SymbolTable) (emitted : Symbol → String) :
    t.flatConflicts emitted = [] ↔ (t.declarations.map emitted).Nodup := by
  rw [flatConflicts_eq_sharedKeys]
  exact sharedKeys_eq_nil_iff _ _ _ fun k => mem_sortedSet _ k _

def placement (emitted : Symbol → String) (s : Symbol) : String × String := (emitted s, s.ns)

/-- One pass that counts pairs of a name and a namespace tells what looking for each would tell. -/
theorem namespaceConflicts_eq_sharedKeys (t : SymbolTable) (emitted : Symbol → String) :
    t.namespaceConflicts emitted =
      sharedKeys (placement emitted) t.declarations (fun p => ⟨p.1, [p.2]⟩)
        (sortedSet pairBefore (t.declarations.map (placement emitted))) := by
  have hcount (ss : List Symbol) : ss.foldl (fun n _ => n + 1) 0 = ss.length := by
    induction ss using List.reverseRecOn with
    | nil => rfl
    | append_singleton ss s ih => simp [ih]
  have hpass := ((gathered_start pairBefore fun _ => 0).alterEach strictlyOrders_pairs
    (placement emitted) (fun _ n => n + 1) t.declarations).values_eq
  simp only [hcount] at hpass
  have hcounts : t.namespaceConflicts emitted = (alterEach pairBefore (placement emitted) (fun _ => 0)
      (fun _ n => n + 1) t.declarations []).filterMap
      fun p => if 1 < p.2 then some ⟨p.1.1, [p.1.2]⟩ else none := rfl
  rw [hcounts, hpass, List.filterMap_map, sharedKeys]
  rfl

theorem namespaceConflicts_eq_nil_iff (t : SymbolTable) (emitted : Symbol → String) :
    t.namespaceConflicts emitted = [] ↔ (t.declarations.map (placement emitted)).Nodup := by
  rw [namespaceConflicts_eq_sharedKeys]
  exact sharedKeys_eq_nil_iff _ _ _ fun k => mem_sortedSet _ k _

/-- Each conflict without namespaces is that of one name, in increasing order of names. -/
theorem flatConflicts_increasing (t : SymbolTable) (emitted : Symbol → String) :
    (t.flatConflicts emitted).Pairwise fun c d => c.name < d.name := by
  rw [flatConflicts_eq_sharedKeys]
  exact sharedKeys_pairwise _ _ (fun _ _ h => h) (sortedTexts_increasing _)

/-- A name has a conflict if several declarations have it, with the namespaces of these. -/
theorem mem_flatConflicts_iff {t : SymbolTable} {emitted : Symbol → String} {c : Conflict} :
    c ∈ t.flatConflicts emitted ↔ List.Duplicate c.name (t.declarations.map emitted) ∧
      c.namespaces.Pairwise (· < ·) ∧
      ∀ ns, ns ∈ c.namespaces ↔ (c.name, ns) ∈ t.declarations.map (placement emitted) := by
  have hmem (name ns : String) :
      (ns ∈ (t.declarations.filter fun s => emitted s == name).map fun s => s.ns) ↔
        (name, ns) ∈ t.declarations.map (placement emitted) := by
    simp [placement, and_assoc]
  rw [flatConflicts_eq_sharedKeys, mem_sharedKeys_iff _ _ fun k => mem_sortedTexts k _]
  constructor
  · rintro ⟨name, hd, rfl⟩
    refine ⟨hd, sortedTexts_increasing _, fun ns => ?_⟩
    rw [← hmem]
    exact mem_sortedTexts ns _
  · rintro ⟨hd, hs, hns⟩
    refine ⟨c.name, hd, ?_⟩
    have hsorted : sortedTexts _ = c.namespaces :=
      strictlyOrders_texts.sortedSet_eq (hs.imp decide_eq_true) fun ns =>
        (hns ns).trans (hmem c.name ns).symm
    rw [hsorted]

/-- The conflicts within namespaces are told by the pairs of a name and a namespace that several
declarations have, in increasing order. -/
theorem namespaceConflicts_eq_map (t : SymbolTable) (emitted : Symbol → String) :
    ∃ pairs : List (String × String),
      t.namespaceConflicts emitted = pairs.map (fun p => ⟨p.1, [p.2]⟩) ∧
      pairs.Pairwise (fun p r => p.1 < r.1 ∨ p.1 = r.1 ∧ p.2 < r.2) ∧
      ∀ p, p ∈ pairs ↔ List.Duplicate p (t.declarations.map (placement emitted)) := by
  refine ⟨sharedKeys (placement emitted) t.declarations id
    (sortedSet pairBefore (t.declarations.map (placement emitted))), ?_, ?_, fun p => ?_⟩
  · rw [namespaceConflicts_eq_sharedKeys, sharedKeys, sharedKeys, List.map_filterMap]
    refine List.filterMap_congr fun p _ => ?_
    split <;> rfl
  · refine sharedKeys_pairwise _ _ (fun p r h => ?_) (strictlyOrders_pairs.sortedSet _)
    exact pairBefore_iff.mp h
  · rw [mem_sharedKeys_iff _ _ fun k => mem_sortedSet _ k _]
    simp

section Congr

variable {t t' : SymbolTable} {emitted emitted' : Symbol → String}
  (h : (t.declarations.map (placement emitted)).Perm (t'.declarations.map (placement emitted')))
include h

/-- Conflicts depend only on the names and namespaces that are given out. -/
theorem flatConflicts_congr : t.flatConflicts emitted = t'.flatConflicts emitted' := by
  have hirrefl : Std.Irrefl fun c d : Conflict => c.name < d.name := ⟨fun c => lt_irrefl c.name⟩
  have hantisymm : Std.Antisymm fun c d : Conflict => c.name < d.name :=
    ⟨fun c d hcd hdc => absurd hdc (lt_asymm hcd)⟩
  have hnames : (t.declarations.map emitted).Perm (t'.declarations.map emitted') := by
    have hfst := h.map Prod.fst
    rwa [List.map_map, List.map_map] at hfst
  refine (flatConflicts_increasing t emitted).eq_of_mem_iff (flatConflicts_increasing t' emitted')
    fun c => ?_
  simp only [mem_flatConflicts_iff, duplicate_iff_of_perm hnames, h.mem_iff]

theorem namespaceConflicts_congr : t.namespaceConflicts emitted = t'.namespaceConflicts emitted' := by
  obtain ⟨pairs, he, hs, hm⟩ := namespaceConflicts_eq_map t emitted
  obtain ⟨pairs', he', hs', hm'⟩ := namespaceConflicts_eq_map t' emitted'
  have hincreasing {ps : List (String × String)}
      (hs : ps.Pairwise fun p r => p.1 < r.1 ∨ p.1 = r.1 ∧ p.2 < r.2) :
      Increasing pairBefore ps := hs.imp pairBefore_iff.mpr
  have hpairs : pairs = pairs' :=
    strictlyOrders_pairs.eq_of_mem_iff (hincreasing hs) (hincreasing hs') fun p => by
      rw [hm, hm', duplicate_iff_of_perm h]
  rw [he, he', hpairs]

end Congr

/-- Where all declarations are in one namespace, they conflict there as they do without
namespaces. -/
theorem namespaceConflicts_eq_flatConflicts {t : SymbolTable} {ns : String}
    (h : ∀ s ∈ t.declarations, s.ns = ns) (emitted : Symbol → String) :
    t.namespaceConflicts emitted = t.flatConflicts emitted := by
  have hplaces : t.declarations.map (placement emitted) =
      (t.declarations.map emitted).map fun name => (name, ns) := by
    rw [List.map_map]
    exact List.map_congr_left fun s hs => Prod.ext rfl (h s hs)
  rw [namespaceConflicts_eq_sharedKeys, flatConflicts_eq_sharedKeys, hplaces, sortedSet_pairs,
    sharedKeys, sharedKeys, List.filterMap_map]
  refine List.filterMap_congr fun name _ => ?_
  have hsharing : (t.declarations.filter fun s => placement emitted s == (name, ns)) =
      t.declarations.filter fun s => emitted s == name := by
    refine List.filter_congr fun s hs => ?_
    rw [placement, h s hs, Bool.eq_iff_iff, beq_iff_eq, beq_iff_eq, Prod.mk.injEq]
    exact and_iff_left rfl
  rw [Function.comp_apply, hsharing]
  split
  · rename_i hlong
    have hall : sortedTexts ((t.declarations.filter fun s => emitted s == name).map fun s => s.ns) =
        [ns] := by
      apply sortedTexts_of_forall_eq
      · intro hnil
        rw [List.map_eq_nil_iff.mp hnil] at hlong
        cases hlong
      · intro a ha
        obtain ⟨s, hs, rfl⟩ := List.mem_map.mp ha
        exact h s (List.mem_of_mem_filter hs)
    rw [hall]
  · rfl

/-- A conflict within a namespace tells a name that two of its declarations have. -/
theorem mem_namespaceConflicts {t : SymbolTable} {emitted : Symbol → String} {c : Conflict}
    (h : c ∈ t.namespaceConflicts emitted) :
    ∃ ns, c = ⟨c.name, [ns]⟩ ∧ 1 < (t.declarations.map (placement emitted)).count (c.name, ns) := by
  rw [namespaceConflicts_eq_sharedKeys] at h
  obtain ⟨p, _, hc, rfl⟩ := mem_sharedKeys _ _ h
  exact ⟨p.2, rfl, hc⟩

/-- After any run of registrations, the conflicts are exactly the names, and the pairs of a name and a
namespace, that two of the registered symbols have. A symbol that was set aside counts, and one that was
registered twice is in conflict with itself. -/
theorem conflicts_exact (ds : List Declaration) (emitted : Symbol → String) :
    ((registerAll {} ds).1.flatConflicts emitted).Pairwise (fun c d => c.name < d.name) ∧
    (∀ c, c ∈ (registerAll {} ds).1.flatConflicts emitted ↔
      List.Duplicate c.name (ds.map fun d => emitted d.symbol) ∧ c.namespaces.Pairwise (· < ·) ∧
      ∀ ns, ns ∈ c.namespaces ↔ ∃ d ∈ ds, emitted d.symbol = c.name ∧ d.ns = ns) ∧
    (∃ pairs : List (String × String),
      (registerAll {} ds).1.namespaceConflicts emitted = pairs.map (fun p => ⟨p.1, [p.2]⟩) ∧
      pairs.Pairwise (fun p r => p.1 < r.1 ∨ p.1 = r.1 ∧ p.2 < r.2) ∧
      ∀ p, p ∈ pairs ↔ List.Duplicate p (ds.map fun d => (emitted d.symbol, d.ns))) ∧
    ((registerAll {} ds).1.flatConflicts emitted = [] ↔
      Function.Injective fun i : Fin ds.length => emitted (ds.get i).symbol) := by
  have hp := registerAll_declarations_perm ds
  have hnames := hp.map emitted
  have hplaces := hp.map (placement emitted)
  rw [List.map_map] at hnames hplaces
  refine ⟨flatConflicts_increasing _ emitted, fun c => ?_, ?_, ?_⟩
  · have hmem (ns : String) :
        (c.name, ns) ∈ ds.map (placement emitted ∘ Declaration.symbol) ↔
          ∃ d ∈ ds, emitted d.symbol = c.name ∧ d.ns = ns := by
      simp [placement, Declaration.symbol]
    simp only [mem_flatConflicts_iff, duplicate_iff_of_perm hnames, hplaces.mem_iff, hmem]
    rfl
  · obtain ⟨pairs, he, hs, hm⟩ := namespaceConflicts_eq_map (registerAll {} ds).1 emitted
    refine ⟨pairs, he, hs, fun p => ?_⟩
    rw [hm, duplicate_iff_of_perm hplaces]
    rfl
  · rw [flatConflicts_eq_nil_iff, hnames.nodup_iff, nodup_map_iff_injective]
    rfl

end SymbolTable

/-- A model has no conflicts in a target without namespaces exactly if its names there are
distinct. -/
theorem flatConflicts_of_eq_nil_iff (m : Model) (names : NameTable) :
    names.flatConflicts (.of m) = [] ↔ (m.writtenNames names).Nodup := by
  have hp := (SymbolTable.of_declarations_perm m).map names.emitted
  rw [map_emitted_symbolsOf] at hp
  rw [NameTable.flatConflicts, SymbolTable.flatConflicts_eq_nil_iff]
  exact hp.nodup_iff

theorem writtenPlaces_perm (m : Model) (names : NameTable) :
    ((SymbolTable.of m).declarations.map (SymbolTable.placement names.emitted)).Perm
      (m.writtenPlaces names) := by
  have hs : (SymbolTable.symbolsOf m).map (SymbolTable.placement names.emitted) =
      m.writtenPlaces names := map_symbolsOf m fun _ => rfl
  rw [← hs]
  exact (SymbolTable.of_declarations_perm m).map _

/-- A model has no conflicts within namespaces exactly if its names are distinct there. -/
theorem namespaceConflicts_of_eq_nil_iff (m : Model) (names : NameTable) :
    names.namespaceConflicts (.of m) = [] ↔ (m.writtenPlaces names).Nodup := by
  rw [NameTable.namespaceConflicts, SymbolTable.namespaceConflicts_eq_nil_iff]
  exact (writtenPlaces_perm m names).nodup_iff

end Triglot
