import Triglot.Proofs.Entries
import Triglot.Proofs.Outcome
import Triglot.Proofs.Symbol.Conflict
import Triglot.Proofs.Symbol.Resolution

/-! The order of declarations. Where no declaration is repeated, neither what a name means nor which
names conflict depends on the order in which the declarations of a kind are listed. -/
namespace Triglot

def Symbol.unplaced (s : Symbol) : Symbol := { s with path := "" }

theorem Symbol.key_eq_of_unplaced {a b : Symbol} (h : a.unplaced = b.unplaced) : a.key = b.key :=
  (congrArg key h :)

theorem Symbol.name_eq_of_unplaced {a b : Symbol} (h : a.unplaced = b.unplaced) : a.name = b.name :=
  (congrArg (fun s : Symbol => s.name) h :)

namespace SymbolTable

variable {t t' : SymbolTable} {ds ds' : List Declaration} {fs fs' : List Diagnostic}

def Alike (t t' : SymbolTable) : Prop :=
  (t.entries.map Symbol.unplaced).Perm (t'.entries.map Symbol.unplaced)

namespace Alike

theorem symm (h : t.Alike t') : t'.Alike t := List.Perm.symm h

theorem exists_mem (h : t.Alike t') {s : Symbol} (hs : s ∈ t.entries) :
    ∃ a ∈ t'.entries, a.unplaced = s.unplaced :=
  List.mem_map.mp (h.subset (List.mem_map_of_mem hs))

theorem exists_of_exists (h : t.Alike t') {p : Symbol → Prop} :
    (∃ s ∈ t.entries, p s.unplaced) → ∃ s ∈ t'.entries, p s.unplaced := by
  rintro ⟨s, hs, hp⟩
  obtain ⟨a, ha, he⟩ := h.exists_mem hs
  exact ⟨a, ha, he ▸ hp⟩

theorem forall_mem (h : t.Alike t') {p : Symbol → Prop} (hp : ∀ s ∈ t.entries, p s.unplaced) :
    ∀ s ∈ t'.entries, p s.unplaced := by
  intro s hs
  obtain ⟨a, ha, he⟩ := h.symm.exists_mem hs
  exact he ▸ hp a ha

/-- What a name stands for is the same in tables that are alike, up to its place. -/
theorem standsFor (h : t.Alike t') {q : String} {s : Symbol} (hs : t.StandsFor q s) :
    ∃ a, t'.StandsFor q a ∧ a.unplaced = s.unplaced := by
  obtain ⟨a, ha, he⟩ := h.exists_mem hs.mem
  obtain ⟨hkind, hq⟩ := Prod.mk.inj (Symbol.key_eq_of_unplaced he)
  refine ⟨a, ⟨ha, hq.trans hs.qualified, ?_⟩, he⟩
  rw [hkind]
  exact h.forall_mem (p := fun e => e.qualified = q → s.kind.rank ≤ e.kind.rank) hs.first

/-- A name means the same in both tables, but for the place of what it means. -/
theorem meaning (h : t.Alike t') (hr : Registered ds t fs) (hr' : Registered ds' t' fs')
    {name ns : String} {r : Except ResolveError Symbol} (hm : t.Meaning name ns r) :
    ∃ r', t'.Meaning name ns r' ∧ r'.map Symbol.unplaced = r.map Symbol.unplaced := by
  have haway {q : String} (hq : ∀ e ∈ t.entries, e.qualified ≠ q) : ∀ e ∈ t'.entries, e.qualified ≠ q :=
    h.forall_mem (p := fun e => e.qualified ≠ q) hq
  cases hm with
  | qualified hp hs =>
    obtain ⟨a, ha, he⟩ := h.standsFor hs
    exact ⟨.ok a, .qualified hp ha, congrArg Except.ok he⟩
  | undeclared hp hnone => exact ⟨_, .undeclared hp (haway hnone), rfl⟩
  | here hbare hs =>
    obtain ⟨a, ha, he⟩ := h.standsFor hs
    exact ⟨.ok a, .here hbare ha, congrArg Except.ok he⟩
  | @only s hbare hq hs hn hone =>
    obtain ⟨a, ha, he⟩ := h.exists_mem hs
    have hname : a.name = name := (Symbol.name_eq_of_unplaced he).trans hn
    refine ⟨.ok a, .only hbare (haway hq) ha hname fun e hmem hname => ?_, congrArg Except.ok he⟩
    -- Another symbol of the name would have its like in the first table, where there is only `s`.
    have hunplaced : e.unplaced = s.unplaced :=
      h.forall_mem (p := fun e => e.name = name → e = s.unplaced)
        (fun e hmem hname => hone e hmem hname ▸ rfl) e hmem hname
    exact hr'.eq_of_key hmem ha (Symbol.key_eq_of_unplaced (hunplaced.trans he.symm))
  | unknown hbare hq hnone =>
    exact ⟨_, .unknown hbare (haway hq) (h.forall_mem (p := fun e => e.name ≠ name) hnone), rfl⟩
  | @ambiguous a b candidates hbare hq ha hb hn hne hs hc =>
    obtain ⟨a', ha', hea⟩ := h.exists_mem ha
    obtain ⟨b', hb', heb⟩ := h.exists_mem hb
    have hnames : a'.name = name ∧ b'.name = name :=
      ⟨(Symbol.name_eq_of_unplaced hea).trans hn.1, (Symbol.name_eq_of_unplaced heb).trans hn.2⟩
    -- The two stay apart, since in one table no two symbols differ by their places only.
    have hne' : a' ≠ b' := by
      rintro rfl
      exact hne (hr.eq_of_key ha hb (Symbol.key_eq_of_unplaced (hea.symm.trans heb)))
    refine ⟨_, .ambiguous hbare (haway hq) ha' hb' hnames hne' hs fun q => ?_, rfl⟩
    rw [hc]
    exact ⟨h.exists_of_exists (p := fun e => e.name = name ∧ e.qualified = q),
      h.symm.exists_of_exists (p := fun e => e.name = name ∧ e.qualified = q)⟩

/-- Tables that are alike resolve every name alike, up to places. -/
theorem resolve (h : t.Alike t') (hr : Registered ds t fs) (hr' : Registered ds' t' fs')
    (name ns : String) : (t.resolve name ns).map Symbol.unplaced =
      (t'.resolve name ns).map Symbol.unplaced := by
  obtain ⟨r, hm, he⟩ := h.meaning hr hr' (hr.meaning_resolve name ns)
  rw [hr'.resolve_eq_of_meaning hm, he]

end Alike

namespace Registered

theorem findings_eq_nil_iff_shadowed (h : Registered ds t fs) : fs = [] ↔ t.shadowed = [] := by
  rw [← List.length_eq_zero_iff, ← List.length_eq_zero_iff, h.findings.length_eq]

/-- There are no findings exactly if no kind and qualified name was registered twice. -/
theorem findings_eq_nil_iff (h : Registered ds t fs) :
    fs = [] ↔ ((ds.map Declaration.symbol).map Symbol.key).Nodup := by
  rw [h.findings_eq_nil_iff_shadowed, ← (h.perm.map Symbol.key).nodup_iff, declarations]
  constructor
  · intro hnone
    rw [hnone, List.append_nil]
    exact h.keys_nodup
  · intro hnodup
    rw [List.map_append, List.nodup_append] at hnodup
    refine List.eq_nil_iff_forall_not_mem.mpr fun s hs => ?_
    -- What was set aside has the key of a symbol that stands.
    obtain ⟨d, _, first, hfirst, _⟩ := exists_of_mem_forall₂ h.findings hs
    obtain ⟨hmem, hq⟩ := h.lookupKind_iff.mp hfirst
    have hkey : first.key = s.key := Prod.ext (h.kinds s.kind first hmem) hq
    exact hnodup.2.2 _ (List.mem_map_of_mem (t.ofKind_subset_entries s.kind hmem)) _
      (List.mem_map_of_mem hs) hkey

/-- If no declaration is told of as repeated, the table holds all of them. -/
theorem entries_perm (h : Registered ds t fs) (hnone : fs = []) :
    t.entries.Perm (ds.map Declaration.symbol) := by
  have hp := h.perm
  rwa [declarations, h.findings_eq_nil_iff_shadowed.mp hnone, List.append_nil] at hp

end Registered

end SymbolTable

structure Model.Reorders (m m' : Model) : Prop where
  enums : m.enums.Perm m'.enums
  types : m.types.Perm m'.types
  unions : m.unions.Perm m'.unions

variable {m m' : Model}

namespace Model.Reorders

theorem perDeclaration (h : m.Reorders m') {β : Type} (g : String → String → β) :
    (m.perDeclaration g).Perm (m'.perDeclaration g) :=
  ((h.enums.map _).append (h.types.map _)).append (h.unions.map _)

theorem unplaced (h : m.Reorders m') : ((SymbolTable.symbolsOf m).map Symbol.unplaced).Perm
    ((SymbolTable.symbolsOf m').map Symbol.unplaced) := by
  have hm (m : Model) := map_symbolsOf_kinds m (f := Symbol.unplaced)
    (g := fun kind ns name => (⟨ns, name, kind, ""⟩ : Declaration).symbol) fun _ => rfl
  rw [hm, hm]
  exact ((h.enums.map _).append (h.types.map _)).append (h.unions.map _)

theorem keys (h : m.Reorders m') : ((SymbolTable.symbolsOf m).map Symbol.key).Perm
    ((SymbolTable.symbolsOf m').map Symbol.key) := by
  have hk := h.unplaced.map Symbol.key
  rwa [List.map_map, List.map_map] at hk

end Model.Reorders

namespace NameTable

theorem sublist_keys_filterMap {α : Type} {f : α → Option (String × String)} {key : α → String}
    (hf : ∀ a p, f a = some p → p.1 = key a) (as : List α) :
    ((as.filterMap f).map Prod.fst).Sublist (as.map key) := by
  induction as with
  | nil => exact .slnil
  | cons a as ih =>
    cases hfa : f a with
    | none =>
      rw [List.filterMap_cons_none hfa]
      exact ih.cons _
    | some p =>
      rw [List.filterMap_cons_some hfa, List.map_cons, List.map_cons, hf a p hfa]
      exact ih.cons_cons _

/-- The other names of declarations with distinct qualified names can be listed in any order. -/
theorem lookup_overrides {α : Type} {as bs : List α} (h : as.Perm bs) (target : Target)
    {ns name : α → String} {annotations : α → Annotations}
    (hn : (as.map fun a => qualify (ns a) (name a)).Nodup) (q : String) :
    (as.filterMap fun a => override? target (ns a) (name a) (annotations a)).reverse.lookup q =
      (bs.filterMap fun b => override? target (ns b) (name b) (annotations b)).reverse.lookup q := by
  have hkey (a : α) (p : String × String)
      (hp : override? target (ns a) (name a) (annotations a) = some p) :
      p.1 = qualify (ns a) (name a) := by
    obtain ⟨_, _, rfl⟩ := Option.map_eq_some_iff.mp hp
    rfl
  have hp := h.filterMap fun a => override? target (ns a) (name a) (annotations a)
  refine lookup_eq_of_perm ((List.reverse_perm _).trans (hp.trans (List.reverse_perm _).symm)) ?_ q
  rw [List.map_reverse, List.nodup_reverse]
  exact hn.sublist (sublist_keys_filterMap hkey as)

/-- The names for a target do not depend on the order of declarations. -/
theorem emittedName_eq (h : m.Reorders m') (hn : ((SymbolTable.symbolsOf m).map Symbol.key).Nodup)
    (target : Target) : (build m target).emittedName = (build m' target).emittedName := by
  rw [map_symbolsOf_kinds m (f := Symbol.key) (g := fun kind ns name => (kind, qualify ns name))
    fun _ => rfl, List.nodup_append, List.nodup_append] at hn
  obtain ⟨⟨henums, htypes, _⟩, hunions, _⟩ := hn
  -- Each kind by itself has distinct qualified names.
  have hkind {α : Type} {kind : SymbolKind} {as : List α} {q : α → String}
      (hn : (as.map fun a => (kind, q a)).Nodup) : (as.map q).Nodup := by
    apply List.Nodup.of_map (Prod.mk kind)
    rwa [List.map_map]
  funext q name
  simp only [emittedName, build, List.reverse_append, List.lookup_append,
    lookup_overrides h.enums target (hkind henums), lookup_overrides h.types target (hkind htypes),
    lookup_overrides h.unions target (hkind hunions)]

/-- Reordered declarations are written under the same names in the same namespaces. -/
theorem placements_perm (h : m.Reorders m') (hn : ((SymbolTable.symbolsOf m).map Symbol.key).Nodup)
    (target : Target) :
    ((SymbolTable.of m).declarations.map (SymbolTable.placement (build m target).emitted)).Perm
      ((SymbolTable.of m').declarations.map (SymbolTable.placement (build m' target).emitted)) := by
  refine (writtenPlaces_perm m _).trans (List.Perm.trans ?_ (writtenPlaces_perm m' _).symm)
  have hnames : (build m target).declaredName = (build m' target).declaredName := by
    funext ns name
    rw [declaredName, declaredName, emittedName_eq h hn]
  rw [Model.writtenPlaces, Model.writtenPlaces, hnames]
  exact h.perDeclaration _

end NameTable

/-- A model in which no declaration is repeated can list those of each kind in any order. A name is then
found as the same kind, namespace and name or fails alike, and the conflicts of every target are the
same. -/
theorem declaration_order_irrelevant (h : m.Reorders m') (hnone : (SymbolTable.build m).2 = []) :
    (SymbolTable.build m').2 = [] ∧
    (∀ name ns, ((SymbolTable.of m).resolve name ns).map Symbol.unplaced =
      ((SymbolTable.of m').resolve name ns).map Symbol.unplaced) ∧
    ∀ target,
      (NameTable.build m target).flatConflicts (.of m) =
        (NameTable.build m' target).flatConflicts (.of m') ∧
      (NameTable.build m target).namespaceConflicts (.of m) =
        (NameTable.build m' target).namespaceConflicts (.of m') := by
  have hr := SymbolTable.registered_registerAll (SymbolTable.declarationsOf m)
  have hr' := SymbolTable.registered_registerAll (SymbolTable.declarationsOf m')
  have hn := hr.findings_eq_nil_iff.mp hnone
  have hnone' : (SymbolTable.build m').2 = [] :=
    hr'.findings_eq_nil_iff.mpr (h.keys.nodup_iff.mp hn)
  have halike : (SymbolTable.of m).Alike (.of m') :=
    ((hr.entries_perm hnone).map _).trans
      (h.unplaced.trans ((hr'.entries_perm hnone').map _).symm)
  refine ⟨hnone', fun name ns => halike.resolve hr hr' name ns, fun target => ?_⟩
  have hp := NameTable.placements_perm h hn target
  exact ⟨SymbolTable.flatConflicts_congr hp, SymbolTable.namespaceConflicts_congr hp⟩

def tickets : Model :=
  -- An enumeration and a union of one qualified name, and two types of which one is renamed.
  { enums := [{ name := "Status", ns := "users" }]
    types :=
      [{ name := "Status", ns := "orders" },
        { name := "User", ns := "users"
          annotations := { Annotations.none with graphql := { name := some "Status" } } }]
    unions := [{ name := "Status", ns := "users", options := ["User"] }] }

def ticketsTurned : Model := { tickets with types := tickets.types.reverse }

theorem declaration_order_tickets :
    tickets.Reorders ticketsTurned ∧ (SymbolTable.build tickets).2 = [] ∧
    ((SymbolTable.of tickets).resolve "Status" "billing").map Symbol.unplaced =
      ((SymbolTable.of ticketsTurned).resolve "Status" "billing").map Symbol.unplaced ∧
    (NameTable.build tickets .graphql).flatConflicts (.of tickets) =
      (NameTable.build ticketsTurned .graphql).flatConflicts (.of ticketsTurned) := by
  have h : tickets.Reorders ticketsTurned := ⟨.refl _, (List.reverse_perm _).symm, .refl _⟩
  have hnone : (SymbolTable.build tickets).2 = [] := by decide +kernel
  obtain ⟨_, hresolve, hconflicts⟩ := declaration_order_irrelevant h hnone
  exact ⟨h, hnone, hresolve "Status" "billing", (hconflicts .graphql).1⟩

end Triglot
