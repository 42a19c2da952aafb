import Mathlib.Data.List.Nodup
import Triglot.Proofs.Symbol.Table

/-! Registration, one declaration after another. A table keeps the first symbol of each kind and
qualified name under that name, and sets every later one aside with a finding. -/
namespace Triglot.SymbolTable

variable {t : SymbolTable} {d : Declaration} {s : Symbol} {kind : SymbolKind} {q : String}

-- Whether a declaration is one for a place of the table: its kind and its qualified name.
def isFor (kind : SymbolKind) (q : String) (d : Declaration) : Bool :=
  d.kind == kind && qualify d.ns d.name == q

theorem isFor_iff : isFor kind q d = true ↔ d.kind = kind ∧ qualify d.ns d.name = q := by
  rw [isFor, Bool.and_eq_true, beq_iff_eq, beq_iff_eq]

theorem lookupKind_shadow (t : SymbolTable) (ss : List Symbol) (kind : SymbolKind) (q : String) :
    ({ t with shadowed := ss } : SymbolTable).lookupKind kind q = t.lookupKind kind q := by
  rw [lookupKind, keyed_shadow, lookupKind]

/-- A symbol under a new key is found there, and every other key leads where it did. -/
theorem lookupKind_put {key : String} (h : t.lookupKind kind key = none) (s : Symbol)
    (k : SymbolKind) (q : String) :
    (t.put kind key s).lookupKind k q =
      (t.lookupKind k q).or (if kind = k ∧ key = q then some s else none) := by
  rw [lookupKind, keyed_put h, List.lookup_append, lookupKind]
  by_cases hk : kind = k
  · by_cases hq : key = q
    · rw [if_pos hk, if_pos ⟨hk, hq⟩, hq, List.lookup_cons_self]
    · have hne : (q == key) = false := beq_eq_false_iff_ne.mpr (Ne.symm hq)
      rw [if_pos hk, if_neg fun h => hq h.2, List.lookup_cons, hne]
      rfl
  · rw [if_neg hk, if_neg fun h => hk h.1]
    rfl

theorem length_declarations (t : SymbolTable) :
    t.declarations.length = t.size + t.shadowed.length := by
  simp only [declarations, entries, size, ofKind, keyed, List.length_append, List.length_map]
  omega

structure Registered (ds : List Declaration) (t : SymbolTable) (fs : List Diagnostic) : Prop where
  stored : ∀ kind, ∀ p ∈ t.keyed kind, p.2.kind = kind ∧ p.1 = p.2.qualified
  keys : ∀ kind, ((t.keyed kind).map Prod.fst).Nodup
  first : ∀ kind q, t.lookupKind kind q = (ds.find? (isFor kind q)).map Declaration.symbol
  perm : t.declarations.Perm (ds.map Declaration.symbol)
  findings : List.Forall₂ (fun s f => ∃ first,
    t.lookupKind s.kind s.qualified = some first ∧ f = duplicate s first) t.shadowed fs

theorem registered_start : Registered [] {} [] where
  stored kind p hp := by cases kind <;> cases hp
  keys kind := by cases kind <;> exact List.nodup_nil
  first kind q := by cases kind <;> rfl
  perm := .nil
  findings := .nil

section Step

variable {ds : List Declaration} {fs : List Diagnostic}

theorem Registered.shadow (h : Registered ds t fs) {first : Symbol}
    (hfirst : t.lookupKind d.kind d.symbol.qualified = some first) :
    Registered (ds ++ [d]) { t with shadowed := t.shadowed ++ [d.symbol] }
      (fs ++ [duplicate d.symbol first]) where
  stored kind := by
    rw [keyed_shadow]
    exact h.stored kind
  keys kind := by
    rw [keyed_shadow]
    exact h.keys kind
  first kind q := by
    rw [lookupKind_shadow, List.find?_append, Option.map_or, ← h.first]
    -- The new declaration is one for a place only where an earlier one stands.
    cases hl : t.lookupKind kind q with
    | some a => rfl
    | none =>
      have hnot : isFor kind q d = false := by
        apply Bool.eq_false_iff.mpr
        intro hd
        obtain ⟨rfl, rfl⟩ := isFor_iff.mp hd
        exact absurd (hl.symm.trans hfirst) (Option.some_ne_none first).symm
      simp [hnot]
  perm := by
    have hp := h.perm.append_right [d.symbol]
    rw [declarations, entries_shadow]
    simpa [declarations] using hp
  findings := by
    simp only [lookupKind_shadow]
    exact List.rel_append h.findings (.cons ⟨first, hfirst, rfl⟩ .nil)

theorem Registered.put (h : Registered ds t fs)
    (hnone : t.lookupKind d.kind d.symbol.qualified = none) :
    Registered (ds ++ [d]) (t.put d.kind d.symbol.qualified d.symbol) fs where
  stored kind p hp := by
    rw [keyed_put hnone] at hp
    rcases List.mem_append.mp hp with hp | hp
    · exact h.stored kind p hp
    · split at hp
      · rename_i hk
        rw [List.mem_singleton.mp hp]
        exact ⟨hk, rfl⟩
      · cases hp
  keys kind := by
    rw [keyed_put hnone]
    split
    · rename_i hk
      subst hk
      rw [List.map_append, List.map_singleton, ← List.concat_eq_append]
      exact (h.keys d.kind).concat (lookup_eq_none_iff_key.mp hnone)
    · rw [List.append_nil]
      exact h.keys kind
  first kind q := by
    have hone : (if d.kind = kind ∧ d.symbol.qualified = q then some d.symbol else none) =
        ([d].find? (isFor kind q)).map Declaration.symbol := by
      by_cases hd : isFor kind q d = true
      · rw [List.find?_cons_of_pos hd]
        exact if_pos (isFor_iff.mp hd)
      · rw [List.find?_cons_of_neg hd]
        exact if_neg fun hfor => hd (isFor_iff.mpr hfor)
    rw [lookupKind_put hnone, List.find?_append, Option.map_or, h.first, hone]
  perm := by
    have hstep := register_declarations_perm t d
    rcases register_cases t d with ⟨first, hfirst, _⟩ | ⟨_, he⟩
    · exact absurd (hnone.symm.trans hfirst) (Option.some_ne_none first).symm
    · rw [he] at hstep
      rw [List.map_append, List.map_singleton]
      exact hstep.trans (h.perm.append_right [d.symbol])
  findings := by
    rw [put_shadowed]
    refine h.findings.imp fun s f ⟨first, hfirst, hf⟩ => ⟨first, ?_, hf⟩
    rw [lookupKind_put hnone, hfirst, Option.some_or]

/-- One more declaration keeps the record of what was registered. -/
theorem Registered.register (h : Registered ds t fs) (d : Declaration) :
    Registered (ds ++ [d]) (t.register d).1 (fs ++ (t.register d).2.toList) := by
  rcases register_cases t d with ⟨first, hfirst, he⟩ | ⟨hnone, he⟩
  · rw [he]
    exact h.shadow hfirst
  · rw [he]
    simpa using h.put hnone

end Step

/-- What each registration keeps, a run of them keeps. -/
theorem Registered.run {before : List Declaration} {acc : SymbolTable × List Diagnostic}
    (h : Registered before acc.1 acc.2) (ds : List Declaration) :
    Registered (before ++ ds) (ds.foldl registerStep acc).1 (ds.foldl registerStep acc).2 := by
  induction ds generalizing before acc with
  | nil => simpa using h
  | cons d ds ih =>
    have hd : Registered (before ++ [d]) (registerStep acc d).1 (registerStep acc d).2 :=
      h.register d
    simpa using ih hd

/-- A table holds the record of all declarations that were registered. -/
theorem registered_registerAll (ds : List Declaration) :
    Registered ds (registerAll {} ds).1 (registerAll {} ds).2 := by
  have hstart : Registered [] (({}, []) : SymbolTable × List Diagnostic).1 [] := registered_start
  rw [registerAll_eq_foldl]
  exact hstart.run ds

structure Coherent (t : SymbolTable) : Prop where
  key : ∀ kind, ∀ p ∈ t.keyed kind, p.1 = p.2.qualified
  qualified : ∀ s ∈ t.entries, s.qualified = qualify s.ns s.name

section Table

variable {ds : List Declaration} {fs : List Diagnostic}

theorem Registered.coherent (h : Registered ds t fs) : t.Coherent where
  key kind p hp := (h.stored kind p hp).2
  qualified s hs := by
    obtain ⟨d, _, rfl⟩ := List.mem_map.mp (h.perm.subset (List.mem_append_left _ hs))
    rfl

theorem of_coherent (m : Model) : (of m).Coherent :=
  (registered_registerAll (declarationsOf m)).coherent

theorem Coherent.qualified_of_lookupKind (h : t.Coherent) (hl : t.lookupKind kind q = some s) :
    s.qualified = q :=
  (h.key kind (q, s) (mem_of_lookup hl)).symm

theorem Registered.kinds (h : Registered ds t fs) : ∀ kind, ∀ s ∈ t.ofKind kind, s.kind = kind := by
  intro kind s hs
  obtain ⟨p, hp, rfl⟩ := List.mem_map.mp hs
  exact (h.stored kind p hp).1

/-- No two symbols of one kind have one qualified name. -/
theorem Registered.qualified_nodup (h : Registered ds t fs) (kind : SymbolKind) :
    ((t.ofKind kind).map Symbol.qualified).Nodup := by
  have hkeys : (t.ofKind kind).map Symbol.qualified = (t.keyed kind).map Prod.fst := by
    rw [ofKind, List.map_map]
    exact List.map_congr_left fun p hp => (h.stored kind p hp).2.symm
  rw [hkeys]
  exact h.keys kind

/-- A qualified name leads to the one symbol of a kind that has it. -/
theorem Registered.lookupKind_iff (h : Registered ds t fs) :
    t.lookupKind kind q = some s ↔ s ∈ t.ofKind kind ∧ s.qualified = q := by
  constructor
  · intro hl
    exact ⟨List.mem_map_of_mem (mem_of_lookup hl), h.coherent.qualified_of_lookupKind hl⟩
  · rintro ⟨hs, rfl⟩
    obtain ⟨p, hp, rfl⟩ := List.mem_map.mp hs
    rw [← (h.stored kind p hp).2]
    exact (lookup_eq_some_iff_mem (h.keys kind)).mpr hp

/-- A finding is told for a declaration exactly if there was one for its place before. -/
theorem Registered.finding_iff (h : Registered ds t fs) (d : Declaration) :
    (t.register d).2.isSome = true ↔
      ∃ a ∈ ds, a.kind = d.kind ∧ qualify a.ns a.name = qualify d.ns d.name := by
  have hfind : (t.register d).2.isSome =
      (ds.find? (isFor d.kind (qualify d.ns d.name))).isSome := by
    rw [← Option.isSome_map (f := Declaration.symbol), ← h.first]
    rcases register_cases t d with ⟨first, hfirst, he⟩ | ⟨hnone, he⟩
    · rw [he]
      exact (congrArg Option.isSome hfirst).symm
    · rw [he]
      exact (congrArg Option.isSome hnone).symm
  rw [hfind, List.find?_isSome]
  simp only [isFor_iff]

end Table

theorem register_shadowed_iff (t : SymbolTable) (d : Declaration) :
    (t.register d).2.isSome = true ↔ (t.register d).1.shadowed = t.shadowed ++ [d.symbol] := by
  rcases register_cases t d with ⟨first, _, he⟩ | ⟨_, he⟩
  · simp [he]
  · simp [he, put_shadowed]

/-- A registration with a finding leaves the maps as they are. -/
theorem register_keyed_of_finding (h : (t.register d).2.isSome = true) (kind : SymbolKind) :
    (t.register d).1.keyed kind = t.keyed kind := by
  rcases register_cases t d with ⟨first, _, he⟩ | ⟨_, he⟩
  · rw [he]
    exact keyed_shadow t _ kind
  · rw [he] at h
    cases h

/-- A registration without a finding puts its symbol under its qualified name, behind those of its
kind. -/
theorem register_keyed_of_none (h : (t.register d).2 = none) (kind : SymbolKind) :
    (t.register d).1.keyed kind =
      t.keyed kind ++ if d.kind = kind then [(qualify d.ns d.name, d.symbol)] else [] := by
  rcases register_cases t d with ⟨first, _, he⟩ | ⟨hnone, he⟩
  · rw [he] at h
    cases h
  · rw [he]
    exact keyed_put hnone d.symbol kind

/-- A table stands for the declarations that were registered, in order. By `stored` and `keys` the
symbols of each kind are a map from qualified names, and by `first` it has the first one of each.
`finding` and `put` say what one more registration does; none is lost, by `counted` and `kept`. -/
structure Represents (t : SymbolTable) (ds : List Declaration) : Prop where
  stored : ∀ kind q s, (q, s) ∈ t.keyed kind →
    s.kind = kind ∧ q = s.qualified ∧ s.qualified = qualify s.ns s.name
  keys : ∀ kind, ((t.keyed kind).map Prod.fst).Nodup
  found : ∀ kind q s, t.lookupKind kind q = some s ↔ (q, s) ∈ t.keyed kind
  first : ∀ kind q, t.lookupKind kind q =
    (ds.find? fun d => d.kind == kind && qualify d.ns d.name == q).map Declaration.symbol
  finding : ∀ d, ((t.register d).2.isSome = true ↔
      ∃ a ∈ ds, a.kind = d.kind ∧ qualify a.ns a.name = qualify d.ns d.name) ∧
    ((t.register d).2.isSome = true ↔ (t.register d).1.shadowed = t.shadowed ++ [d.symbol]) ∧
    ((t.register d).2.isSome = true → ∀ kind, (t.register d).1.keyed kind = t.keyed kind)
  put : ∀ d, (t.register d).2 = none → ∀ kind, (t.register d).1.keyed kind =
    t.keyed kind ++ if d.kind = kind then [(qualify d.ns d.name, d.symbol)] else []
  counted : t.size + t.shadowed.length = ds.length
  kept : t.declarations.Perm (ds.map Declaration.symbol)

/-- All clauses follow from the record. -/
theorem Registered.represents {ds : List Declaration} {fs : List Diagnostic}
    (h : Registered ds t fs) : t.Represents ds where
  stored kind q s hs := by
    obtain ⟨hkind, hq⟩ := h.stored kind (q, s) hs
    have hmem : s ∈ t.ofKind kind := List.mem_map_of_mem hs
    exact ⟨hkind, hq, h.coherent.qualified s (t.ofKind_subset_entries kind hmem)⟩
  keys := h.keys
  found kind _ _ := lookup_eq_some_iff_mem (h.keys kind)
  first := h.first
  finding d := ⟨h.finding_iff d, register_shadowed_iff t d, register_keyed_of_finding⟩
  put _ := register_keyed_of_none
  counted := by rw [← length_declarations, h.perm.length_eq, List.length_map]
  kept := h.perm

theorem length_declarationsOf (m : Model) :
    (declarationsOf m).length = m.enums.length + m.types.length + m.unions.length := by
  simp [declarationsOf, Nat.add_assoc]

/-- After any run of registrations the table stands for all of them, and each one that was set aside
has its finding. So it is for the table of a model. -/
theorem registerAll_represents :
    (∀ ds, (registerAll {} ds).1.Represents ds ∧
      List.Forall₂ (fun s f => ∃ first, (registerAll {} ds).1.lookupKind s.kind s.qualified =
        some first ∧ f = duplicate s first) (registerAll {} ds).1.shadowed (registerAll {} ds).2) ∧
    ∀ m, (of m).Represents (declarationsOf m) ∧ (of m).size + (of m).shadowed.length =
      m.enums.length + m.types.length + m.unions.length := by
  refine ⟨fun ds => ?_, fun m => ?_⟩
  · have h := registered_registerAll ds
    exact ⟨h.represents, h.findings⟩
  · have h : (of m).Represents (declarationsOf m) :=
      (registered_registerAll (declarationsOf m)).represents
    exact ⟨h, h.counted.trans (length_declarationsOf m)⟩

end Triglot.SymbolTable
