import Mathlib.Data.List.Perm.Basic
import Triglot.Proofs.Entries
import Triglot.Symbol.Names

/-! The symbol table of a model holds all its declarations, the shadowed ones apart, and a reference
finds nothing else. -/
namespace Triglot

structure Model.Declares (m : Model) (s : Symbol) : Prop where
  qualified : s.qualified = qualify s.ns s.name
  declared : match s.kind with
    | .enum => ∃ e ∈ m.enums, e.ns = s.ns ∧ e.name = s.name
    | .type => ∃ t ∈ m.types, t.ns = s.ns ∧ t.name = s.name
    | .union => ∃ u ∈ m.unions, u.ns = s.ns ∧ u.name = s.name

theorem Model.Declares.exists_type {m : Model} {s : Symbol} (h : m.Declares s)
    (hkind : s.kind = .type) : ∃ t ∈ m.types, t.ns = s.ns ∧ t.name = s.name := by
  have hdeclared := h.declared
  rw [hkind] at hdeclared
  exact hdeclared

theorem Model.Declares.emitted_eq {m : Model} {s : Symbol} (h : m.Declares s) (names : NameTable) :
    names.emitted s = names.declaredName s.ns s.name := by
  rw [NameTable.emitted, NameTable.declaredName, h.qualified]

namespace SymbolTable

theorem ofKind_subset_entries (t : SymbolTable) (kind : SymbolKind) : t.ofKind kind ⊆ t.entries := by
  intro s hs
  cases kind <;> simp [entries, hs]

theorem mem_entries_of_lookupKind {t : SymbolTable} {kind : SymbolKind} {q : String} {s : Symbol}
    (h : t.lookupKind kind q = some s) : s ∈ t.entries :=
  t.ofKind_subset_entries kind (List.mem_map_of_mem (mem_of_lookup h))

theorem mem_entries_of_lookup {t : SymbolTable} {q : String} {s : Symbol}
    (h : t.lookup q = some s) : s ∈ t.entries := by
  rw [lookup, Option.or_eq_some_iff, Option.or_eq_some_iff] at h
  rcases h with (h | ⟨_, h⟩) | ⟨_, h⟩ <;> exact mem_entries_of_lookupKind h

/-- The ways in which a reference finds a symbol: by its qualified name, as one of the namespace it is
written in, or as the only one of its name. -/
theorem resolve_eq_ok {t : SymbolTable} {name ns : String} {s : Symbol}
    (h : t.resolve name ns = .ok s) :
    (isQualified name = true ∧ t.lookup name = some s) ∨
    (isQualified name = false ∧ t.lookup (qualify ns name) = some s) ∨
    (isQualified name = false ∧ t.lookup (qualify ns name) = none ∧
      t.entries.filter (·.name == name) = [s]) := by
  unfold resolve at h
  split at h
  · rename_i hq
    split at h
    · rename_i hl
      cases h
      exact .inl ⟨hq, hl⟩
    · cases h
  · rename_i hq
    have hq : isQualified name = false := Bool.eq_false_iff.mpr hq
    split at h
    · rename_i hl
      cases h
      exact .inr (.inl ⟨hq, hl⟩)
    · rename_i hl
      split at h
      · cases h
      · rename_i hf
        cases h
        exact .inr (.inr ⟨hq, hl, hf⟩)
      · cases h

/-- What a reference finds is in the table. -/
theorem mem_entries_of_resolve {t : SymbolTable} {name ns : String} {s : Symbol}
    (h : t.resolve name ns = .ok s) : s ∈ t.entries := by
  rcases resolve_eq_ok h with ⟨_, hl⟩ | ⟨_, hl⟩ | ⟨_, _, hf⟩
  · exact mem_entries_of_lookup hl
  · exact mem_entries_of_lookup hl
  · have hs : s ∈ t.entries.filter (·.name == name) := by
      rw [hf]
      exact List.mem_singleton_self s
    exact List.mem_of_mem_filter hs

/-- All that a registration can do. -/
theorem register_cases (t : SymbolTable) (d : Declaration) :
    (∃ first, t.lookupKind d.kind d.symbol.qualified = some first ∧
      t.register d =
        ({ t with shadowed := t.shadowed ++ [d.symbol] }, some (duplicate d.symbol first))) ∨
    (t.lookupKind d.kind d.symbol.qualified = none ∧
      t.register d = (t.put d.kind d.symbol.qualified d.symbol, none)) := by
  have hkey : d.symbol.qualified = qualify d.ns d.name := rfl
  rw [hkey]
  cases h : t.lookupKind d.kind (qualify d.ns d.name) with
  | some first => exact .inl ⟨first, rfl, by simp only [register, h]⟩
  | none => exact .inr ⟨rfl, by simp only [register, h]⟩

/-- A symbol under a new key stands behind those of its kind. -/
theorem keyed_put {t : SymbolTable} {kind : SymbolKind} {key : String}
    (h : t.lookupKind kind key = none) (s : Symbol) (k : SymbolKind) :
    (t.put kind key s).keyed k = t.keyed k ++ if kind = k then [(key, s)] else [] := by
  have hput := putEntry_of_not_mem s (lookup_eq_none_iff_key.mp h)
  cases kind <;> cases k <;> simp_all [put, keyed]

theorem ofKind_put {t : SymbolTable} {kind : SymbolKind} {key : String}
    (h : t.lookupKind kind key = none) (s : Symbol) (k : SymbolKind) :
    (t.put kind key s).ofKind k = t.ofKind k ++ if kind = k then [s] else [] := by
  rw [ofKind, keyed_put h, List.map_append, ofKind]
  split <;> rfl

theorem put_shadowed (t : SymbolTable) (kind : SymbolKind) (key : String) (s : Symbol) :
    (t.put kind key s).shadowed = t.shadowed := by
  cases kind <;> rfl

theorem keyed_shadow (t : SymbolTable) (ss : List Symbol) (kind : SymbolKind) :
    ({ t with shadowed := ss } : SymbolTable).keyed kind = t.keyed kind := by
  cases kind <;> rfl

theorem entries_shadow (t : SymbolTable) (ss : List Symbol) :
    ({ t with shadowed := ss } : SymbolTable).entries = t.entries := by
  simp only [entries, ofKind, keyed_shadow]

/-- A registration adds its symbol to the declarations and loses none. -/
theorem register_declarations_perm (t : SymbolTable) (d : Declaration) :
    (t.register d).1.declarations.Perm (t.declarations ++ [d.symbol]) := by
  rcases register_cases t d with ⟨first, _, he⟩ | ⟨hnone, he⟩
  · rw [he, declarations, entries_shadow, declarations, List.append_assoc]
  · -- The symbol goes to the end of its own kind, in front of the kinds that follow.
    have hmid (as bs : List Symbol) : (as ++ [d.symbol] ++ bs).Perm (as ++ bs ++ [d.symbol]) := by
      rw [List.append_assoc, List.append_assoc]
      exact List.Perm.append_left as List.perm_append_comm
    rw [he, declarations, entries, put_shadowed]
    simp only [ofKind_put hnone, declarations, entries]
    cases d.kind with
    | enum =>
      simpa using hmid (t.ofKind .enum) (t.ofKind .type ++ (t.ofKind .union ++ t.shadowed))
    | type =>
      simpa using hmid (t.ofKind .enum ++ t.ofKind .type) (t.ofKind .union ++ t.shadowed)
    | union =>
      simpa using hmid (t.ofKind .enum ++ t.ofKind .type ++ t.ofKind .union) t.shadowed

theorem register_finding_isError {t : SymbolTable} {d : Declaration} {finding : Diagnostic}
    (h : finding ∈ (t.register d).2.toList) : finding.isError = true := by
  rcases register_cases t d with ⟨first, _, he⟩ | ⟨_, he⟩
  · rw [he] at h
    cases Option.mem_toList.mp h
    rfl
  · rw [he] at h
    cases h

def registerStep (acc : SymbolTable × List Diagnostic) (d : Declaration) :
    SymbolTable × List Diagnostic :=
  ((acc.1.register d).1, acc.2 ++ (acc.1.register d).2.toList)

theorem registerAll_eq_foldl (t : SymbolTable) (ds : List Declaration) :
    t.registerAll ds = ds.foldl registerStep (t, []) := rfl

theorem foldl_registerStep_perm (ds : List Declaration) (acc : SymbolTable × List Diagnostic) :
    (ds.foldl registerStep acc).1.declarations.Perm
      (acc.1.declarations ++ ds.map Declaration.symbol) := by
  induction ds generalizing acc with
  | nil => simp
  | cons d ds ih =>
    have hd := register_declarations_perm acc.1 d
    have ht := ih (registerStep acc d)
    refine ht.trans ?_
    simpa [registerStep] using hd.append_right (ds.map Declaration.symbol)

theorem foldl_registerStep_isError (ds : List Declaration) (acc : SymbolTable × List Diagnostic)
    (h : ∀ f ∈ acc.2, f.isError = true) : ∀ f ∈ (ds.foldl registerStep acc).2, f.isError = true := by
  induction ds generalizing acc with
  | nil => exact h
  | cons d ds ih =>
    apply ih
    intro f hf
    rcases List.mem_append.mp hf with hf | hf
    · exact h f hf
    · exact register_finding_isError hf

/-- Whatever is registered is kept, in the table or among the repeated ones. -/
theorem registerAll_declarations_perm (ds : List Declaration) :
    (registerAll {} ds).1.declarations.Perm (ds.map Declaration.symbol) :=
  foldl_registerStep_perm ds ({}, [])

def symbolsOf (m : Model) : List Symbol := (declarationsOf m).map Declaration.symbol

/-- The table of a model holds each of its declarations as often as the model does. -/
theorem of_declarations_perm (m : Model) : (of m).declarations.Perm (symbolsOf m) :=
  registerAll_declarations_perm (declarationsOf m)

/-- Every finding about a repeated declaration is an error. -/
theorem build_findings_isError (m : Model) : ∀ d ∈ (build m).2, d.isError = true := by
  rw [build, registerAll_eq_foldl]
  exact foldl_registerStep_isError _ _ (by simp)

theorem mem_symbolsOf_of_mem_entries {m : Model} {s : Symbol} (h : s ∈ (of m).entries) :
    s ∈ symbolsOf m :=
  (of_declarations_perm m).subset (List.mem_append_left _ h)

/-- Every symbol of a model comes from a declaration. -/
theorem declares_of_mem_symbolsOf {m : Model} {s : Symbol} (h : s ∈ symbolsOf m) :
    m.Declares s := by
  obtain ⟨d, hd, rfl⟩ := List.mem_map.mp h
  refine ⟨rfl, ?_⟩
  simp only [declarationsOf, List.mem_append, List.mem_mapIdx] at hd
  rcases hd with (⟨i, hi, rfl⟩ | ⟨i, hi, rfl⟩) | ⟨i, hi, rfl⟩ <;>
    exact ⟨_, List.getElem_mem hi, rfl, rfl⟩

/-- What a reference in a model finds is declared there, under its kind. -/
theorem declares_of_resolve {m : Model} {name ns : String} {s : Symbol}
    (h : (of m).resolve name ns = .ok s) : m.Declares s :=
  declares_of_mem_symbolsOf (mem_symbolsOf_of_mem_entries (mem_entries_of_resolve h))

end SymbolTable

def Model.perDeclaration {β : Type} (m : Model) (g : String → String → β) : List β :=
  (m.enums.map fun e => g e.ns e.name) ++ (m.types.map fun t => g t.ns t.name) ++
    (m.unions.map fun u => g u.ns u.name)

/-- What does not depend on the places of symbols can be read off the declarations. -/
theorem map_symbolsOf_kinds {β : Type} (m : Model) {f : Symbol → β}
    {g : SymbolKind → String → String → β}
    (hfg : ∀ d : Declaration, f d.symbol = g d.kind d.ns d.name) :
    (SymbolTable.symbolsOf m).map f = (m.enums.map fun e => g .enum e.ns e.name) ++
      (m.types.map fun t => g .type t.ns t.name) ++ (m.unions.map fun u => g .union u.ns u.name) := by
  have hmap {α : Type} (mk : Nat → α → Declaration) (h : α → β)
      (hh : ∀ i a, f (mk i a).symbol = h a) (as : List α) :
      (as.mapIdx mk).map (f ∘ Declaration.symbol) = as.map h := by
    apply List.ext_getElem
    · simp
    · intro i _ _
      simp [hh]
  rw [SymbolTable.symbolsOf, SymbolTable.declarationsOf, List.map_map, List.map_append,
    List.map_append,
    hmap _ (fun e : EnumType => g .enum e.ns e.name) (fun _ _ => hfg _),
    hmap _ (fun t : ObjectType => g .type t.ns t.name) (fun _ _ => hfg _),
    hmap _ (fun u : UnionType => g .union u.ns u.name) (fun _ _ => hfg _)]

theorem map_symbolsOf {β : Type} (m : Model) {f : Symbol → β} {g : String → String → β}
    (hfg : ∀ d : Declaration, f d.symbol = g d.ns d.name) :
    (SymbolTable.symbolsOf m).map f = m.perDeclaration g :=
  map_symbolsOf_kinds m (g := fun _ => g) hfg

def Model.writtenNames (m : Model) (names : NameTable) : List String :=
  m.perDeclaration names.declaredName

theorem map_emitted_symbolsOf (m : Model) (names : NameTable) :
    (SymbolTable.symbolsOf m).map names.emitted = m.writtenNames names :=
  map_symbolsOf m fun _ => rfl

def Model.writtenPlaces (m : Model) (names : NameTable) : List (String × String) :=
  m.perDeclaration fun ns name => (names.declaredName ns name, ns)

/-- A reference is written under the name of a declaration. -/
theorem emitted_mem_writtenNames {m : Model} {name ns : String} {s : Symbol} (names : NameTable)
    (h : (SymbolTable.of m).resolve name ns = .ok s) : names.emitted s ∈ m.writtenNames names := by
  have hs : s ∈ SymbolTable.symbolsOf m :=
    SymbolTable.mem_symbolsOf_of_mem_entries (SymbolTable.mem_entries_of_resolve h)
  have hm : names.emitted s ∈ (SymbolTable.symbolsOf m).map names.emitted := List.mem_map_of_mem hs
  rwa [map_emitted_symbolsOf] at hm

end Triglot
