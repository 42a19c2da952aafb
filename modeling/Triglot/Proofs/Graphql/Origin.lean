import Triglot.Proofs.Graphql.Known
import Triglot.Proofs.Graphql.Success

/-! Where the entries of an arena come from: each was made for a map in a field of the model, and
spells the value of that map as it was spelled then. -/
namespace Triglot

def TypeExpr.nestedMaps : TypeExpr → List (String × TypeExpr)
  | .map key value _ => (key, value) :: value.nestedMaps
  | _ => []

def TypeExpr.maps (type : TypeExpr) : List (String × TypeExpr) :=
  match type.outerMap? with
  | none => []
  | some (key, value) => (key, value) :: value.nestedMaps

def Model.Includes (m : Model) (target : Target) (ns : String) (type : TypeExpr) : Prop :=
  ∃ t ∈ m.types, t.ns = ns ∧ ∃ f ∈ t.includedFields target, f.type = type

theorem Model.includes_of_mem {m : Model} {target : Target} {t : ObjectType} (ht : t ∈ m.types)
    {f : Field} (hf : f ∈ t.includedFields target) : m.Includes target t.ns f.type :=
  ⟨t, ht, rfl, f, hf, rfl⟩

namespace Graphql

def EntryType.MadeFor (scope : Scope) (b : Arena) (key : String) (value : TypeExpr)
    (e : EntryType) : Prop :=
  -- An entry was made for a map: under a free name, with the spelling that its value had on the way
  -- to an arena.
  ∃ a c : Arena, (valueSpelling scope value a).2.Extends b ∧
    e = { entryFor key value (valueSpelling scope value a).1 with
      name := c.freeName (entryFor key value (valueSpelling scope value a).1).name }

section

variable {scope : Scope} {key : String} {value : TypeExpr} {a b : Arena} {e : EntryType}

theorem EntryType.MadeFor.mono (h : e.MadeFor scope a key value) (hab : a.Extends b) :
    e.MadeFor scope b key value := by
  obtain ⟨before, c, hext, he⟩ := h
  exact ⟨before, c, Arena.extends_steps.trans hext hab, he⟩

def EntryType.OldOrMade (scope : Scope) (a b : Arena) (maps : List (String × TypeExpr))
    (e : EntryType) : Prop :=
  e ∈ a.entries ∨ ∃ p ∈ maps, e.MadeFor scope b p.1 p.2

theorem mem_synthesizeMap_entries_of_value
    (hv : e ∈ (valueSpelling scope value a).2.entries →
      e.OldOrMade scope a (valueSpelling scope value a).2 value.nestedMaps)
    (h : e ∈ (synthesizeMap scope key value a).2.entries) :
    e.OldOrMade scope a (synthesizeMap scope key value a).2 ((key, value) :: value.nestedMaps) := by
  have hext : (valueSpelling scope value a).2.Extends (synthesizeMap scope key value a).2 :=
    Arena.extends_steps.intern _ _
  -- Whatever the value leaves is kept, and a new entry stands at the end.
  have hnew : e ∈ (valueSpelling scope value a).2.entries ∨
      e.MadeFor scope (synthesizeMap scope key value a).2 key value := by
    unfold synthesizeMap at h hext ⊢
    dsimp only at h hext ⊢
    rcases (valueSpelling scope value a).2.intern_cases
      (entryFor key value (valueSpelling scope value a).1) with ⟨name, _, hi⟩ | ⟨_, hi⟩ <;>
      rw [hi] at h hext ⊢
    · exact .inl h
    · rw [Arena.add_entries] at h
      rcases List.mem_append.mp h with h | h
      · exact .inl h
      · exact .inr ⟨a, _, hext, List.mem_singleton.mp h⟩
  rcases hnew with he | he
  · rcases hv he with he | ⟨p, hp, hmade⟩
    · exact .inl he
    · exact .inr ⟨p, List.mem_cons_of_mem _ hp, hmade.mono hext⟩
  · exact .inr ⟨(key, value), List.mem_cons_self, he⟩

end

/-- The entries that come with a map value were made for the maps nested in it. -/
theorem mem_valueSpelling_entries (scope : Scope) (value : TypeExpr) {a : Arena} {e : EntryType}
    (h : e ∈ (valueSpelling scope value a).2.entries) :
    e.OldOrMade scope a (valueSpelling scope value a).2 value.nestedMaps := by
  induction value generalizing a with
  | named name o =>
    have hsame := (namedSpelling_sameTypes scope name a).entries
    exact .inl (hsame ▸ h)
  | array items o =>
    have hsame := (elementSpelling_sameTypes scope items a).entries
    exact .inl (hsame ▸ h)
  | map key value o ih =>
    cases hw : a.wrapperFor (TypeExpr.map key value o).signature with
    | some name =>
      simp only [valueSpelling, hw] at h
      exact .inl h
    | none =>
      rw [valueSpelling_map_of_none hw] at h ⊢
      rcases mem_synthesizeMap_entries_of_value ih h with h | ⟨p, hp, hmade⟩
      · exact .inl h
      · exact .inr ⟨p, hp, hmade.mono (Arena.extends_steps.complete _ _ _)⟩

theorem mem_synthesizeMap_entries (scope : Scope) (key : String) (value : TypeExpr) {a : Arena}
    {e : EntryType} (h : e ∈ (synthesizeMap scope key value a).2.entries) :
    e.OldOrMade scope a (synthesizeMap scope key value a).2 ((key, value) :: value.nestedMaps) :=
  mem_synthesizeMap_entries_of_value (mem_valueSpelling_entries scope value) h

def EntryType.Original (scope : Scope) (occurs : String → TypeExpr → Prop) (a : Arena)
    (e : EntryType) : Prop :=
  ∃ ns type, occurs ns type ∧ ∃ p ∈ type.maps, e.MadeFor (scope.within ns) a p.1 p.2

/-- From field to field, every new entry is made for a map of the field. -/
theorem original_run (scope : Scope) (occurs : String → TypeExpr → Prop) :
    Arena.RunOver scope occurs fun a b =>
      a.Extends b ∧ ∀ e ∈ b.entries, e ∈ a.entries ∨ e.Original scope occurs b where
  refl := fun a => ⟨Arena.extends_steps.refl a, fun _ he => .inl he⟩
  trans := by
    rintro a b c ⟨hab, hb⟩ ⟨hbc, hc⟩
    refine ⟨Arena.extends_steps.trans hab hbc, fun e he => ?_⟩
    rcases hc e he with he | he
    · rcases hb e he with he | ⟨ns, type, ho, p, hp, hmade⟩
      · exact .inl he
      · exact .inr ⟨ns, type, ho, p, hp, hmade.mono hbc⟩
    · exact .inr he
  map := by
    intro ns type ho key value ht a
    have hmaps : type.maps = (key, value) :: value.nestedMaps := by
      rw [TypeExpr.maps, ht]
    refine ⟨Arena.extends_steps.synthesizeMap (scope.within ns) key value a, fun e he => ?_⟩
    rcases mem_synthesizeMap_entries (scope.within ns) key value he with he | ⟨p, hp, hmade⟩
    · exact .inl he
    · exact .inr ⟨ns, type, ho, p, hmaps ▸ hp, hmade⟩

/-- Every entry of a document was made for a map of some field. -/
theorem Parts.Of.original {m : Model} {table : SymbolTable} {p : Parts} (h : p.Of m table) :
    ∀ e ∈ p.arena.entries,
      e.Original (.flat m table .graphql) (m.Includes .graphql) p.arena := by
  have hrun := original_run (.flat m table .graphql) (m.Includes .graphql)
  intro e he
  rcases (hrun.allObjectDefs (fun t ht f hf => Model.includes_of_mem ht hf) h.objects).2 e he with
    he | he
  · cases he
  · exact he

/-- What the two values of an entry stand for in the end. -/
theorem Parts.Of.stands {m : Model} {p : Parts} (h : p.Of m (.of m)) {e : EntryType}
    (he : e ∈ p.arena.entries) :
    ∃ ns, ∃ s : Spelling, s.Stands ((Scope.flat m (.of m) .graphql).within ns) m p.arena ∧
      e.value = s.output ∧ e.valueInput = s.input := by
  obtain ⟨ns, type, _, q, _, a, c, hext, rfl⟩ := h.original e he
  have hflat := (Scope.flatOver_flat m .graphql).within ns
  exact ⟨ns, _, (valueSpelling_stands hflat q.2 a).mono hext, rfl, rfl⟩

end Graphql

end Triglot
