import Triglot.Proofs.Graphql.Origin

/-! What fields that meet in an arena share. A nested map gets the wrapper of its signature, whoever
came first with it, and that wrapper holds the entry of the map that came first. -/
namespace Triglot

def Model.fieldMaps (m : Model) (target : Target) : List (String × String × TypeExpr) :=
  m.types.flatMap fun t => (t.includedFields target).flatMap fun f =>
    f.type.outerMap?.toList.map fun q => (t.ns, q)

def Model.nestings (m : Model) (target : Target) : List (String × String × TypeExpr) :=
  (m.fieldMaps target).flatMap fun x => x.2.2.nestedMaps.map fun q => (x.1, q)

theorem Model.mem_fieldMaps {m : Model} {target : Target} {ns : String} {q : String × TypeExpr} :
    (ns, q) ∈ m.fieldMaps target ↔
      ∃ type, m.Includes target ns type ∧ type.outerMap? = some q := by
  simp only [fieldMaps, Includes, List.mem_flatMap, List.mem_map, Option.mem_toList]
  constructor
  · rintro ⟨t, ht, f, hf, k, hmap, heq⟩
    cases heq
    exact ⟨f.type, ⟨t, ht, rfl, f, hf, rfl⟩, hmap⟩
  · rintro ⟨type, ⟨t, ht, rfl, f, hf, rfl⟩, hmap⟩
    exact ⟨t, ht, f, hf, q, hmap, rfl⟩

/-- A nested map stands at some depth in the map of an included field. -/
theorem Model.mem_nestings {m : Model} {target : Target} {ns : String} {q : String × TypeExpr} :
    (ns, q) ∈ m.nestings target ↔ ∃ k, (ns, k) ∈ m.fieldMaps target ∧ q ∈ k.2.nestedMaps := by
  simp only [nestings, List.mem_flatMap, List.mem_map]
  constructor
  · rintro ⟨⟨ns', k⟩, hk, q', hq, heq⟩
    cases heq
    exact ⟨k, hk, hq⟩
  · rintro ⟨k, hk, hq⟩
    exact ⟨(ns, k), hk, q, hq, rfl⟩

theorem TypeExpr.nestedMaps_subset {value : TypeExpr} {q : String × TypeExpr}
    (h : q ∈ value.nestedMaps) : q.2.nestedMaps ⊆ value.nestedMaps := by
  induction value with
  | named name o => cases h
  | array items o => cases h
  | map key value o ih =>
    rcases List.mem_cons.mp h with rfl | h
    · exact List.subset_cons_self _ _
    · exact List.Subset.trans (ih h) (List.subset_cons_self _ _)

/-- What is nested in a nested map is nested itself. -/
theorem Model.nestings_closed {m : Model} {target : Target} {ns : String} {q : String × TypeExpr}
    (h : (ns, q) ∈ m.nestings target) : ∀ k ∈ q.2.nestedMaps, (ns, k) ∈ m.nestings target := by
  intro k hk
  obtain ⟨outer, houter, hq⟩ := Model.mem_nestings.mp h
  exact Model.mem_nestings.mpr ⟨outer, houter, TypeExpr.nestedMaps_subset hq hk⟩

namespace Graphql

def sharedSignature (q : String × TypeExpr) : String := (TypeExpr.map q.1 q.2 false).signature

inductive MapShape where
  | leaf (text : String)
  | map (key : String) (value : MapShape)
deriving DecidableEq, Repr

def MapShape.leafText : MapShape → String
  | .leaf text => text
  | .map _ value => value.leafText

def nameText (m : Model) (ns name : String) : String :=
  match Scalar.ofName? name with
  | some s => scalarText s
  | none =>
    match (SymbolTable.of m).resolve name ns with
    | .ok s => (NameTable.build m .graphql).declaredName s.ns s.name
    | .error _ => placeholderName

def declaredShape (m : Model) (ns : String) : TypeExpr → MapShape
  -- The shape that a map value declares in a namespace; lists hold names only.
  | .named name _ => .leaf (nameText m ns name)
  | .array (.named name _) _ => .leaf ("[" ++ nameText m ns name ++ "]")
  | .array _ _ => .leaf ("[" ++ placeholderName ++ "]")
  | .map key value _ => .map (keyText key) (declaredShape m ns value)

def nestedShape (m : Model) (x : String × String × TypeExpr) : MapShape :=
  .map (keyText x.2.1) (declaredShape m x.1 x.2.2)

def SharesShapes (m : Model) : Prop :=
  ∀ x ∈ m.nestings .graphql, ∀ y ∈ m.nestings .graphql,
    sharedSignature x.2 = sharedSignature y.2 → nestedShape m x = nestedShape m y

instance (m : Model) : Decidable (SharesShapes m) :=
  inferInstanceAs (Decidable (∀ x ∈ m.nestings .graphql, ∀ y ∈ m.nestings .graphql, _ → _))

def Arena.written? (a : Arena) (m : Model) (ns : String) (value : TypeExpr) : Option String :=
  match value with
  | .map key value _ => a.wrapperFor (sharedSignature (key, value))
  | _ => some (declaredShape m ns value).leafText

section Keeps

def Arena.Keeps (a b : Arena) : Prop :=
  ∀ signature name, a.wrapperFor signature = some name → b.wrapperFor signature = some name

theorem Arena.Keeps.trans {a b c : Arena} (h : a.Keeps b) (k : b.Keeps c) : a.Keeps c :=
  fun signature name hn => k signature name (h signature name hn)

theorem Arena.Keeps.of_eq {a b : Arena} (h : ∀ σ, b.wrapperFor σ = a.wrapperFor σ) : a.Keeps b :=
  fun σ _ hn => (h σ).trans hn

/-- Where signatures keep their wrappers, map values are written as before. -/
theorem Arena.Keeps.written? {a b : Arena} (h : a.Keeps b) {m : Model} {ns : String}
    {value : TypeExpr} {text : String} (hw : a.written? m ns value = some text) :
    b.written? m ns value = some text := by
  cases value with
  | named name o => exact hw
  | array items o => exact hw
  | map key value o => exact h _ _ hw

/-- A wrapper is found by the number that its signature is listed with. -/
theorem Arena.wrapperFor_eq (a : Arena) (signature : String) :
    a.wrapperFor signature =
      (a.signatures.lookup signature).bind fun i => (a.wrappers.map Wrapper.name)[i]? := by
  simp only [wrapperFor, List.getElem?_map]

/-- To fill a wrapper changes no look-up. -/
theorem Arena.complete_wrapperFor (a : Arena) (index : Nat) (entry signature : String) :
    (a.complete index entry).wrapperFor signature = a.wrapperFor signature := by
  rw [wrapperFor_eq, wrapperFor_eq, complete_wrapperNames]
  rfl

theorem Arena.intern_wrapperFor (a : Arena) (e : EntryType) (signature : String) :
    (a.intern e).2.wrapperFor signature = a.wrapperFor signature := by
  rcases a.intern_cases e with ⟨name, _, hi⟩ | ⟨_, hi⟩ <;> rw [hi]
  rfl

theorem Arena.unknownValue_wrapperFor (a : Arena) (shape ns signature : String) :
    (a.unknownValue shape ns).wrapperFor signature = a.wrapperFor signature := by
  unfold unknownValue
  split <;> rfl

/-- A signature leads to the wrapper that was allocated for it. -/
theorem Arena.allocate_wrapperFor_self (a : Arena) (signature : String) :
    (a.allocate signature).2.wrapperFor signature = some (wrapperName a.wrappers.length) := by
  simp [allocate, wrapperFor]

def Arena.Indexed (a : Arena) : Prop := ∀ p ∈ a.signatures, p.2 < a.wrappers.length

theorem Arena.indexed_start (usage : UsageMap) : Arena.Indexed { usage } := by
  intro p hp
  cases hp

/-- Every signature of an arena leads to a wrapper, whatever the operations are. -/
theorem Arena.indexed_steps : Arena.Steps fun a b => a.Indexed → b.Indexed where
  refl := fun _ h => h
  trans := fun hab hbc h => hbc (hab h)
  intern := by
    intro a e h
    rcases a.intern_cases e with ⟨name, _, hi⟩ | ⟨_, hi⟩ <;> rw [hi] <;> exact h
  allocate := by
    intro a signature h p hp
    simp only [allocate, List.length_append, List.length_singleton]
    rcases List.mem_cons.mp hp with rfl | hp
    · omega
    · have hlt := h p hp
      omega
  complete := by
    intro a index entry h p hp
    have hlt := h p hp
    simpa [complete] using hlt
  unknownValue := by
    intro a shape ns h
    unfold unknownValue
    split <;> exact h

/-- A new wrapper is only found under its own signature. -/
theorem Arena.allocate_wrapperFor {a : Arena} (ha : a.Indexed) {signature other : String}
    (h : other ≠ signature) :
    (a.allocate signature).2.wrapperFor other = a.wrapperFor other := by
  have hother : (other == signature) = false := beq_eq_false_iff_ne.mpr h
  simp only [allocate, wrapperFor, List.lookup_cons, hother]
  cases hl : a.signatures.lookup other with
  | none => rfl
  | some i =>
    obtain ⟨earlier, later, hsplit, _⟩ := List.lookup_eq_some_iff.mp hl
    have hlt : i < a.wrappers.length := ha (other, i) (by simp [hsplit])
    simp only [Option.bind_some, List.getElem?_append_left hlt]

/-- A wrapper for a new signature takes none away. -/
theorem Arena.keeps_allocate {a : Arena} (ha : a.Indexed) {signature : String}
    (h : a.wrapperFor signature = none) : a.Keeps (a.allocate signature).2 := by
  intro other name hn
  have hne : other ≠ signature := by
    rintro rfl
    rw [h] at hn
    cases hn
  rw [allocate_wrapperFor ha hne]
  exact hn

end Keeps

section Spelling

/-- A name is spelled as what it means in its namespace. -/
theorem namedSpelling_text (m : Model) (ns name : String) (a : Arena) :
    (namedSpelling ((Scope.flat m (.of m) .graphql).within ns) name a).1.output.text =
      nameText m ns name := by
  have hflat := (Scope.flatOver_flat m .graphql).within ns
  have hresolve : ((Scope.flat m (.of m) .graphql).within ns).resolve name =
      (SymbolTable.of m).resolve name ns := rfl
  unfold namedSpelling nameText
  cases Scalar.ofName? name with
  | some s => rfl
  | none =>
    rw [hresolve]
    cases hs : (SymbolTable.of m).resolve name ns with
    | ok s => exact hflat.write (SymbolTable.declares_of_resolve hs)
    | error e => rfl

theorem namedSpelling_wrapperFor (scope : Scope) (name : String) (a : Arena) (signature : String) :
    (namedSpelling scope name a).2.wrapperFor signature = a.wrapperFor signature := by
  unfold namedSpelling
  split
  · rfl
  · split
    · rfl
    · exact a.unknownValue_wrapperFor _ _ _

theorem elementSpelling_wrapperFor (scope : Scope) (items : TypeExpr) (a : Arena)
    (signature : String) :
    (elementSpelling scope items a).2.wrapperFor signature = a.wrapperFor signature := by
  cases items with
  | named name o => exact namedSpelling_wrapperFor scope name a signature
  | array items o => exact a.unknownValue_wrapperFor _ _ _
  | map key value o => exact a.unknownValue_wrapperFor _ _ _

/-- A map value is spelled without loss of a wrapper. -/
theorem valueSpelling_keeps (scope : Scope) (value : TypeExpr) {a : Arena} (ha : a.Indexed) :
    a.Keeps (valueSpelling scope value a).2 := by
  induction value generalizing a with
  | named name o => exact .of_eq (namedSpelling_wrapperFor scope name a)
  | array items o => exact .of_eq (elementSpelling_wrapperFor scope items a)
  | map key value o ih =>
    cases hw : a.wrapperFor (TypeExpr.map key value o).signature with
    | some name =>
      simp only [valueSpelling, hw]
      exact fun _ _ hn => hn
    | none =>
      rw [valueSpelling_map_of_none hw]
      intro σ n hn
      rw [Arena.complete_wrapperFor]
      refine (Arena.intern_wrapperFor _ _ σ).trans ?_
      exact ih (Arena.indexed_steps.allocate a _ ha) σ n (Arena.keeps_allocate ha hw σ n hn)

theorem synthesizeMap_keeps (scope : Scope) (key : String) (value : TypeExpr) {a : Arena}
    (ha : a.Indexed) : a.Keeps (synthesizeMap scope key value a).2 :=
  (valueSpelling_keeps scope value ha).trans (.of_eq (Arena.intern_wrapperFor _ _))

/-- A nested map is spelled by the wrapper that its signature has from then on. -/
theorem valueSpelling_map_wrapperFor (scope : Scope) (key : String) (value : TypeExpr) (o : Bool)
    {a : Arena} (ha : a.Indexed) :
    ∃ name, (valueSpelling scope (.map key value o) a).1 =
        ⟨.named name, .named (inputName name), name⟩ ∧
      (valueSpelling scope (.map key value o) a).2.wrapperFor (TypeExpr.map key value o).signature =
        some name := by
  cases hw : a.wrapperFor (TypeExpr.map key value o).signature with
  | some name =>
    simp only [valueSpelling, hw]
    exact ⟨name, rfl, rfl⟩
  | none =>
    rw [valueSpelling_map_of_none hw]
    refine ⟨_, rfl, (Arena.complete_wrapperFor _ _ _ _).trans ?_⟩
    exact synthesizeMap_keeps _ key value (Arena.indexed_steps.allocate a _ ha) _ _
      (a.allocate_wrapperFor_self _)

/-- The spelling of a map value is how the arena writes it from then on. -/
theorem valueSpelling_written (m : Model) (ns : String) (value : TypeExpr) {a : Arena}
    (ha : a.Indexed) :
    (valueSpelling ((Scope.flat m (.of m) .graphql).within ns) value a).2.written? m ns value =
      some (valueSpelling ((Scope.flat m (.of m) .graphql).within ns) value a).1.output.text := by
  cases value with
  | named name o => exact congrArg some (namedSpelling_text m ns name a).symm
  | array items o =>
    cases items with
    | named name o =>
      have htext := namedSpelling_text m ns name a
      simp only [Arena.written?, declaredShape, MapShape.leafText, valueSpelling, elementSpelling,
        Spelling.list, TypeRef.text, htext]
    | array items o => rfl
    | map key value o => rfl
  | map key value o =>
    obtain ⟨name, hspelled, hw⟩ := valueSpelling_map_wrapperFor
      ((Scope.flat m (.of m) .graphql).within ns) key value o ha
    rw [hspelled]
    exact hw

end Spelling

section Serves

variable {m : Model}

def EntryType.WrittenFor (a : Arena) (m : Model) (x : String × String × TypeExpr) (e : EntryType) :
    Prop :=
  e ∈ a.entries ∧ e.key = keyText x.2.1 ∧ a.written? m x.1 x.2.2 = some e.value.text

theorem EntryType.WrittenFor.mono {a b : Arena} (he : a.entries ⊆ b.entries) (hk : a.Keeps b)
    {x : String × String × TypeExpr} {e : EntryType} (h : e.WrittenFor a m x) :
    e.WrittenFor b m x :=
  ⟨he h.1, h.2.1, hk.written? h.2.2⟩

/-- A map gets the name of an entry of its own key, with the value as the arena writes it. -/
theorem exists_synthesizeMap (ns key : String) (value : TypeExpr) {a : Arena} (ha : a.Indexed)
    (hc : a.Coherent) :
    let made := synthesizeMap ((Scope.flat m (.of m) .graphql).within ns) key value a
    ∃ e : EntryType, e.name = made.1 ∧ e.WrittenFor made.2 m (ns, key, value) := by
  intro made
  have hspelled := Arena.coherent_steps.valueSpelling ((Scope.flat m (.of m) .graphql).within ns)
    value a hc
  obtain ⟨e, he, hname, hpairing⟩ := hspelled.exists_intern
    (entryFor key value (valueSpelling ((Scope.flat m (.of m) .graphql).within ns) value a).1)
  obtain ⟨hkey, hvalue⟩ := Prod.mk.inj hpairing
  have hkeeps : (valueSpelling ((Scope.flat m (.of m) .graphql).within ns) value a).2.Keeps made.2 :=
    .of_eq (Arena.intern_wrapperFor _ _)
  have hwritten := hkeeps.written? (valueSpelling_written m ns value ha)
  exact ⟨e, hname, he, hkey, hvalue ▸ hwritten⟩

def Wrapper.Serves (a : Arena) (m : Model) (x : String × String × TypeExpr) (w : Wrapper) : Prop :=
  ∃ e : EntryType, e.name = w.entry ∧ e.WrittenFor a m x

theorem Wrapper.Serves.mono {a b : Arena} (he : a.entries ⊆ b.entries) (hk : a.Keeps b)
    {x : String × String × TypeExpr} {w : Wrapper} (h : w.Serves a m x) : w.Serves b m x := by
  obtain ⟨e, hname, hwritten⟩ := h
  exact ⟨e, hname, hwritten.mono he hk⟩

/-- From one arena to another, nothing is lost, and a signature that is new has a new wrapper, which
serves a nested map of that signature. -/
structure Arena.Grows (m : Model) (a b : Arena) : Prop where
  entries : a.entries ⊆ b.entries
  keeps : a.Keeps b
  wrappers : ∃ new, b.wrappers = a.wrappers ++ new ∧
    ∀ signature name, b.wrapperFor signature = some name →
      a.wrapperFor signature = some name ∨ ∃ x ∈ m.nestings .graphql,
        sharedSignature x.2 = signature ∧ ∃ w ∈ new, w.name = name ∧ w.Serves b m x

theorem Arena.Grows.refl (m : Model) (a : Arena) : a.Grows m a :=
  ⟨List.Subset.refl _, fun _ _ hn => hn, [], by simp, fun _ _ hn => .inl hn⟩

/-- What serves a nested map after some fields serves it after the next ones too. -/
theorem Arena.Grows.trans {a b c : Arena} (h : a.Grows m b) (k : b.Grows m c) : a.Grows m c := by
  obtain ⟨first, hfirst, hab⟩ := h.wrappers
  obtain ⟨second, hsecond, hbc⟩ := k.wrappers
  refine ⟨List.Subset.trans h.entries k.entries, h.keeps.trans k.keeps, first ++ second, ?_, ?_⟩
  · rw [hsecond, hfirst, List.append_assoc]
  · intro σ n hn
    rcases hbc σ n hn with hn | ⟨x, hx, hσ, w, hw, hname, hserves⟩
    · rcases hab σ n hn with hn | ⟨x, hx, hσ, w, hw, hname, hserves⟩
      · exact .inl hn
      · exact .inr ⟨x, hx, hσ, w, List.mem_append_left _ hw, hname,
          hserves.mono k.entries k.keeps⟩
    · exact .inr ⟨x, hx, hσ, w, List.mem_append_right _ hw, hname, hserves⟩

theorem Arena.Grows.of_wrappers_eq {a b : Arena} (he : a.entries ⊆ b.entries)
    (hw : b.wrappers = a.wrappers) (hs : ∀ σ, b.wrapperFor σ = a.wrapperFor σ) : a.Grows m b :=
  ⟨he, .of_eq hs, [], by simp [hw], fun σ _ hn => .inl ((hs σ).symm.trans hn)⟩

theorem Arena.grows_intern (a : Arena) (e : EntryType) : a.Grows m (a.intern e).2 :=
  .of_wrappers_eq (Arena.extends_steps.intern a e).entries (intern_wrappers a e)
    (a.intern_wrapperFor e)

theorem Arena.Grows.synthesizeMap {scope : Scope} {value : TypeExpr} {a : Arena}
    (h : a.Grows m (valueSpelling scope value a).2) (key : String) :
    a.Grows m (synthesizeMap scope key value a).2 :=
  h.trans (grows_intern _ _)

/-- A wrapper that is filled with the entry of its own map serves that map. -/
theorem Arena.Grows.complete {a b : Arena} (ha : a.Indexed) {ns key : String} {value : TypeExpr}
    (hnone : a.wrapperFor (sharedSignature (key, value)) = none)
    (hx : (ns, key, value) ∈ m.nestings .graphql)
    (h : (a.allocate (sharedSignature (key, value))).2.Grows m b) {e : EntryType}
    (he : e.WrittenFor b m (ns, key, value)) :
    a.Grows m (b.complete a.wrappers.length e.name) := by
  obtain ⟨new, hnew, hfresh⟩ := h.wrappers
  have hkeeps : b.Keeps (b.complete a.wrappers.length e.name) :=
    .of_eq (b.complete_wrapperFor _ _)
  have hentries : b.entries ⊆ (b.complete a.wrappers.length e.name).entries :=
    List.Subset.refl _
  refine ⟨h.entries, ((Arena.keeps_allocate ha hnone).trans h.keeps).trans hkeeps, _,
    Arena.complete_allocated hnew e.name, ?_⟩
  intro σ n hn
  rw [complete_wrapperFor] at hn
  rcases hfresh σ n hn with hn | ⟨x, hx, hσ, w, hw, hname, hserves⟩
  -- What was there before the value may have been there before the wrapper, or be the wrapper.
  · by_cases hσ : σ = sharedSignature (key, value)
    · rw [hσ, allocate_wrapperFor_self] at hn
      exact .inr ⟨_, hx, hσ.symm, _, List.mem_cons_self, Option.some.inj hn, e, rfl,
        he.mono hentries hkeeps⟩
    · rw [allocate_wrapperFor ha hσ] at hn
      exact .inl hn
  · exact .inr ⟨x, hx, hσ, w, List.mem_cons_of_mem _ hw, hname, hserves.mono hentries hkeeps⟩

/-- Each wrapper that a map value adds serves a nested map of its signature. -/
theorem valueSpelling_grows (ns : String) (value : TypeExpr) {a : Arena} (ha : a.Indexed)
    (hc : a.Coherent) (hx : ∀ q ∈ value.nestedMaps, (ns, q) ∈ m.nestings .graphql) :
    a.Grows m (valueSpelling ((Scope.flat m (.of m) .graphql).within ns) value a).2 := by
  induction value generalizing a with
  | named name o =>
    have hsame := namedSpelling_sameTypes ((Scope.flat m (.of m) .graphql).within ns) name a
    exact .of_wrappers_eq (hsame.entries ▸ List.Subset.refl _) hsame.wrappers
      (namedSpelling_wrapperFor _ name a)
  | array items o =>
    have hsame := elementSpelling_sameTypes ((Scope.flat m (.of m) .graphql).within ns) items a
    exact .of_wrappers_eq (hsame.entries ▸ List.Subset.refl _) hsame.wrappers
      (elementSpelling_wrapperFor _ items a)
  | map key value o ih =>
    obtain ⟨hself, hinner⟩ := List.forall_mem_cons.mp hx
    cases hw : a.wrapperFor (TypeExpr.map key value o).signature with
    | some name =>
      simp only [valueSpelling, hw]
      exact .refl m a
    | none =>
      rw [valueSpelling_map_of_none hw]
      have hallocated := Arena.indexed_steps.allocate a (TypeExpr.map key value o).signature ha
      have hcoherent := Arena.coherent_steps.allocate a (TypeExpr.map key value o).signature hc
      obtain ⟨e, hname, hwritten⟩ :=
        exists_synthesizeMap (m := m) ns key value hallocated hcoherent
      have hmade := (ih hallocated hcoherent hinner).synthesizeMap key
      rw [← hname]
      exact hmade.complete ha hw hself hwritten

def Arena.Follows (m : Model) (a b : Arena) : Prop :=
  a.Indexed → a.Coherent → b.Indexed ∧ b.Coherent ∧ a.Grows m b

/-- From field to field, new wrappers serve nested maps, and old ones stay. -/
theorem follows_run (m : Model) :
    Arena.RunOver (.flat m (.of m) .graphql) (m.Includes .graphql) (Arena.Follows m) where
  refl := fun a ha hc => ⟨ha, hc, .refl m a⟩
  trans := by
    intro a b c hab hbc ha hc
    obtain ⟨hb, hcoherent, hfirst⟩ := hab ha hc
    obtain ⟨hlast, hcoherent, hsecond⟩ := hbc hb hcoherent
    exact ⟨hlast, hcoherent, hfirst.trans hsecond⟩
  map := by
    intro ns type hincluded key value hmap a ha hc
    refine ⟨Arena.indexed_steps.synthesizeMap _ key value a ha,
      Arena.coherent_steps.synthesizeMap _ key value a hc, ?_⟩
    have houter := Model.mem_fieldMaps.mpr ⟨type, hincluded, hmap⟩
    have hvalue := valueSpelling_grows ns value ha hc fun q hq =>
      Model.mem_nestings.mpr ⟨_, houter, hq⟩
    exact hvalue.synthesizeMap key

/-- Each wrapper in the parts of a document serves a nested map of its signature. -/
theorem Parts.Of.serves {p : Parts} (h : p.Of m (.of m)) {signature name : String}
    (hn : p.arena.wrapperFor signature = some name) :
    ∃ x ∈ m.nestings .graphql, sharedSignature x.2 = signature ∧
      ∃ w ∈ p.arena.wrappers, w.name = name ∧ w.Serves p.arena m x := by
  obtain ⟨_, _, hgrows⟩ := (follows_run m).allObjectDefs
    (fun t ht f hf => Model.includes_of_mem ht hf) h.objects (Arena.indexed_start _)
    (Arena.coherent_start _)
  obtain ⟨new, hnew, hfresh⟩ := hgrows.wrappers
  rcases hfresh signature name hn with hn | ⟨x, hx, hσ, w, hw, hname, hserves⟩
  · cases hn
  · exact ⟨x, hx, hσ, w, hnew ▸ List.mem_append_right _ hw, hname, hserves⟩

end Serves

end Graphql

end Triglot
