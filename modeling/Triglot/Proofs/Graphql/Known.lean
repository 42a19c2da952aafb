import Triglot.Proofs.Graphql.Arena
import Triglot.Proofs.Namespace.Scope

/-! The names that a document knows while it is made: builtin scalars, declarations, and what its
arena has gathered. An arena never forgets a name, and after each map all names in its entries are
known and each wrapper has its entry. -/
namespace Triglot.Graphql

def builtinNames : List String := ["String", "Int", "Float", "Boolean"]

/-- Scalars are written under names that every document knows. -/
theorem scalarText_mem_builtinNames (s : Scalar) : scalarText s ∈ builtinNames := by
  cases s <;> simp [scalarText, builtinNames]

theorem keyText_mem_builtinNames (key : String) : keyText key ∈ builtinNames := by
  unfold keyText
  split
  · exact scalarText_mem_builtinNames _
  · simp [builtinNames]

def objectNames (names : NameTable) (usage : UsageMap) (t : ObjectType) : List String :=
  let name := names.declaredName t.ns t.name
  if usage.needsInput t.ns t.name then [name, inputName name] else [name]

def declaredNames (m : Model) (names : NameTable) (usage : UsageMap) : List String :=
  (m.enums.map fun e => names.declaredName e.ns e.name) ++
    m.types.flatMap (objectNames names usage) ++
    (m.unions.flatMap fun u =>
      [names.declaredName u.ns u.name, inputName (names.declaredName u.ns u.name)])

section

variable {m : Model} {names : NameTable} {usage : UsageMap} {s : Symbol}

/-- Declarations are defined under the names by which they are referred to. -/
theorem declaredName_mem_declaredNames (h : m.Declares s) :
    names.declaredName s.ns s.name ∈ declaredNames m names usage := by
  have h := h.declared
  simp only [declaredNames, List.mem_append]
  split at h <;> obtain ⟨x, hx, hns, hname⟩ := h <;> rw [← hns, ← hname]
  · exact .inl (.inl (List.mem_map.mpr ⟨x, hx, rfl⟩))
  · refine .inl (.inr (List.mem_flatMap.mpr ⟨x, hx, ?_⟩))
    unfold objectNames
    dsimp only
    split <;> exact List.mem_cons_self
  · exact .inr (List.mem_flatMap.mpr ⟨x, hx, List.mem_cons_self⟩)

/-- So are the input forms of declarations that have one. -/
theorem inputName_mem_declaredNames (h : m.Declares s) (hi : hasInput usage s = true) :
    inputName (names.declaredName s.ns s.name) ∈ declaredNames m names usage := by
  have h := h.declared
  simp only [declaredNames, List.mem_append]
  split at h <;> rename_i hkind <;> obtain ⟨x, hx, hns, hname⟩ := h <;>
    simp only [hasInput, hkind] at hi <;> rw [← hns, ← hname] at *
  · cases hi
  · refine .inl (.inr (List.mem_flatMap.mpr ⟨x, hx, ?_⟩))
    simp [objectNames, hi]
  · exact .inr (List.mem_flatMap.mpr ⟨x, hx, by simp⟩)

end

/-- However a declaration is written, that is its name in that direction. -/
theorem directedName_mem_declaredNames {scope : Scope} {m : Model} (h : scope.FlatOver m)
    {s : Symbol} (hd : m.Declares s) (usage : UsageMap) (d : Direction) :
    directedName scope usage d s ∈ declaredNames m scope.names usage := by
  cases d with
  | output =>
    simp only [directedName, h.write hd]
    exact declaredName_mem_declaredNames hd
  | input =>
    simp only [directedName, h.write hd]
    split
    · rename_i hi
      exact inputName_mem_declaredNames hd hi
    · exact declaredName_mem_declaredNames hd

def Arena.names (a : Arena) : List String := (arenaDefs a).map Definition.name

/-- An arena defines the placeholder if it was used, and wrappers and entries in both directions. -/
theorem Arena.mem_names {a : Arena} {n : String} :
    n ∈ a.names ↔ (a.unknownUsed = true ∧ n = placeholderName) ∨
      (∃ w ∈ a.wrappers.map Wrapper.name, ∃ d : Direction, n = d.name w) ∨
      ∃ e ∈ a.entries.map EntryType.name, ∃ d : Direction, n = d.name e := by
  have hd (P : Direction → Prop) : (∃ d, P d) ↔ P .output ∨ P .input :=
    ⟨fun ⟨d, h⟩ => by cases d <;> simp [h], fun h => h.elim (⟨_, ·⟩) (⟨_, ·⟩)⟩
  have hp : n ∈ ((if a.unknownUsed then
      [Definition.scalar "Placeholder for map values without a GraphQL representation"
        placeholderName] else []).map Definition.name) ↔
      a.unknownUsed = true ∧ n = placeholderName := by
    split <;> simp_all [Definition.name]
  have hw (w : Wrapper) (d : Direction) : (wrapperDef w d).name = d.name w.name := rfl
  have he (e : EntryType) (d : Direction) : (entryDef e d).name = d.name e.name := rfl
  simp only [names, arenaDefs, List.map_append, List.mem_append, hp, hd, or_assoc,
    List.map_flatMap, List.map_cons, List.map_nil, hw, he]
  simp

structure Arena.Extends (a b : Arena) : Prop where
  usage : b.usage = a.usage
  entries : a.entries ⊆ b.entries
  wrappers : a.wrappers.map Wrapper.name ⊆ b.wrappers.map Wrapper.name
  unknownUsed : a.unknownUsed = true → b.unknownUsed = true
  coherent : a.Coherent → b.Coherent

theorem Arena.complete_wrapperNames (a : Arena) (index : Nat) (entry : String) :
    (a.complete index entry).wrappers.map Wrapper.name = a.wrappers.map Wrapper.name := by
  apply List.ext_getElem?
  intro i
  simp only [complete, List.getElem?_map, List.getElem?_modify]
  cases a.wrappers[i]? with
  | none => rfl
  | some w =>
    simp only [Option.map_eq_map, Option.map_some]
    split <;> rfl

/-- No operation takes away what an arena has. -/
theorem Arena.extends_steps : Arena.Steps Arena.Extends where
  refl := fun a => ⟨rfl, List.Subset.refl _, List.Subset.refl _, id, id⟩
  trans := fun h k => ⟨k.usage.trans h.usage, List.Subset.trans h.entries k.entries,
    List.Subset.trans h.wrappers k.wrappers, fun hu => k.unknownUsed (h.unknownUsed hu),
    fun ha => k.coherent (h.coherent ha)⟩
  intern := by
    intro a e
    have hcoherent := Arena.coherent_steps.intern a e
    rcases a.intern_cases e with ⟨name, _, he⟩ | ⟨_, he⟩ <;> rw [he] at hcoherent ⊢
    · exact ⟨rfl, List.Subset.refl _, List.Subset.refl _, id, id⟩
    · refine ⟨rfl, ?_, List.Subset.refl _, id, hcoherent⟩
      rw [Arena.add_entries]
      exact List.subset_append_left _ _
  allocate := fun a signature => ⟨rfl, List.Subset.refl _, by simp [Arena.allocate], id,
    Arena.coherent_steps.allocate a signature⟩
  complete := fun a index entry => ⟨rfl, List.Subset.refl _,
    (a.complete_wrapperNames index entry).symm ▸ List.Subset.refl _, id,
    Arena.coherent_steps.complete a index entry⟩
  unknownValue := by
    intro a shape ns
    unfold Arena.unknownValue
    split <;> exact ⟨rfl, List.Subset.refl _, List.Subset.refl _, fun _ => rfl,
      fun h => h.of_eq rfl rfl⟩

def Knows (m : Model) (names : NameTable) (a : Arena) (n : String) : Prop :=
  n ∈ builtinNames ∨ n ∈ declaredNames m names a.usage ∨ n ∈ a.names

section

variable {m : Model} {names : NameTable} {a b : Arena}

/-- A name that is known stays known. -/
theorem Knows.mono (h : a.Extends b) {n : String} (hn : Knows m names a n) :
    Knows m names b n := by
  rcases hn with hn | hn | hn
  · exact .inl hn
  · exact .inr (.inl (h.usage ▸ hn))
  · refine .inr (.inr (Arena.mem_names.mpr ?_))
    rcases Arena.mem_names.mp hn with ⟨hu, hn⟩ | ⟨w, hw, hn⟩ | ⟨e, he, hn⟩
    · exact .inl ⟨h.unknownUsed hu, hn⟩
    · exact .inr (.inl ⟨w, h.wrappers hw, hn⟩)
    · exact .inr (.inr ⟨e, List.map_subset _ h.entries he, hn⟩)

theorem Knows.wrapper {w : String} (hw : w ∈ a.wrappers.map Wrapper.name) (d : Direction) :
    Knows m names a (d.name w) :=
  .inr (.inr (Arena.mem_names.mpr (.inr (.inl ⟨w, hw, d, rfl⟩))))

theorem Knows.entry {e : String} (he : e ∈ a.entries.map EntryType.name) (d : Direction) :
    Knows m names a (d.name e) :=
  .inr (.inr (Arena.mem_names.mpr (.inr (.inr ⟨e, he, d, rfl⟩))))

theorem Knows.placeholder (h : a.unknownUsed = true) : Knows m names a placeholderName :=
  .inr (.inr (Arena.mem_names.mpr (.inl ⟨h, rfl⟩)))

end

/-- What a spelling stands for: a builtin scalar, the placeholder, a declaration, or a nested map by
its wrapper. The two directions only differ for the last two. -/
inductive Spelling.Stands (scope : Scope) (m : Model) (a : Arena) (s : Spelling) : Prop where
  | builtin (h : s.output.base ∈ builtinNames) (same : s.input.base = s.output.base)
  | placeholder (used : a.unknownUsed = true) (output : s.output.base = placeholderName)
      (input : s.input.base = placeholderName)
  | declared (symbol : Symbol) (h : m.Declares symbol)
      (output : s.output.base = directedName scope a.usage .output symbol)
      (input : s.input.base = directedName scope a.usage .input symbol)
  | wrapper (h : s.output.base ∈ a.wrappers.map Wrapper.name)
      (input : s.input.base = inputName s.output.base)

theorem unknownValue_unknownUsed (a : Arena) (shape ns : String) :
    (a.unknownValue shape ns).unknownUsed = true := by
  unfold Arena.unknownValue
  split <;> rfl

section

variable {scope : Scope} {m : Model}

theorem placeholder_stands (a : Arena) (shape ns : String) :
    Spelling.placeholder.Stands scope m (a.unknownValue shape ns) :=
  .placeholder (unknownValue_unknownUsed a shape ns) rfl rfl

/-- The spelling of a name stands for a scalar, for the declaration that the name finds, or for the
placeholder. -/
theorem namedSpelling_stands (h : scope.FlatOver m) (name : String) (a : Arena) :
    (namedSpelling scope name a).1.Stands scope m (namedSpelling scope name a).2 := by
  unfold namedSpelling
  split
  · exact .builtin (scalarText_mem_builtinNames _) rfl
  · split
    · rename_i s hs
      exact .declared s (h.declares hs) rfl rfl
    · exact placeholder_stands a name scope.ns

theorem elementSpelling_stands (h : scope.FlatOver m) (items : TypeExpr) (a : Arena) :
    (elementSpelling scope items a).1.Stands scope m (elementSpelling scope items a).2 := by
  cases items with
  | named name o => exact namedSpelling_stands h name a
  | array items o => exact placeholder_stands a _ _
  | map key value o => exact placeholder_stands a _ _

theorem mem_wrappers_of_wrapperFor {a : Arena} {signature name : String}
    (h : a.wrapperFor signature = some name) : name ∈ a.wrappers.map Wrapper.name := by
  obtain ⟨i, _, hi⟩ := Option.bind_eq_some_iff.mp h
  obtain ⟨w, hw, rfl⟩ := Option.map_eq_some_iff.mp hi
  exact List.mem_map_of_mem (List.mem_of_getElem? hw)

/-- A nested map of a new signature is a map within an arena that has its wrapper already. -/
theorem valueSpelling_map_of_none {key : String} {value : TypeExpr} {o : Bool} {a : Arena}
    (h : a.wrapperFor (TypeExpr.map key value o).signature = none) :
    let wrapper := Arena.wrapperName a.wrappers.length
    let made := synthesizeMap scope key value
      (a.allocate (TypeExpr.map key value o).signature).2
    valueSpelling scope (.map key value o) a =
      (⟨.named wrapper, .named (inputName wrapper), wrapper⟩,
        made.2.complete a.wrappers.length made.1) := by
  simp only [valueSpelling, h]
  rfl

/-- What every map value stands for. A nested map needs no induction: its wrapper is there before its
own value is looked at. -/
theorem valueSpelling_stands (h : scope.FlatOver m) (value : TypeExpr) (a : Arena) :
    (valueSpelling scope value a).1.Stands scope m (valueSpelling scope value a).2 := by
  cases value with
  | named name o => exact namedSpelling_stands h name a
  | array items o =>
    cases elementSpelling_stands h items a with
    | builtin hb same => exact .builtin hb same
    | placeholder used output input => exact .placeholder used output input
    | declared s hs output input => exact .declared s hs output input
    | wrapper hw input => exact .wrapper hw input
  | map key value o =>
    cases hw : a.wrapperFor (TypeExpr.map key value o).signature with
    | some name =>
      simp only [valueSpelling, hw]
      exact .wrapper (mem_wrappers_of_wrapperFor hw) rfl
    | none =>
      have hmem : Arena.wrapperName a.wrappers.length ∈
          (a.allocate (TypeExpr.map key value o).signature).2.wrappers.map Wrapper.name := by
        simp [Arena.allocate]
      have hmade := Arena.extends_steps.synthesizeMap scope key value
        (a.allocate (TypeExpr.map key value o).signature).2
      have hlast (entry : String) := (Arena.extends_steps.trans hmade
        (Arena.extends_steps.complete _ a.wrappers.length entry)).wrappers hmem
      rw [valueSpelling_map_of_none hw]
      exact .wrapper (hlast _) rfl

theorem Spelling.Stands.mono {a b : Arena} (h : a.Extends b) {s : Spelling}
    (hs : s.Stands scope m a) : s.Stands scope m b := by
  cases hs with
  | builtin hb same => exact .builtin hb same
  | placeholder used output input => exact .placeholder (h.unknownUsed used) output input
  | declared symbol hd output input =>
    rw [← h.usage] at output input
    exact .declared symbol hd output input
  | wrapper hw input => exact .wrapper (h.wrappers hw) input

structure Spelling.Known (m : Model) (names : NameTable) (a : Arena) (s : Spelling) : Prop where
  output : Knows m names a s.output.base
  input : Knows m names a s.input.base

/-- Whatever a spelling stands for, both of its names have definitions. -/
theorem Spelling.Stands.known (h : scope.FlatOver m) {a : Arena} {s : Spelling}
    (hs : s.Stands scope m a) : s.Known m scope.names a := by
  cases hs with
  | builtin hb same => exact ⟨.inl hb, .inl (same ▸ hb)⟩
  | placeholder used output input =>
    exact ⟨output ▸ .placeholder used, input ▸ .placeholder used⟩
  | declared symbol hd output input =>
    exact ⟨output ▸ .inr (.inl (directedName_mem_declaredNames h hd a.usage .output)),
      input ▸ .inr (.inl (directedName_mem_declaredNames h hd a.usage .input))⟩
  | wrapper hw input => exact ⟨.wrapper hw .output, input ▸ .wrapper hw .input⟩

/-- Map values are spelled by names that have definitions. -/
theorem valueSpelling_known (h : scope.FlatOver m) (value : TypeExpr) (a : Arena) :
    (valueSpelling scope value a).1.Known m scope.names (valueSpelling scope value a).2 :=
  (valueSpelling_stands h value a).known h

theorem Arena.freeName_ne_empty (a : Arena) {base : String} (h : base ≠ "") :
    a.freeName base ≠ "" := by
  rcases List.mem_cons.mp (a.freeName_mem_candidates base) with hbase | hmem
  · rw [hbase]
    exact h
  · obtain ⟨i, _, hi⟩ := List.mem_map.mp hmem
    rw [← hi]
    simp [h]

structure EntryType.Known (m : Model) (names : NameTable) (a : Arena) (e : EntryType) : Prop where
  named : e.name ≠ ""
  key : e.key ∈ builtinNames
  value : Knows m names a e.value.base
  valueInput : Knows m names a e.valueInput.base

def Arena.EntriesKnown (m : Model) (names : NameTable) (a : Arena) : Prop :=
  ∀ e ∈ a.entries, e.Known m names a

theorem EntryType.Known.mono {names : NameTable} {a b : Arena} (h : a.Extends b) {e : EntryType}
    (he : e.Known m names a) : e.Known m names b :=
  ⟨he.named, he.key, he.value.mono h, he.valueInput.mono h⟩

theorem Arena.EntriesKnown.of_entries_eq {names : NameTable} {a b : Arena} (h : a.Extends b)
    (he : b.entries = a.entries) (ha : a.EntriesKnown m names) : b.EntriesKnown m names := by
  intro e hmem
  rw [he] at hmem
  exact (ha e hmem).mono h

/-- An entry that is made of known names leaves an arena whose entries are. -/
theorem Arena.EntriesKnown.intern {names : NameTable} {a : Arena} {e : EntryType}
    (ha : a.EntriesKnown m names) (he : e.Known m names a) :
    (a.intern e).2.EntriesKnown m names := by
  -- What was known before is known after; only the added entry has to be looked at.
  have hext := Arena.extends_steps.intern a e
  rcases a.intern_cases e with ⟨name, _, hi⟩ | ⟨_, hi⟩ <;> rw [hi] at hext ⊢
  · exact ha
  · intro x hx
    rw [Arena.add_entries] at hx
    rcases List.mem_append.mp hx with hx | hx
    · exact (ha x hx).mono hext
    · cases List.mem_singleton.mp hx
      exact ⟨a.freeName_ne_empty he.named, he.key, he.value.mono hext, he.valueInput.mono hext⟩

theorem entryFor_known {names : NameTable} {a : Arena} {s : Spelling} (h : s.Known m names a)
    (key : String) (value : TypeExpr) : (entryFor key value s).Known m names a :=
  ⟨by simp [entryFor], keyText_mem_builtinNames key, h.output, h.input⟩

structure Arena.SameTypes (a b : Arena) : Prop where
  entries : b.entries = a.entries
  wrappers : b.wrappers = a.wrappers

/-- A value without a spelling adds no entry and no wrapper. -/
theorem unknownValue_sameTypes (a : Arena) (shape ns : String) :
    a.SameTypes (a.unknownValue shape ns) := by
  unfold Arena.unknownValue
  split <;> exact ⟨rfl, rfl⟩

theorem namedSpelling_sameTypes (scope : Scope) (name : String) (a : Arena) :
    a.SameTypes (namedSpelling scope name a).2 := by
  unfold namedSpelling
  split
  · exact ⟨rfl, rfl⟩
  · split
    · exact ⟨rfl, rfl⟩
    · exact unknownValue_sameTypes a name scope.ns

theorem elementSpelling_sameTypes (scope : Scope) (items : TypeExpr) (a : Arena) :
    a.SameTypes (elementSpelling scope items a).2 := by
  cases items with
  | named name o => exact namedSpelling_sameTypes scope name a
  | array items o => exact unknownValue_sameTypes a _ _
  | map key value o => exact unknownValue_sameTypes a _ _

theorem synthesizeMap_entriesKnown_of_value (h : scope.FlatOver m) {value : TypeExpr} {a : Arena}
    (hv : (valueSpelling scope value a).2.EntriesKnown m scope.names) (key : String) :
    (synthesizeMap scope key value a).2.EntriesKnown m scope.names :=
  hv.intern (entryFor_known (valueSpelling_known h value a) key value)

/-- Map values add entries of known names only, however deep they nest. -/
theorem valueSpelling_entriesKnown (h : scope.FlatOver m) (value : TypeExpr) {a : Arena}
    (ha : a.EntriesKnown m scope.names) :
    (valueSpelling scope value a).2.EntriesKnown m scope.names := by
  have hsteps := Arena.extends_steps
  induction value generalizing a with
  | named name o =>
    have hsame := namedSpelling_sameTypes scope name a
    exact ha.of_entries_eq (hsteps.namedSpelling scope name a) hsame.entries
  | array items o =>
    have hsame := elementSpelling_sameTypes scope items a
    exact ha.of_entries_eq (hsteps.elementSpelling scope items a) hsame.entries
  | map key value o ih =>
    cases hw : a.wrapperFor (TypeExpr.map key value o).signature with
    | some name =>
      simp only [valueSpelling, hw]
      exact ha
    | none =>
      rw [valueSpelling_map_of_none hw]
      have hallocated : (a.allocate (TypeExpr.map key value o).signature).2.EntriesKnown m
          scope.names := ha.of_entries_eq (hsteps.allocate a _) rfl
      have hmade := synthesizeMap_entriesKnown_of_value h (ih hallocated) key
      exact hmade.of_entries_eq (hsteps.complete _ _ _) rfl

theorem synthesizeMap_entriesKnown (h : scope.FlatOver m) (key : String) (value : TypeExpr)
    {a : Arena} (ha : a.EntriesKnown m scope.names) :
    (synthesizeMap scope key value a).2.EntriesKnown m scope.names :=
  synthesizeMap_entriesKnown_of_value h (valueSpelling_entriesKnown h value ha) key

def Wrapper.Filled (a : Arena) (w : Wrapper) : Prop := w.entry ∈ a.entries.map EntryType.name

theorem Wrapper.Filled.mono {a b : Arena} (h : a.entries ⊆ b.entries) {w : Wrapper}
    (hw : w.Filled a) : w.Filled b := List.map_subset _ h hw

def Arena.Fills (a b : Arena) : Prop :=
  -- The wrappers that an arena gets on the way to another one are all filled in the end.
  ∃ new, b.wrappers = a.wrappers ++ new ∧ ∀ w ∈ new, w.Filled b

theorem Arena.Fills.of_wrappers_eq {a b : Arena} (h : b.wrappers = a.wrappers) : a.Fills b :=
  ⟨[], by simp [h], by simp⟩

theorem intern_wrappers (a : Arena) (e : EntryType) : (a.intern e).2.wrappers = a.wrappers := by
  rcases a.intern_cases e with ⟨name, _, hi⟩ | ⟨_, hi⟩ <;> rw [hi]
  rfl

theorem Arena.Fills.intern {a b : Arena} (h : a.Fills b) (e : EntryType) :
    a.Fills (b.intern e).2 := by
  obtain ⟨new, hnew, hfilled⟩ := h
  refine ⟨new, (intern_wrappers b e).trans hnew, fun w hw => ?_⟩
  exact (hfilled w hw).mono (Arena.extends_steps.intern b e).entries

/-- A wrapper stands right behind those that were there when it was allocated, whatever was added
after it, and there it is filled. -/
theorem Arena.complete_allocated {a b : Arena} {signature : String} {new : List Wrapper}
    (h : b.wrappers = (a.allocate signature).2.wrappers ++ new) (entry : String) :
    (b.complete a.wrappers.length entry).wrappers =
      a.wrappers ++ ⟨wrapperName a.wrappers.length, entry⟩ :: new := by
  have hsplit : b.wrappers = a.wrappers ++ ⟨wrapperName a.wrappers.length, ""⟩ :: new := by
    simp [h, Arena.allocate]
  simp only [Arena.complete, hsplit, List.modify_eq_take_drop, List.take_left, List.drop_left,
    List.modifyHead_cons]

/-- A wrapper that is completed with an entry is filled, and so are those that came after it. -/
theorem Arena.Fills.complete {a b : Arena} {signature entry : String}
    (h : (a.allocate signature).2.Fills b) (he : entry ∈ b.entries.map EntryType.name) :
    a.Fills (b.complete a.wrappers.length entry) := by
  obtain ⟨new, hnew, hfilled⟩ := h
  refine ⟨_, Arena.complete_allocated hnew entry, fun w hw => ?_⟩
  rcases List.mem_cons.mp hw with rfl | hw
  · exact he
  · exact hfilled w hw

/-- All wrappers that a map value allocates are filled when its spelling is done. -/
theorem valueSpelling_fills (value : TypeExpr) {a : Arena} (ha : a.Coherent) :
    a.Fills (valueSpelling scope value a).2 := by
  induction value generalizing a with
  | named name o => exact .of_wrappers_eq (namedSpelling_sameTypes scope name a).wrappers
  | array items o => exact .of_wrappers_eq (elementSpelling_sameTypes scope items a).wrappers
  | map key value o ih =>
    cases hw : a.wrapperFor (TypeExpr.map key value o).signature with
    | some name =>
      simp only [valueSpelling, hw]
      exact .of_wrappers_eq rfl
    | none =>
      have hallocated := Arena.coherent_steps.allocate a (TypeExpr.map key value o).signature ha
      rw [valueSpelling_map_of_none hw]
      exact ((ih hallocated).intern _).complete (synthesizeMap_mem_entries scope key value hallocated)

structure Arena.Sound (m : Model) (names : NameTable) (a : Arena) : Prop where
  -- What holds of an arena between two maps: its own two maps belong together, entries are made of
  -- known names, and no wrapper is left empty.
  coherent : a.Coherent
  entries : a.EntriesKnown m names
  wrappers : ∀ w ∈ a.wrappers, w.Filled a

theorem Arena.Sound.entry_ne_empty {names : NameTable} {a : Arena} (h : a.Sound m names)
    {w : Wrapper} (hw : w ∈ a.wrappers) : w.entry ≠ "" := by
  obtain ⟨e, he, hname⟩ := List.mem_map.mp (h.wrappers w hw)
  rw [← hname]
  exact (h.entries e he).named

/-- Between two maps no wrapper is left empty. -/
theorem synthesizeMap_filled (key : String) (value : TypeExpr) {a : Arena} (hc : a.Coherent)
    (ha : ∀ w ∈ a.wrappers, w.Filled a) :
    ∀ w ∈ (synthesizeMap scope key value a).2.wrappers,
      w.Filled (synthesizeMap scope key value a).2 := by
  intro w hw
  have hfills : a.Fills (synthesizeMap scope key value a).2 :=
    (valueSpelling_fills value hc).intern (entryFor key value (valueSpelling scope value a).1)
  have hext := Arena.extends_steps.synthesizeMap scope key value a
  obtain ⟨new, hnew, hfilled⟩ := hfills
  rw [hnew] at hw
  rcases List.mem_append.mp hw with hw | hw
  · exact (ha w hw).mono hext.entries
  · exact hfilled w hw

/-- Each map leaves an arena of known names and filled wrappers. -/
theorem synthesizeMap_sound (h : scope.FlatOver m) (key : String) (value : TypeExpr) {a : Arena}
    (ha : a.Sound m scope.names) : (synthesizeMap scope key value a).2.Sound m scope.names :=
  ⟨Arena.coherent_steps.synthesizeMap scope key value a ha.coherent,
    synthesizeMap_entriesKnown h key value ha.entries,
    synthesizeMap_filled key value ha.coherent ha.wrappers⟩

/-- Over the maps of a document, an arena stays one of known names and filled wrappers. -/
theorem sound_run (h : scope.FlatOver m) :
    Arena.Run scope fun a b => a.Sound m scope.names → b.Sound m scope.names where
  refl := fun _ ha => ha
  trans := fun hab hbc ha => hbc (hab ha)
  map := fun ns key value _ ha => synthesizeMap_sound (h.within ns) key value ha

end

end Triglot.Graphql
