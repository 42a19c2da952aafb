import Triglot.Proofs.Generator
import Triglot.Proofs.Graphql.Origin
import Triglot.Proofs.Proto.Imports

/-! Placeholders in outputs. A map key or a map value that stands for nothing has a fallback in every
target. In a model that was checked no name and no key comes to it: what is left to placeholders, and
to the warnings about them, are lists and maps in places where a target cannot spell them. -/
namespace Triglot

namespace TypeExpr

def parts : TypeExpr → List TypeExpr
  | .named name o => [.named name o]
  | .array items o => .array items o :: items.parts
  | .map key value o => .map key value o :: value.parts

def keys : TypeExpr → List String
  | .named _ _ => []
  | .array items _ => items.keys
  | .map key value _ => key :: value.keys

theorem self_mem_parts (type : TypeExpr) : type ∈ type.parts := by
  cases type <;> exact List.mem_cons_self

/-- What a type hands down to its elements and values holds of all its parts. -/
theorem of_mem_parts {P : TypeExpr → Prop} {type part : TypeExpr} (h : part ∈ type.parts)
    (hitems : ∀ {items o}, P (.array items o) → P items)
    (hvalue : ∀ {key value o}, P (.map key value o) → P value) (htype : P type) : P part := by
  induction type with
  | named name o =>
    rw [List.mem_singleton.mp h]
    exact htype
  | array items o ih =>
    rcases List.mem_cons.mp h with rfl | h
    · exact htype
    · exact ih h (hitems htype)
  | map key value o ih =>
    rcases List.mem_cons.mp h with rfl | h
    · exact htype
    · exact ih h (hvalue htype)

/-- What is inside a part is inside the whole. -/
theorem parts_subset {type part : TypeExpr} (h : part ∈ type.parts) : part.parts ⊆ type.parts :=
  of_mem_parts (P := fun inner => inner.parts ⊆ type.parts) h (List.subset_of_cons_subset ·)
    (List.subset_of_cons_subset ·) (List.Subset.refl _)

theorem map_mem_of_outerMap? {type value : TypeExpr} {key : String}
    (h : type.outerMap? = some (key, value)) : ∃ o, .map key value o ∈ type.parts := by
  induction type with
  | named name o => cases h
  | array items o ih =>
    obtain ⟨p, hp⟩ := ih h
    exact ⟨p, List.mem_cons_of_mem _ hp⟩
  | map key value o =>
    cases h
    exact ⟨o, List.mem_cons_self⟩

theorem map_mem_of_mem_nestedMaps {type : TypeExpr} {p : String × TypeExpr}
    (h : p ∈ type.nestedMaps) : ∃ o, .map p.1 p.2 o ∈ type.parts := by
  induction type with
  | named name o => cases h
  | array items o => cases h
  | map key value o ih =>
    rcases List.mem_cons.mp h with rfl | h
    · exact ⟨o, List.mem_cons_self⟩
    · obtain ⟨q, hq⟩ := ih h
      exact ⟨q, List.mem_cons_of_mem _ hq⟩

/-- Every map that a type makes an entry for is a part of it. -/
theorem map_mem_of_mem_maps {type : TypeExpr} {p : String × TypeExpr} (h : p ∈ type.maps) :
    ∃ o, .map p.1 p.2 o ∈ type.parts := by
  unfold maps at h
  split at h
  · cases h
  · rename_i key value hmap
    obtain ⟨o, hmem⟩ := map_mem_of_outerMap? hmap
    rcases List.mem_cons.mp h with rfl | h
    · exact ⟨o, hmem⟩
    · obtain ⟨q, hq⟩ := map_mem_of_mem_nestedMaps h
      exact ⟨q, parts_subset hmem (List.mem_cons_of_mem _ hq)⟩

def WarnsOfShape (type : TypeExpr) (ns : String) (w : Diagnostic) : Prop :=
  ∃ shape ∈ type.parts, shape.name? = none ∧ w = unknownValue shape.signature ns

/-- A warning about a part is one about the whole. -/
theorem WarnsOfShape.mono {type other : TypeExpr} {ns : String} {w : Diagnostic}
    (hparts : type.parts ⊆ other.parts) (h : type.WarnsOfShape ns w) : other.WarnsOfShape ns w := by
  obtain ⟨shape, hshape, hw⟩ := h
  exact ⟨shape, hparts hshape, hw⟩

end TypeExpr

/-- Nothing in a type needs a fallback: its keys are scalars, and the name at its end is a scalar or
has a declaration. -/
structure Scope.Covers (scope : Scope) (type : TypeExpr) : Prop where
  keys : ∀ key ∈ type.keys, ∃ s, Scalar.ofName? key = some s
  spells : scope.Spells type

namespace Scope.Covers

variable {scope : Scope} {type : TypeExpr}

theorem items {o : Bool} (h : scope.Covers (.array type o)) : scope.Covers type :=
  ⟨h.keys, h.spells⟩

theorem value {key : String} {o : Bool} (h : scope.Covers (.map key type o)) : scope.Covers type :=
  ⟨fun inner hinner => h.keys inner (List.mem_cons_of_mem key hinner), h.spells⟩

/-- Nothing inside a covered type needs a fallback. -/
theorem part (h : scope.Covers type) {part : TypeExpr} (hp : part ∈ type.parts) :
    scope.Covers part := TypeExpr.of_mem_parts hp items value h

theorem key {key : String} {o : Bool} (h : scope.Covers (.map key type o)) :
    ∃ s, Scalar.ofName? key = some s := h.keys key List.mem_cons_self

/-- A name is a scalar, or a reference that finds a declaration. -/
theorem name_cases {name : String} {o : Bool} (h : scope.Covers (.named name o)) :
    (∃ s, Scalar.ofName? name = some s) ∨
      Scalar.ofName? name = none ∧ ∃ symbol, scope.resolve name = .ok symbol := by
  cases hs : Scalar.ofName? name with
  | some s => exact .inl ⟨s, rfl⟩
  | none => exact .inr ⟨rfl, h.spells (isScalar_of_ofName?_eq_none hs)⟩

/-- No value is classified as one that stands for nothing. -/
theorem classify_ne_unknown (h : scope.Covers type) (name : String) :
    MapValue.classify scope type ≠ .unknown name := by
  intro hc
  -- Lists and maps have classes of their own, so only a name could be unknown.
  cases type with
  | array items o => cases hc
  | map key value o => cases hc
  | named own o =>
    rcases h.name_cases with ⟨s, hs⟩ | ⟨hs, symbol, hr⟩
    · simp only [MapValue.classify, hs] at hc
      cases hc
    · simp only [MapValue.classify, hs, hr] at hc
      cases hc

end Scope.Covers

def Scope.CoversFields (scope : Scope) (m : Model) : Prop :=
  ∀ t ∈ m.types, ∀ f ∈ t.fields, (scope.within t.ns).Covers f.type

namespace Scope.CoversFields

variable {scope : Scope} {m : Model}

theorem included (h : scope.CoversFields m) {t : ObjectType} (ht : t ∈ m.types) {f : Field}
    {target : Target} (hf : f ∈ t.includedFields target) : (scope.within t.ns).Covers f.type :=
  h t ht f (List.mem_filter.mp hf).1

theorem part (h : scope.CoversFields m) (key : String) : scope.CoversFields (m.part key) :=
  fun t ht => h t (List.mem_filter.mp ht).1

end Scope.CoversFields

namespace Validation

/-- If no finding is an error, all keys of a type are scalars that keys can be. -/
theorem keys_of_typeKeys {typeName fieldName path : String} {type : TypeExpr}
    (h : Harmless (typeKeys typeName fieldName path type)) : ∀ key ∈ type.keys, key ∈ keyScalars := by
  induction type with
  | named name o =>
    intro key hkey
    cases hkey
  | array items o ih => exact ih h
  | map own value o ih =>
    obtain ⟨hown, hvalue⟩ := harmless_append.mp h
    refine List.forall_mem_cons.mpr ⟨?_, ih hvalue⟩
    -- A key outside of the list would be told as an error.
    split at hown
    · rename_i hmem
      exact List.contains_iff_mem.mp hmem
    · exact absurd (List.mem_singleton_self _) (hown.not_mem_of_isError rfl)

theorem ofName?_of_mem_keyScalars :
    ∀ key ∈ keyScalars, ∃ s, Scalar.ofName? key = some s := by
  have hall : ∀ key ∈ keyScalars, (Scalar.ofName? key).isSome = true := by decide
  exact fun key hkey => Option.isSome_iff_exists.mp (hall key hkey)

theorem mapKeys_subset_entries (m : Model) (o : Options) :
    mapKeys m ⊆ (validate m o).entries := by
  intro d hd
  rw [validate_entries]
  simp only [List.mem_append]
  exact .inl (.inl (.inl (.inr hd)))

/-- In a model that was checked, the walk over keys and the one over references cover every field. -/
theorem coversFields_of_ok {m : Model} {o : Options} (h : (validate m o).ok = true) {scope : Scope}
    (htable : scope.table = .of m) : scope.CoversFields m := by
  intro t ht f hf
  have hkeys : Harmless (mapKeys m) := fun d hd =>
    (Report.ok_iff _).mp h d (mapKeys_subset_entries m o hd)
  -- Both walks go over the same fields, but each tells of its own half.
  obtain ⟨i, hi⟩ := Harmless.of_mapIdx hkeys ht
  obtain ⟨j, hj⟩ := Harmless.of_mapIdx hi hf
  have href : m.Referable scope.table := htable ▸ (accepted_of_ok h).referable
  exact ⟨fun key hkey => ofName?_of_mem_keyScalars key (keys_of_typeKeys hj key hkey),
    href.spells ht hf⟩

end Validation

namespace Proto

inductive Spelled (scope : Scope) : TypeExpr → String → Prop
  -- How a map value is written, without the fallbacks for unknown names and keys.
  | scalar {name o s} : Scalar.ofName? name = some s → Spelled scope (.named name o) (scalarText s)
  | declared {name o symbol} : Scalar.ofName? name = none → scope.resolve name = .ok symbol →
      Spelled scope (.named name o) (scope.write symbol)
  | map {key value o s text} : Scalar.ofName? key = some s → Spelled scope value text →
      Spelled scope (.map key value o) ("map<" ++ scalarText s ++ ", " ++ text ++ ">")
  | list {items o} : Spelled scope (.array items o) FieldType.placeholder.text

theorem keyText_of_ofName? {key : String} {s : Scalar} (h : Scalar.ofName? key = some s) :
    keyText key = scalarText s := by
  simp only [keyText, h]

section

variable {scope : Scope}

/-- A covered map value is spelled without a fallback. -/
theorem mapValue_spelled {value : TypeExpr} (h : scope.Covers value) :
    Spelled scope value (mapValue scope value).text := by
  induction value with
  | named name o =>
    rcases h.name_cases with ⟨s, hs⟩ | ⟨hs, symbol, hr⟩
    · simp only [mapValue, hs]
      exact .scalar hs
    · simp only [mapValue, hs, hr]
      exact .declared hs hr
  | array items o => exact .list
  | map key value o ih =>
    obtain ⟨s, hs⟩ := h.key
    simp only [mapValue, FieldType.text, keyText_of_ofName? hs]
    exact .map hs (ih h.value)

theorem mapWarnings_shapes {value : TypeExpr} (h : scope.Covers value) :
    ∀ w ∈ mapWarnings scope value, value.WarnsOfShape scope.ns w := by
  induction value with
  | named name o =>
    intro w hw
    unfold mapWarnings at hw
    split at hw
    · rename_i n hc
      exact absurd hc (h.classify_ne_unknown n)
    · cases hw
  | array items o =>
    intro w hw
    exact ⟨.array items o, TypeExpr.self_mem_parts _, rfl, List.mem_singleton.mp hw⟩
  | map key value o ih =>
    exact fun w hw => (ih h.value w hw).mono (List.subset_cons_self _ _)

theorem elementWarnings_shapes (items : TypeExpr) :
    ∀ w ∈ elementWarnings scope items, items.WarnsOfShape scope.ns w := by
  intro w hw
  cases items with
  | named name o => cases hw
  | array items o => exact ⟨_, TypeExpr.self_mem_parts _, rfl, List.mem_singleton.mp hw⟩
  | map key value o => exact ⟨_, TypeExpr.self_mem_parts _, rfl, List.mem_singleton.mp hw⟩

/-- A covered type is warned about for its shape only. -/
theorem typeWarnings_shapes {type : TypeExpr} (h : scope.Covers type) :
    ∀ w ∈ typeWarnings scope type, type.WarnsOfShape scope.ns w := by
  intro w hw
  cases type with
  | named name o => cases hw
  | array items o => exact (elementWarnings_shapes items w hw).mono (List.subset_cons_self _ _)
  | map key value o => exact (mapWarnings_shapes h.value w hw).mono (List.subset_cons_self _ _)

end

def File.MapsSpelled (f : File) (scope : Scope) (m : Model) : Prop :=
  -- The maps of a file are spelled: a line for a field that is a map has that map as its type.
  ∀ b ∈ f.messages, ∀ l ∈ b.lines, ∃ t ∈ m.types, ∃ field ∈ t.includedFields .proto,
    l.name = field.name ∧
      (field.type.isMap = true → Spelled (scope.within t.ns) field.type l.type.text)

section

variable {scope : Scope} {m part : Model}

theorem fieldLine_spelled {f : Field} {number : UInt32} {l : FieldLine} (h : scope.Covers f.type)
    (hl : fieldLine scope f number = .ok l) :
    l.name = f.name ∧ (f.type.isMap = true → Spelled scope f.type l.type.text) := by
  obtain ⟨⟨label, type⟩, htype, hl⟩ := bind_eq_ok hl
  cases hl
  refine ⟨rfl, fun hmap => ?_⟩
  cases hf : f.type with
  | named name o =>
    rw [hf] at hmap
    cases hmap
  | array items o =>
    rw [hf] at hmap
    cases hmap
  | map key value o =>
    rw [hf] at htype h
    cases htype
    exact mapValue_spelled h

/-- The maps of a file are spelled as they are declared. -/
theorem file_mapsSpelled {package : String} {paths : List String} {f : File}
    (h : scope.CoversFields part) (hsub : part.types ⊆ m.types)
    (hf : file scope part package paths = .ok f) : f.MapsSpelled scope m := by
  intro b hb l hl
  obtain ⟨_, _, hmessages, _⟩ := file_eq_ok hf
  obtain ⟨t, ht, hb⟩ := exists_of_mem_mapM hmessages hb
  obtain ⟨p, hp, hl⟩ := exists_of_mem_mapM (messageBlock_eq_ok hb).2 hl
  have hfield : p.1 ∈ t.includedFields .proto := mem_of_mem_numberFrom hp
  exact ⟨t, hsub ht, p.1, hfield, fieldLine_spelled (h.included ht hfield) hl⟩

theorem fileWarnings_shapes (h : scope.CoversFields part) :
    ∀ w ∈ fileWarnings scope part, ∃ t ∈ part.types, ∃ f ∈ t.includedFields .proto,
      f.type.WarnsOfShape t.ns w := by
  intro w hw
  obtain ⟨t, ht, hw⟩ := List.mem_flatMap.mp hw
  obtain ⟨f, hf, hw⟩ := List.mem_flatMap.mp hw
  exact ⟨t, ht, f, hf, typeWarnings_shapes (h.included ht hf) w hw⟩

end

/-- Whatever the layout, files warn of shapes. -/
theorem emit_shapes {m : Model} (hflat : (Scope.flat m (.of m) .proto).CoversFields m)
    (hsplit : (splitScope m).CoversFields m) {layout : Layout} {filename : String} {e : Emission}
    (he : emit layout filename m (.of m) = .ok e) :
    ∀ w ∈ e.diagnostics, ∃ t ∈ m.types, ∃ f ∈ t.includedFields .proto,
      f.type.WarnsOfShape t.ns w := by
  intro w hw
  cases layout with
  | singleFile =>
    obtain ⟨r, hr, rfl⟩ := map_eq_ok he
    rw [renderSingle_warnings hr] at hw
    exact fileWarnings_shapes hflat w hw
  | perNamespace =>
    obtain ⟨files, hfiles, rfl⟩ := map_eq_ok he
    obtain ⟨p, hp, hw⟩ := List.mem_flatMap.mp hw
    obtain ⟨key, hkey⟩ := renderByNamespace_warnings hfiles hp
    change w ∈ p.2.warnings at hw
    rw [hkey] at hw
    obtain ⟨t, ht, hf⟩ := fileWarnings_shapes (hsplit.part key) w hw
    exact ⟨t, (List.mem_filter.mp ht).1, hf⟩

end Proto

namespace Graphql

inductive SpelledName (scope : Scope) (usage : UsageMap) (name : String) : Spelling → Prop
  | scalar {s} : Scalar.ofName? name = some s → SpelledName scope usage name (.same (scalarText s))
  | declared {symbol} : Scalar.ofName? name = none → scope.resolve name = .ok symbol →
      SpelledName scope usage name (declaredSpelling scope usage symbol)

inductive Spelled (scope : Scope) (usage : UsageMap) : TypeExpr → Spelling → Prop
  -- How a map value is spelled. The placeholder stands for what is in a list and is no name.
  | name {name o s} : SpelledName scope usage name s → Spelled scope usage (.named name o) s
  | names {name o p s} : SpelledName scope usage name s →
      Spelled scope usage (.array (.named name o) p) s.list
  | shapes {items o} : items.name? = none →
      Spelled scope usage (.array items o) Spelling.placeholder.list
  | wrapper {key value o} (wrapper : String) :
      Spelled scope usage (.map key value o) ⟨.named wrapper, .named (inputName wrapper), wrapper⟩

theorem keyText_of_ofName? {key : String} {s : Scalar} (h : Scalar.ofName? key = some s) :
    keyText key = scalarText s := by
  simp only [keyText, h]

section

variable {scope : Scope}

/-- A name is spelled, and nothing is noted about it. -/
theorem namedSpelling_spelled {name : String} {o : Bool} (h : scope.Covers (.named name o))
    (a : Arena) : SpelledName scope a.usage name (namedSpelling scope name a).1 ∧
      (namedSpelling scope name a).2 = a := by
  rcases h.name_cases with ⟨s, hs⟩ | ⟨hs, symbol, hr⟩
  · simp only [namedSpelling, hs]
    exact ⟨.scalar hs, trivial⟩
  · simp only [namedSpelling, hs, hr]
    exact ⟨.declared hs hr, trivial⟩

/-- A covered map value has its own spelling, in both directions. -/
theorem valueSpelling_spelled {value : TypeExpr} (h : scope.Covers value) (a : Arena) :
    Spelled scope a.usage value (valueSpelling scope value a).1 := by
  cases value with
  | named name o => exact .name (namedSpelling_spelled h a).1
  | array items o =>
    cases items with
    | named name o => exact .names (namedSpelling_spelled h.items a).1
    | array items o => exact .shapes rfl
    | map key value o => exact .shapes rfl
  | map key value o =>
    cases hw : a.wrapperFor (TypeExpr.map key value o).signature with
    | some name =>
      simp only [valueSpelling, hw]
      exact .wrapper name
    | none =>
      rw [valueSpelling_map_of_none hw]
      exact .wrapper _

theorem Arena.mem_unknownValue_warnings {a : Arena} {shape ns : String} {w : Diagnostic}
    (h : w ∈ (a.unknownValue shape ns).warnings) :
    w ∈ a.warnings ∨ w = Triglot.unknownValue shape ns := by
  unfold unknownValue at h
  split at h
  · exact .inl h
  · rcases List.mem_append.mp h with h | h
    · exact .inl h
    · exact .inr (List.mem_singleton.mp h)

theorem Arena.intern_warnings (a : Arena) (e : EntryType) :
    (a.intern e).2.warnings = a.warnings := by
  rcases a.intern_cases e with ⟨name, _, he⟩ | ⟨_, he⟩ <;> rw [he]
  rfl

theorem elementSpelling_shapes {items : TypeExpr} (h : scope.Covers items) {a : Arena}
    {w : Diagnostic} (hw : w ∈ (elementSpelling scope items a).2.warnings) :
    w ∈ a.warnings ∨ items.WarnsOfShape scope.ns w := by
  cases items with
  | named name o =>
    rw [elementSpelling, (namedSpelling_spelled h a).2] at hw
    exact .inl hw
  | array items o =>
    exact (Arena.mem_unknownValue_warnings hw).imp_right fun he =>
      ⟨_, TypeExpr.self_mem_parts _, rfl, he⟩
  | map key value o =>
    exact (Arena.mem_unknownValue_warnings hw).imp_right fun he =>
      ⟨_, TypeExpr.self_mem_parts _, rfl, he⟩

/-- A map value adds warnings about the shapes inside it. -/
theorem valueSpelling_shapes {value : TypeExpr} (h : scope.Covers value) {a : Arena}
    {w : Diagnostic} (hw : w ∈ (valueSpelling scope value a).2.warnings) :
    w ∈ a.warnings ∨ value.WarnsOfShape scope.ns w := by
  induction value generalizing a with
  | named name o =>
    rw [valueSpelling, (namedSpelling_spelled h a).2] at hw
    exact .inl hw
  | array items o =>
    exact (elementSpelling_shapes h.items hw).imp_right (.mono (List.subset_cons_self _ _))
  | map key value o ih =>
    cases hw' : a.wrapperFor (TypeExpr.map key value o).signature with
    | some name =>
      simp only [valueSpelling, hw'] at hw
      exact .inl hw
    | none =>
      -- Wrappers and entries come without a warning, so only the inner value can add one.
      rw [valueSpelling_map_of_none hw'] at hw
      have hinner : w ∈ (valueSpelling scope value
          (a.allocate (TypeExpr.map key value o).signature).2).2.warnings := by
        rw [← Arena.intern_warnings]
        exact hw
      exact (ih h.value hinner).imp_right (.mono (List.subset_cons_self _ _))

end

/-- From one map to the next, an arena adds warnings about shapes of included fields. -/
theorem shapes_run {scope : Scope} {m : Model} (h : scope.CoversFields m) :
    Arena.RunOver scope (m.Includes .graphql) fun a b => ∀ w ∈ b.warnings,
      w ∈ a.warnings ∨ ∃ t ∈ m.types, ∃ f ∈ t.includedFields .graphql,
        f.type.WarnsOfShape t.ns w where
  refl := fun _ _ hw => .inl hw
  trans := by
    intro a b c hab hbc w hw
    rcases hbc w hw with hw | hw
    · exact hab w hw
    · exact .inr hw
  map := by
    rintro ns type ⟨t, ht, rfl, f, hf, rfl⟩ key value hmap a w hw
    obtain ⟨o, hmem⟩ := TypeExpr.map_mem_of_outerMap? hmap
    have hc := ((h.included ht hf).part hmem).value
    have hvalue : w ∈ (valueSpelling (scope.within t.ns) value a).2.warnings := by
      rw [← Arena.intern_warnings]
      exact hw
    exact (valueSpelling_shapes hc hvalue).imp_right fun hshape =>
      ⟨t, ht, f, hf, hshape.mono (List.subset_of_cons_subset (TypeExpr.parts_subset hmem))⟩

/-- A document tells of shapes only, if all fields are covered. -/
theorem render_shapes {m : Model} (h : (Scope.flat m (.of m) .graphql).CoversFields m) {r : Rendered}
    (hr : render m (.of m) = .ok r) :
    ∀ w ∈ r.warnings, ∃ t ∈ m.types, ∃ f ∈ t.includedFields .graphql,
      f.type.WarnsOfShape t.ns w := by
  intro w hw
  obtain ⟨_, p, hp, hwarnings, _⟩ := render_eq_ok hr
  rw [hwarnings] at hw
  have hrun := (shapes_run h).allObjectDefs (fun t ht f hf => Model.includes_of_mem ht hf) hp.objects
  rcases hrun w hw with hw | hw
  · cases hw
  · exact hw

def EntryType.MapSpelled (e : EntryType) (scope : Scope) (m : Model) : Prop :=
  ∃ t ∈ m.types, ∃ f ∈ t.includedFields .graphql, ∃ key value o,
    .map key value o ∈ f.type.parts ∧ (∃ s, Scalar.ofName? key = some s ∧ e.key = scalarText s) ∧
      ∃ usage, ∃ s : Spelling, Spelled (scope.within t.ns) usage value s ∧ e.value = s.output ∧
        e.valueInput = s.input

/-- Every entry pairs a key and a value of some map as they are spelled. -/
theorem entries_spelled {m : Model} (h : (Scope.flat m (.of m) .graphql).CoversFields m) {p : Parts}
    (hp : p.Of m (.of m)) : ∀ e ∈ p.arena.entries, e.MapSpelled (.flat m (.of m) .graphql) m := by
  intro e he
  obtain ⟨ns, type, ⟨t, ht, rfl, f, hf, rfl⟩, q, hq, a, c, _, rfl⟩ := hp.original e he
  obtain ⟨o, hmem⟩ := TypeExpr.map_mem_of_mem_maps hq
  have hc := (h.included ht hf).part hmem
  obtain ⟨s, hs⟩ := hc.key
  exact ⟨t, ht, f, hf, q.1, q.2, o, hmem, ⟨s, hs, keyText_of_ofName? hs⟩, a.usage, _,
    valueSpelling_spelled hc.value a, rfl, rfl⟩

end Graphql

namespace OpenApi

inductive Spelled (scope : Scope) : TypeExpr → Json → Prop
  -- The schema of a map value, without the fallback for unknown names.
  | scalar {name o s} : Scalar.ofName? name = some s → Spelled scope (.named name o) (scalarSchema s)
  | declared {name o symbol} : Scalar.ofName? name = none → scope.resolve name = .ok symbol →
      Spelled scope (.named name o) (schemaRef (scope.write symbol))
  | map {key value o schema} : Spelled scope value schema → Spelled scope (.map key value o)
      (.ofEntries [("type", .string "object"), ("additionalProperties", schema)])
  | list {items o schema} : Spelled scope items schema →
      Spelled scope (.array items o) (arraySchema schema)

variable {scope : Scope}

theorem valueSchema_spelled {value : TypeExpr} (h : scope.Covers value) :
    Spelled scope value (valueSchema scope value) := by
  induction value with
  | named name o =>
    rcases h.name_cases with ⟨s, hs⟩ | ⟨hs, symbol, hr⟩
    · simp only [valueSchema, MapValue.classify, hs]
      exact .scalar hs
    · simp only [valueSchema, MapValue.classify, hs, hr]
      exact .declared hs hr
  | array items o ih => exact .list (ih h.items)
  | map key value o ih => exact .map (ih h.value)

theorem valueWarnings_eq_nil {value : TypeExpr} (h : scope.Covers value) :
    valueWarnings scope value = [] := by
  have hname : scope.Covers (.named value.leafName false) := ⟨nofun, h.spells⟩
  unfold valueWarnings
  split
  · rename_i name hc
    exact absurd hc (hname.classify_ne_unknown name)
  · rfl

theorem typeWarnings_eq_nil {type : TypeExpr} (h : scope.Covers type) :
    typeWarnings scope type = [] := by
  induction type with
  | named name o => rfl
  | array items o ih => exact ih h.items
  | map key value o => exact valueWarnings_eq_nil h.value

/-- An export tells of repeated operations only, if all fields are covered. -/
theorem exportModel_warnings {version : String} {m : Model} {e : Exported}
    (h : (Scope.flat m (.of m) .openapi).CoversFields m)
    (he : exportModel version m (.of m) = .ok e) :
    ∀ w ∈ e.warnings, w.code = Code.duplicateOperation := by
  obtain ⟨_, paths, schemas, hpaths, _, _, hwarnings⟩ := exportModel_eq_ok he
  rw [hwarnings]
  refine List.forall_mem_append.mpr ⟨fun w hw => ?_, fun w hw => ?_⟩
  · obtain ⟨r, holder, rfl⟩ := buildPaths_warnings hpaths w hw
    rfl
  · obtain ⟨t, ht, hw⟩ := List.mem_flatMap.mp hw
    obtain ⟨f, hf, hw⟩ := List.mem_flatMap.mp hw
    rw [typeWarnings_eq_nil (h.included ht hf)] at hw
    cases hw

end OpenApi

structure TypeExpr.SpelledBy (type : TypeExpr) (scope : Scope) : Prop where
  classified : ∀ name, MapValue.classify scope type ≠ .unknown name
  keys : ∀ key ∈ type.keys, ∃ s, Scalar.ofName? key = some s ∧ s.name = key ∧
    Proto.keyText key = Proto.scalarText s ∧ Graphql.keyText key = Graphql.scalarText s
  proto : Proto.Spelled scope type (Proto.mapValue scope type).text
  graphql : ∀ a, Graphql.Spelled scope a.usage type (Graphql.valueSpelling scope type a).1
  openapi : OpenApi.Spelled scope type (OpenApi.valueSchema scope type)

theorem Scope.Covers.spelledBy {scope : Scope} {type : TypeExpr} (h : scope.Covers type) :
    type.SpelledBy scope where
  classified := h.classify_ne_unknown
  keys := by
    intro key hkey
    obtain ⟨s, hs⟩ := h.keys key hkey
    exact ⟨s, hs, (Scalar.name_of_ofName? hs).symm, Proto.keyText_of_ofName? hs,
      Graphql.keyText_of_ofName? hs⟩
  proto := Proto.mapValue_spelled h
  graphql := Graphql.valueSpelling_spelled h
  openapi := OpenApi.valueSchema_spelled h

/-- The warnings of an emitter about placeholders, in a model whose fields are covered. -/
theorem Emitter.emit_shapes {m : Model}
    (h : ∀ scope : Scope, scope.table = .of m → scope.CoversFields m) {e : Emitter}
    {emission : Emission} (he : e.emit m (.of m) = .ok emission) {w : Diagnostic}
    (hw : w ∈ emission.diagnostics) (hcode : w.code = Code.unknownValueType) :
    e.target ≠ .openapi ∧ ∃ t ∈ m.types, ∃ f ∈ t.includedFields e.target,
      f.type.WarnsOfShape t.ns w := by
  -- Files and documents warn of nothing but shapes; paths do, but under a code of their own.
  cases e with
  | proto filename layout =>
    exact ⟨nofun, Proto.emit_shapes (h _ rfl) (h _ rfl) he w hw⟩
  | graphql filename =>
    obtain ⟨r, hr, rfl⟩ := map_eq_ok he
    exact ⟨nofun, Graphql.render_shapes (h _ rfl) hr w hw⟩
  | openapi filename settings =>
    unfold emit OpenApi.emit at he
    dsimp only at he
    split at he
    · rename_i exported hexport
      cases he
      have hother := OpenApi.exportModel_warnings (h _ rfl) hexport w hw
      have hcodes : Code.unknownValueType ≠ Code.duplicateOperation := by decide
      exact absurd (hcode.symm.trans hother) hcodes
    · cases he

/-- In a model that was checked, no name and no key comes to a fallback. Every part of a field type
is spelled by the rules of each target, wherever references are read, and the maps in files and the
entries of documents are spelled so. Warnings about placeholders are about lists and maps, and the
one target that can spell all of these gives none. -/
theorem placeholders_only_for_shapes (m : Model) (o : Validation.Options)
    (h : (validate m o).ok = true) :
    (∀ scope : Scope, scope.table = .of m → ∀ t ∈ m.types, ∀ f ∈ t.fields,
      ∀ part ∈ f.type.parts, part.SpelledBy (scope.within t.ns)) ∧
    (∀ r, Proto.renderSingle m (.of m) = .ok r →
      r.file.MapsSpelled (.flat m (.of m) .proto) m) ∧
    (∀ files, Proto.renderByNamespace m (.of m) = .ok files →
      ∀ p ∈ files, p.2.file.MapsSpelled (Proto.splitScope m) m) ∧
    (∀ p : Graphql.Parts, p.Of m (.of m) →
      ∀ e ∈ p.arena.entries, e.MapSpelled (.flat m (.of m) .graphql) m) ∧
    ∀ (e : Emitter) (emission : Emission), e.emit m (.of m) = .ok emission →
      ∀ w ∈ emission.diagnostics, w.code = Code.unknownValueType →
        e.target ≠ .openapi ∧ ∃ t ∈ m.types, ∃ f ∈ t.includedFields e.target,
          f.type.WarnsOfShape t.ns w := by
  have hcovers (scope : Scope) (htable : scope.table = .of m) : scope.CoversFields m :=
    Validation.coversFields_of_ok h htable
  refine ⟨?_, ?_, ?_, ?_, ?_⟩
  · intro scope htable t ht f hf part hpart
    exact ((hcovers scope htable t ht f hf).part hpart).spelledBy
  · intro r hr
    exact Proto.file_mapsSpelled (hcovers _ rfl) (List.Subset.refl _) (Proto.renderSingle_eq_ok hr)
  · intro files hfiles p hp
    have hall := Proto.renderByNamespace_eq_ok hfiles
    obtain ⟨key, _, _, hfile⟩ := exists_of_mem_forall₂ hall.flip hp
    exact Proto.file_mapsSpelled ((hcovers _ rfl).part key) (List.filter_subset_self _) hfile
  · intro p hp
    exact Graphql.entries_spelled (hcovers _ rfl) hp
  · intro e emission he w hw hcode
    exact Emitter.emit_shapes hcovers he hw hcode

def shelf : Model :=
  -- Maps in maps, and lists where only names can be spelled.
  { types :=
      [{ name := "Item", ns := "shop", fields := [{ name := "id", type := .named "string" false }] },
       { name := "Shelf", ns := "depot"
         fields :=
          [{ name := "rows"
             type := .map "string" (.map "uint8" (.named "Item" false) false) false },
           { name := "tags"
             type := .map "int64" (.map "bool" (.array (.named "string" false) false) false) false },
           { name := "grid"
             type := .map "string" (.array (.array (.named "Item" false) false) false) false },
           { name := "boxes", type := .array (.map "uint32" (.named "Item" false) false) false }] }] }

theorem placeholders_only_for_shapes_shelf :
    (validate shelf {}).ok = true ∧
    (∃ files, Proto.renderByNamespace shelf (.of shelf) = .ok files ∧
      files.map (fun p => p.2.file.messages.flatMap fun b => b.lines.map (·.type.text)) =
        [["map<string, map<uint32, shop.Item>>", "map<int64, map<bool, bytes>>",
          "map<string, bytes>", "bytes"], ["string"]] ∧
      ∀ p ∈ files, p.2.file.MapsSpelled (Proto.splitScope shelf) shelf) ∧
    ∃ emission, (Emitter.graphql "shelf.graphql").emit shelf (.of shelf) = .ok emission ∧
      emission.diagnostics = [unknownValue "[Item]" "depot"] ∧
      ∃ t ∈ shelf.types, ∃ f ∈ t.includedFields .graphql,
        f.type.WarnsOfShape t.ns (unknownValue "[Item]" "depot") := by
  have hok : (validate shelf {}).ok = true := by decide +kernel
  have hsplit : (Proto.renderByNamespace shelf (.of shelf)).toOption.map (fun files =>
      files.map fun p => p.2.file.messages.flatMap fun b => b.lines.map (·.type.text)) =
      some [["map<string, map<uint32, shop.Item>>", "map<int64, map<bool, bytes>>",
        "map<string, bytes>", "bytes"], ["string"]] := by
    decide +kernel
  have hgraphql : ((Emitter.graphql "shelf.graphql").emit shelf (.of shelf)).toOption.map
      Emission.diagnostics = some [unknownValue "[Item]" "depot"] := by
    decide +kernel
  obtain ⟨_, _, hfiles, _, hwarnings⟩ := placeholders_only_for_shapes shelf {} hok
  obtain ⟨files, hf, htexts⟩ := exists_ok_of_toOption hsplit
  obtain ⟨emission, he, hdiagnostics⟩ := exists_ok_of_toOption hgraphql
  have hmem : unknownValue "[Item]" "depot" ∈ emission.diagnostics := by
    rw [hdiagnostics]
    exact List.mem_singleton_self _
  exact ⟨hok, ⟨files, hf, htexts, hfiles files hf⟩, emission, he, hdiagnostics,
    (hwarnings _ emission he _ hmem rfl).2⟩

end Triglot
