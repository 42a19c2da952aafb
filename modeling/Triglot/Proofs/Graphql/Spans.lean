import Triglot.Proofs.Graphql.Known
import Triglot.Proofs.Graphql.Success
import Triglot.Proofs.Union.Rendering

/-! A GraphQL document as spans of text: code, and literals with the purpose that they are written for.
Every definition has an origin, which says where its description and the directives of its fields come
from. Written one behind the other, the spans are the text of the document, and its literals for
documentation and reasons are those of the model. -/
namespace Triglot

def Field.reason? (f : Field) : Option String := f.deprecated.bind (·.reason)

namespace Graphql

inductive Purpose where
  | documentation
  | reason
  | generated
deriving DecidableEq, Repr

inductive Span where
  | code (text : String)
  | literal (purpose : Purpose) (source : String)
deriving DecidableEq, Repr

def Span.text : Span → String
  | .code text => text
  | .literal _ source => quoted source

def Span.source? (purpose : Purpose) : Span → Option String
  | .code _ => none
  | .literal p source => if p = purpose then some source else none

def written (spans : List Span) : String := String.join (spans.map Span.text)

def literals (purpose : Purpose) (spans : List Span) : List String :=
  spans.filterMap (Span.source? purpose)

inductive Origin where
  | generated
  | enum (e : EnumType)
  | type (t : ObjectType) (d : Direction)
  | union (u : UnionType) (d : Direction)
deriving DecidableEq, Repr

namespace Origin

def documentation : Origin → Option String
  | .generated => none
  | .enum e => description e.doc
  | .type t _ => description t.doc
  | .union u .output => description u.doc
  | .union u .input => (description u.doc).map (· ++ " (Input variant with @oneOf)")

def purpose : Origin → Purpose
  | .generated => .generated
  | .enum _ | .type _ _ | .union _ _ => .documentation

def fields? : Origin → Option (List Field)
  | .type t .output => some (t.includedFields .graphql)
  | .type _ .input | .generated | .enum _ | .union _ _ => none

def reasons (o : Origin) : List String := (o.fields?.getD []).filterMap Field.reason?

end Origin

def deprecationSpans (d : Deprecation) : List Span :=
  match d.reason with
  | some r => [.code "@deprecated(reason: ", .literal .reason r, .code ")"]
  | none => [.code "@deprecated"]

def directiveSpans (f : Field) : List (List Span) :=
  f.deprecated.toList.map deprecationSpans ++
    (f.annotations.optionsFor .graphql).map fun option => [.code option]

def Origin.directives (o : Origin) (fields : List FieldDef) : List (List (List Span)) :=
  match o.fields? with
  | some fs => fs.map directiveSpans
  | none => fields.map fun f => f.directives.map fun directive => [.code directive]

def FieldDef.spans (f : FieldDef) (directives : List (List Span)) : List Span :=
  .code margin.indent ::
    [.code " "].intercalate ([.code { f with directives := [] }.text] :: directives)

namespace Definition

def description : Definition → Option String
  | .scalar d _ => some d
  | .enum d _ _ => d
  | .object o => o.description
  | .union d _ _ => d

def body (o : Origin) : Definition → List (List Span)
  | .scalar _ n => [[.code ("scalar " ++ n)]]
  | .enum _ n values =>
    [[.code ("enum " ++ n ++ " \x7b")]] ++ (values.map fun v => [.code (margin.line v)]) ++
      [[.code "\x7d"]]
  | .object ob =>
    let head := " ".intercalate ((ob.direction.keyword ++ " " ++ ob.name) :: ob.directives)
    [[.code (head ++ " \x7b")]] ++ List.zipWith FieldDef.spans ob.fields (o.directives ob.fields) ++
      [[.code "\x7d"]]
  | .union _ n members => [[.code ("union " ++ n ++ " = " ++ " | ".intercalate members)]]

def spans (o : Origin) (d : Definition) : List Span :=
  [.code "\n"].intercalate ((d.description.map fun s => [.literal o.purpose s]).toList ++ d.body o)

end Definition

def Document.spans (d : Document) (origins : List Origin) : List Span :=
  let front := { d with definitions := [] }.sections.map fun s => [.code s]
  let definitions := List.zipWith Definition.spans origins d.definitions
  [.code "\n\n"].intercalate (front ++ definitions) ++ [.code "\n"]

def typeOrigins (usage : UsageMap) (t : ObjectType) : List Origin :=
  if usage.needsInput t.ns t.name then [.type t .output, .type t .input] else [.type t .output]

def declaredOrigins (m : Model) (usage : UsageMap) : List Origin :=
  m.enums.map .enum ++ m.types.flatMap (typeOrigins usage) ++
    m.unions.flatMap fun u => [.union u .output, .union u .input]

def Parts.origins (p : Parts) (m : Model) (usage : UsageMap) : List Origin :=
  (arenaDefs p.arena).map (fun _ => .generated) ++ declaredOrigins m usage ++
    (rootDefs p.roots).map fun _ => .generated

section Spans

variable {purpose : Purpose}

@[simp]
theorem written_nil : written [] = "" := rfl

@[simp]
theorem written_cons (s : Span) (spans : List Span) : written (s :: spans) = s.text ++ written spans := by
  simp [written]

@[simp]
theorem written_append (as bs : List Span) : written (as ++ bs) = written as ++ written bs := by
  simp [written]

/-- Spans that are joined by code are written as their texts joined by it. -/
theorem written_intercalate (sep : String) (lines : List (List Span)) :
    written ([Span.code sep].intercalate lines) = sep.intercalate (lines.map written) := by
  induction lines with
  | nil => simp
  | cons l lines ih =>
    cases lines with
    | nil => simp
    | cons k lines =>
      rw [List.intercalate_cons_of_ne_nil (List.cons_ne_nil _ _), written_append, written_append, ih]
      simp [Span.text, String.append_assoc]

@[simp]
theorem literals_append (as bs : List Span) :
    literals purpose (as ++ bs) = literals purpose as ++ literals purpose bs :=
  List.filterMap_append

@[simp]
theorem literals_code (s : String) : literals purpose [.code s] = [] := rfl

/-- Code between lines adds no literal. -/
theorem literals_intercalate (sep : String) (lines : List (List Span)) :
    literals purpose ([Span.code sep].intercalate lines) = lines.flatMap (literals purpose) := by
  induction lines with
  | nil => simp [literals]
  | cons l lines ih =>
    cases lines with
    | nil => simp
    | cons k lines =>
      rw [List.intercalate_cons_of_ne_nil (List.cons_ne_nil _ _), literals_append, literals_append, ih]
      simp

end Spans

section Fields

variable {f : FieldDef} {fs : List FieldDef} {directives : List (List Span)}
  {all : List (List (List Span))}

/-- The spans of a field's directives are written as these. -/
theorem written_directiveSpans (f : Field) : (directiveSpans f).map written = fieldDirectives f := by
  unfold directiveSpans fieldDirectives deprecationSpans
  rw [List.map_append, List.map_map, List.map_map]
  congr 1
  · cases f.deprecated with
    | none => rfl
    | some d =>
      obtain ⟨_ | r, since, removed⟩ := d
      · simp [Span.text]
      · simp [Span.text, String.append_assoc]
  · simp [Function.comp_def, Span.text]

/-- The only literal in the directives of a field is the reason of its deprecation. -/
theorem literals_directiveSpans (purpose : Purpose) (f : Field) :
    (directiveSpans f).flatMap (literals purpose) =
      if purpose = .reason then f.reason?.toList else [] := by
  unfold directiveSpans deprecationSpans Field.reason?
  rw [List.flatMap_append, List.flatMap_map, List.flatMap_map]
  cases f.deprecated with
  | none => simp
  | some d =>
    obtain ⟨_ | r, since, removed⟩ := d
    · simp
    · have hreason : literals purpose [.code "@deprecated(reason: ", .literal .reason r, .code ")"] =
          if purpose = .reason then [r] else [] := by
        cases purpose <;> rfl
      simp [hreason]

/-- The spans of a field are its line in the document. -/
theorem FieldDef.written_spans (h : directives.map written = f.directives) :
    written (f.spans directives) = margin.line f.text := by
  unfold FieldDef.spans Margin.line FieldDef.text
  rw [written_cons, written_intercalate, List.map_cons, h]
  simp [Span.text]

theorem FieldDef.literals_spans (purpose : Purpose) (f : FieldDef) (directives : List (List Span)) :
    literals purpose (f.spans directives) = directives.flatMap (literals purpose) := by
  have hparts : f.spans directives = [.code margin.indent] ++
      [.code " "].intercalate ([.code { f with directives := [] }.text] :: directives) := rfl
  rw [hparts, literals_append, literals_intercalate, List.flatMap_cons]
  simp

/-- Each field is written with its own directives. -/
theorem written_fieldLines (h : all.map (·.map written) = fs.map (·.directives)) :
    (List.zipWith FieldDef.spans fs all).map written = fs.map fun f => margin.line f.text := by
  induction fs generalizing all with
  | nil => simp
  | cons f fs ih =>
    cases all with
    | nil => simp at h
    | cons directives all =>
      obtain ⟨hf, hfs⟩ := List.cons_eq_cons.mp h
      rw [List.zipWith_cons_cons, List.map_cons, List.map_cons, f.written_spans hf, ih hfs]

theorem literals_fieldLines (purpose : Purpose) (h : all.length = fs.length) :
    (List.zipWith FieldDef.spans fs all).flatMap (literals purpose) =
      all.flatMap (·.flatMap (literals purpose)) := by
  induction fs generalizing all with
  | nil => simp [List.eq_nil_of_length_eq_zero h]
  | cons f fs ih =>
    cases all with
    | nil => simp at h
    | cons directives all =>
      rw [List.zipWith_cons_cons, List.flatMap_cons, List.flatMap_cons, f.literals_spans,
        ih (Nat.succ.inj h)]

end Fields

structure Origin.Makes (o : Origin) (d : Definition) : Prop where
  documentation : o ≠ .generated → d.description = o.documentation
  directives : ∀ fs ∈ o.fields?, d.fields.map (·.directives) = fs.map fieldDirectives

section Definitions

variable {o : Origin} {d : Definition}

theorem Origin.Makes.written_directives (h : o.Makes d) :
    (o.directives d.fields).map (·.map written) = d.fields.map (·.directives) := by
  unfold Origin.directives
  split
  · rename_i fs hfs
    rw [h.directives fs hfs, List.map_map]
    apply List.map_congr_left
    intro f _
    exact written_directiveSpans f
  · simp [Function.comp_def, Span.text]

theorem Origin.Makes.length_directives (h : o.Makes d) :
    (o.directives d.fields).length = d.fields.length := by
  simpa using congrArg List.length h.written_directives

theorem Origin.literals_directives (purpose : Purpose) (o : Origin) (fields : List FieldDef) :
    (o.directives fields).flatMap (·.flatMap (literals purpose)) =
      if purpose = .reason then o.reasons else [] := by
  unfold Origin.directives Origin.reasons
  split
  · rename_i fs hfs
    rw [hfs, List.flatMap_map, Option.getD_some, List.filterMap_eq_flatMap_toList]
    simp only [literals_directiveSpans]
    split
    · rfl
    · simp
  · rename_i hfs
    simp [hfs, List.flatMap_map]

/-- The spans of a definition are its text. -/
theorem Origin.Makes.written_spans (h : o.Makes d) : written (d.spans o) = d.render := by
  have hlines (description : Option String) :
      (description.map fun s => [Span.literal o.purpose s]).toList.map written =
        descriptionLines description := by
    cases description <;> simp [descriptionLines, Span.text]
  unfold Definition.spans
  rw [written_intercalate, List.map_append, hlines]
  cases d with
  | scalar description n => simp [Definition.body, Definition.render, joinLines, descriptionLines,
      Definition.description, Span.text]
  | enum description n values =>
    simp [Definition.body, Definition.render, joinLines, Definition.description, Span.text,
      Function.comp_def]
  | object ob =>
    have hfields : (List.zipWith FieldDef.spans ob.fields (o.directives ob.fields)).map written =
        ob.fields.map fun f => margin.line f.text := written_fieldLines h.written_directives
    simp only [Definition.body, List.map_append, hfields]
    simp [Definition.render, ObjectDef.render, joinLines, Definition.description, Span.text]
  | union description n members =>
    simp [Definition.body, Definition.render, joinLines, Definition.description, Span.text]

theorem Origin.Makes.literals_body (purpose : Purpose) (h : o.Makes d) :
    (d.body o).flatMap (literals purpose) = if purpose = .reason then o.reasons else [] := by
  rw [← o.literals_directives purpose d.fields, ← literals_fieldLines purpose h.length_directives]
  cases d with
  | scalar description n => simp [Definition.body, Definition.fields]
  | enum description n values => simp [Definition.body, Definition.fields]
  | object ob => simp [Definition.body, Definition.fields]
  | union description n members => simp [Definition.body, Definition.fields]

/-- The literals of a definition are its description and the reasons in its fields. -/
theorem Origin.Makes.literals_spans (purpose : Purpose) (h : o.Makes d) :
    literals purpose (d.spans o) = (if o.purpose = purpose then d.description.toList else []) ++
      if purpose = .reason then o.reasons else [] := by
  unfold Definition.spans
  rw [literals_intercalate, List.flatMap_append, h.literals_body]
  congr 1
  cases d.description with
  | none => simp
  | some s =>
    show (if o.purpose = purpose then some s else none).toList ++ [] = _
    split <;> rfl

/-- A definition quotes the documentation of its origin, and no other text as documentation. -/
theorem Origin.Makes.documentation_spans (h : o.Makes d) :
    literals .documentation (d.spans o) = o.documentation.toList := by
  have hreason : Purpose.documentation ≠ .reason := nofun
  rw [h.literals_spans, if_neg hreason, List.append_nil]
  -- A generated definition has a description too, but not as documentation.
  by_cases hgenerated : o = .generated
  · rw [hgenerated]
    rfl
  · have hpurpose : o.purpose = .documentation := by
      cases o with
      | generated => exact absurd rfl hgenerated
      | enum | type | union => rfl
    rw [if_pos hpurpose, h.documentation hgenerated]

theorem Origin.Makes.reason_spans (h : o.Makes d) : literals .reason (d.spans o) = o.reasons := by
  have hpurpose : o.purpose ≠ .reason := by cases o <;> nofun
  rw [h.literals_spans, if_neg hpurpose, if_pos rfl, List.nil_append]

end Definitions

section Documents

variable {origins : List Origin} {definitions : List Definition}

/-- Definitions are written as their spans, and the literals there are those of their origins, in
order. -/
theorem spans_of_makes (h : List.Forall₂ Origin.Makes origins definitions) :
    (List.zipWith Definition.spans origins definitions).map written =
        definitions.map Definition.render ∧
      (List.zipWith Definition.spans origins definitions).flatMap (literals .documentation) =
        origins.filterMap Origin.documentation ∧
      (List.zipWith Definition.spans origins definitions).flatMap (literals .reason) =
        origins.flatMap Origin.reasons := by
  induction h with
  | nil => exact ⟨rfl, rfl, rfl⟩
  | cons hmakes _ ih =>
    obtain ⟨hwritten, hdocumentation, hreasons⟩ := ih
    rw [List.zipWith_cons_cons, List.map_cons, List.flatMap_cons, List.flatMap_cons, hwritten,
      hdocumentation, hreasons, hmakes.written_spans, hmakes.documentation_spans, hmakes.reason_spans]
    refine ⟨rfl, ?_, rfl⟩
    rw [List.filterMap_eq_flatMap_toList, List.filterMap_eq_flatMap_toList, List.flatMap_cons]

/-- The spans of a document are its text, and its literals are those of the origins. -/
theorem Document.spans_of_makes (d : Document) (h : List.Forall₂ Origin.Makes origins d.definitions) :
    written (d.spans origins) = d.render ∧
      literals .documentation (d.spans origins) = origins.filterMap Origin.documentation ∧
      literals .reason (d.spans origins) = origins.flatMap Origin.reasons := by
  obtain ⟨hwritten, hdocumentation, hreasons⟩ := Graphql.spans_of_makes h
  have hsections : d.sections =
      { d with definitions := [] }.sections ++ d.definitions.map Definition.render := by
    simp [Document.sections, Document.header]
  have hfront (purpose : Purpose) (sections : List String) :
      (sections.map fun s => [Span.code s]).flatMap (literals purpose) = [] := by
    simp [List.flatMap_map]
  unfold Document.spans
  dsimp only
  refine ⟨?_, ?_, ?_⟩
  · rw [written_append, written_intercalate, List.map_append, hwritten, Document.render, hsections]
    simp [Function.comp_def, Span.text]
  · rw [literals_append, literals_intercalate, List.flatMap_append, hfront, hdocumentation]
    simp
  · rw [literals_append, literals_intercalate, List.flatMap_append, hfront, hreasons]
    simp

end Documents

section Parts

variable {scope : Scope} {t : ObjectType}

theorem makes_generated (ds : List Definition) :
    List.Forall₂ Origin.Makes (ds.map fun _ => .generated) ds := by
  induction ds with
  | nil => exact .nil
  | cons d ds ih => exact .cons ⟨fun h => absurd rfl h, nofun⟩ ih

theorem directives_of_fieldDefs {fs : List Field} {a b : Arena} {defs : List FieldDef}
    (h : fieldDefs scope .output fs a = .ok (defs, b)) :
    defs.map (·.directives) = fs.map fieldDirectives := by
  induction fs generalizing a defs with
  | nil =>
    cases h
    rfl
  | cons f fs ih =>
    obtain ⟨⟨t, c⟩, _, h⟩ := bind_eq_ok h
    obtain ⟨⟨rest, b⟩, hrest, h⟩ := bind_eq_ok h
    cases h
    rw [List.map_cons, List.map_cons, ih hrest]

theorem makes_objectDef {d : Direction} {a b : Arena} {o : Definition}
    (h : objectDef scope t d a = .ok (o, b)) : (Origin.type t d).Makes o := by
  obtain ⟨⟨fields, b⟩, hfields, h⟩ := bind_eq_ok h
  cases h
  refine ⟨fun _ => rfl, ?_⟩
  cases d with
  | input => nofun
  | output =>
    rintro _ ⟨⟩
    exact directives_of_fieldDefs hfields

/-- Both forms of an object type have its documentation, and the directives of its fields. -/
theorem makes_objectDefs {a b : Arena} {defs : List Definition}
    (h : objectDefs scope t a = .ok (defs, b)) :
    List.Forall₂ Origin.Makes (typeOrigins a.usage t) defs := by
  obtain ⟨⟨output, c⟩, hout, h⟩ := bind_eq_ok h
  -- The output form leaves it as it was whether there is an input form.
  have husage : c.usage = a.usage := ((Arena.extends_steps.run scope).objectDef hout).usage
  dsimp only at h
  rw [husage] at h
  unfold typeOrigins
  split at h
  · rename_i hinput
    obtain ⟨⟨input, e⟩, hin, h⟩ := bind_eq_ok h
    cases h
    rw [if_pos hinput]
    exact .cons (makes_objectDef hout) (.cons (makes_objectDef hin) .nil)
  · rename_i hinput
    cases h
    rw [if_neg hinput]
    exact .cons (makes_objectDef hout) .nil

/-- Definitions of object types follow the types in order. -/
theorem makes_allObjectDefs {ts : List ObjectType} {a b : Arena} {defs : List Definition}
    (h : allObjectDefs scope ts a = .ok (defs, b)) :
    List.Forall₂ Origin.Makes (ts.flatMap (typeOrigins a.usage)) defs := by
  induction ts generalizing a defs with
  | nil =>
    cases h
    exact .nil
  | cons t ts ih =>
    obtain ⟨⟨first, c⟩, hfirst, h⟩ := bind_eq_ok h
    obtain ⟨⟨rest, b⟩, hrest, h⟩ := bind_eq_ok h
    cases h
    have husage : c.usage = a.usage := ((Arena.extends_steps.run scope).objectDefs hfirst).usage
    rw [List.flatMap_cons, ← husage]
    exact List.rel_append (husage ▸ makes_objectDefs hfirst) (ih hrest)

theorem makes_renderUnion {u : UnionType} {defs : UnionDefs} (h : renderUnion scope u = .ok defs) :
    (Origin.union u .output).Makes defs.output ∧ (Origin.union u .input).Makes defs.input := by
  obtain ⟨symbols, _, h⟩ := bind_eq_ok h
  cases h
  exact ⟨⟨fun _ => rfl, nofun⟩, ⟨fun _ => rfl, nofun⟩⟩

theorem makes_unions {us : List UnionType} {all : List UnionDefs} {scopeOf : UnionType → Scope}
    (h : (us.mapM fun u => renderUnion (scopeOf u) u) = .ok all) :
    List.Forall₂ Origin.Makes (us.flatMap fun u => [.union u .output, .union u .input])
      (all.flatMap fun u => [u.output, u.input]) := by
  have hall := mapM_eq_ok h
  clear h
  induction hall with
  | nil => exact .nil
  | cons hu _ ih =>
    obtain ⟨hout, hin⟩ := makes_renderUnion hu
    exact .cons hout (.cons hin ih)

/-- Every definition of a document is made for its origin. -/
theorem Parts.Of.makes {m : Model} {table : SymbolTable} {p : Parts} (h : p.Of m table) :
    List.Forall₂ Origin.Makes (p.origins m (.classify m table .graphql))
      (p.definitions m (.flat m table .graphql)) := by
  have henums (es : List EnumType) : List.Forall₂ Origin.Makes (es.map .enum)
      (es.map (enumDef (.flat m table .graphql))) := by
    induction es with
    | nil => exact .nil
    | cons e es ih => exact .cons ⟨fun _ => rfl, nofun⟩ ih
  unfold Parts.origins Parts.definitions declaredOrigins
  simp only [List.append_assoc]
  apply List.rel_append (makes_generated _)
  apply List.rel_append (henums m.enums)
  apply List.rel_append (makes_allObjectDefs h.objects)
  exact List.rel_append (makes_unions h.unions) (makes_generated _)

theorem Parts.documentation_origins (p : Parts) (m : Model) (usage : UsageMap) :
    (p.origins m usage).filterMap Origin.documentation =
      (declaredOrigins m usage).filterMap Origin.documentation := by
  have hgenerated (ds : List Definition) :
      (ds.map fun _ => Origin.generated).filterMap Origin.documentation = [] := by
    apply List.filterMap_eq_nil_iff.mpr
    intro o ho
    obtain ⟨_, _, rfl⟩ := List.mem_map.mp ho
    rfl
  rw [Parts.origins, List.filterMap_append, List.filterMap_append, hgenerated, hgenerated,
    List.nil_append, List.append_nil]

/-- Only the output form of a type quotes reasons. -/
theorem Parts.reasons_origins (p : Parts) (m : Model) (usage : UsageMap) :
    (p.origins m usage).flatMap Origin.reasons =
      m.types.flatMap fun t => (t.includedFields .graphql).filterMap Field.reason? := by
  have hnone {os : List Origin} (h : ∀ o ∈ os, o.fields? = none) : os.flatMap Origin.reasons = [] := by
    apply List.flatMap_eq_nil_iff.mpr
    intro o ho
    rw [Origin.reasons, h o ho]
    rfl
  have htype (t : ObjectType) : (typeOrigins usage t).flatMap Origin.reasons =
      (t.includedFields .graphql).filterMap Field.reason? := by
    unfold typeOrigins
    split <;> simp [Origin.reasons, Origin.fields?]
  have hgenerated (ds : List Definition) :
      (ds.map fun _ => Origin.generated).flatMap Origin.reasons = [] :=
    hnone (by simp [Origin.fields?])
  have henums : (m.enums.map Origin.enum).flatMap Origin.reasons = [] :=
    hnone (by simp [Origin.fields?])
  have hunions : (m.unions.flatMap fun u => [Origin.union u .output, .union u .input]).flatMap
      Origin.reasons = [] := by
    apply hnone
    intro o ho
    obtain ⟨u, _, ho⟩ := List.mem_flatMap.mp ho
    rcases List.mem_pair.mp ho with rfl | rfl <;> rfl
  simp only [Parts.origins, declaredOrigins, List.flatMap_append, hgenerated, henums, hunions,
    List.nil_append, List.append_nil, List.flatMap_assoc, htype]

end Parts

end Graphql

end Triglot
