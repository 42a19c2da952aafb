import Triglot.Proofs.Graphql.Spans
import Triglot.Proofs.Text.Pieces

/-! String literals of GraphQL documents. A literal stands on one line: its text has neither a line feed
nor a carriage return. Quoting adds none and removes none. The lines of a documentation are joined before
they are quoted, which takes all line feeds away but leaves a carriage return without a line feed behind
it, and a reason is quoted as it is. -/
namespace Triglot

def Model.docTexts (m : Model) (target : Target) : List String :=
  (m.enums.map (·.doc) ++ m.types.map (·.doc) ++ m.unions.map (·.doc)).filterMap (docText · target)

namespace Graphql

def Unbroken (text : String) : Prop := '\n' ∉ text.toList ∧ '\r' ∉ text.toList

instance : DecidablePred Unbroken :=
  fun text => inferInstanceAs (Decidable ('\n' ∉ text.toList ∧ '\r' ∉ text.toList))

def escapable : List Char := ['"', '\\', '/', 'b', 'f', 'n', 'r', 't']

def hexDigits : List Char := "0123456789ABCDEFabcdef".toList

inductive StringBody : List Char → Prop
  | nil : StringBody []
  | plain {c : Char} {cs : List Char} : c ≠ '"' → c ≠ '\\' → c ≠ '\n' → c ≠ '\r' →
      StringBody cs → StringBody (c :: cs)
  | escape {c : Char} {cs : List Char} : c ∈ escapable → StringBody cs → StringBody ('\\' :: c :: cs)
  | codePoint {digits cs : List Char} : digits.length = 4 → digits ⊆ hexDigits →
      StringBody cs → StringBody ('\\' :: 'u' :: (digits ++ cs))

def IsString (text : String) : Prop := ∃ body, text.toList = '"' :: body ++ ['"'] ∧ StringBody body

section Quoting

variable {s : String} {c : Char} {cs : List Char}

theorem mem_escape_iff (hquote : c ≠ '"') (hslash : c ≠ '\\') (htab : c ≠ '\t') (ht : c ≠ 't') :
    c ∈ escape cs ↔ c ∈ cs := by
  induction cs with
  | nil => rfl
  | cons d cs ih =>
    have hd : c ∈ escape (d :: cs) ↔ c = d ∨ c ∈ escape cs := by
      unfold escape
      rw [List.flatMap_cons, List.mem_append]
      apply or_congr_left
      split
      · simp_all
      · split
        · simp_all
        · split <;> simp_all
    rw [hd, ih, List.mem_cons]

/-- Quoting neither adds nor removes a line terminator. -/
theorem unbroken_quoted_iff : Unbroken (quoted s) ↔ Unbroken s := by
  have hmem {c : Char} (hquote : c ≠ '"') (hslash : c ≠ '\\') (htab : c ≠ '\t') (ht : c ≠ 't') :
      c ∈ (quoted s).toList ↔ c ∈ s.toList := by
    rw [quoted, String.toList_ofList]
    simp [hquote, mem_escape_iff hquote hslash htab ht]
  have hfeed : '\n' ∈ (quoted s).toList ↔ '\n' ∈ s.toList :=
    hmem (by decide) (by decide) (by decide) (by decide)
  have hreturn : '\r' ∈ (quoted s).toList ↔ '\r' ∈ s.toList :=
    hmem (by decide) (by decide) (by decide) (by decide)
  unfold Unbroken
  rw [hfeed, hreturn]

theorem StringBody.not_mem (h : StringBody cs) : '\n' ∉ cs ∧ '\r' ∉ cs := by
  induction h with
  | nil => simp
  | plain _ _ hfeed hreturn _ ih => simp [hfeed.symm, hreturn.symm, ih]
  | @escape c cs hc _ ih =>
    have hline : c ≠ '\n' ∧ c ≠ '\r' := by
      constructor <;> rintro rfl <;> exact absurd hc (by decide)
    simp [hline.1.symm, hline.2.symm, ih]
  | @codePoint digits cs _ hdigits _ ih =>
    have hfeed : '\n' ∉ digits := fun hmem => absurd (hdigits hmem) (by decide)
    have hreturn : '\r' ∉ digits := fun hmem => absurd (hdigits hmem) (by decide)
    simp [hfeed, hreturn, ih]

/-- Escaped characters without line terminators may stand between quotes. -/
theorem stringBody_escape (hfeed : '\n' ∉ cs) (hreturn : '\r' ∉ cs) : StringBody (escape cs) := by
  induction cs with
  | nil => exact .nil
  | cons c cs ih =>
    rw [List.mem_cons, not_or] at hfeed hreturn
    have hrest : StringBody (escape cs) := ih hfeed.2 hreturn.2
    unfold escape
    rw [List.flatMap_cons]
    -- What is not escaped stands for itself, and may do so since it ends no line.
    split
    · exact .escape (by decide) hrest
    · rename_i hquote
      split
      · exact .escape (by decide) hrest
      · rename_i hslash
        split
        · exact .escape (by decide) hrest
        · exact .plain hquote hslash (Ne.symm hfeed.1) (Ne.symm hreturn.1) hrest

theorem isString_quoted_iff : IsString (quoted s) ↔ Unbroken (quoted s) := by
  have htext : (quoted s).toList = '"' :: escape s.toList ++ ['"'] := String.toList_ofList
  constructor
  · rintro ⟨body, hbody, h⟩
    obtain ⟨hfeed, hreturn⟩ := h.not_mem
    unfold Unbroken
    rw [hbody]
    simp [hfeed, hreturn]
  · intro h
    obtain ⟨hfeed, hreturn⟩ := unbroken_quoted_iff.mp h
    exact ⟨escape s.toList, htext, stringBody_escape hfeed hreturn⟩

end Quoting

section Descriptions

variable {doc : Option Doc} {text : String}

theorem mem_singleLine_iff {c : Char} (hblank : c ≠ ' ') :
    c ∈ (singleLine text).toList ↔ ∃ l ∈ Text.lines text, c ∈ l.toList := by
  unfold singleLine
  rw [String.toList_intercalate, show " ".toList = [' '] from rfl, Text.mem_intercalate_iff hblank]
  simp

/-- What is left on one line has no line feed, and a carriage return only if one stands alone. -/
theorem unbroken_singleLine_iff :
    Unbroken (singleLine text) ↔ Text.loneReturn text.toList = false := by
  have hfeed : '\n' ∉ (singleLine text).toList := by
    rw [mem_singleLine_iff (by decide)]
    rintro ⟨l, hl, hmem⟩
    exact Text.not_mem_of_mem_lines hl hmem
  unfold Unbroken
  rw [and_iff_right hfeed, mem_singleLine_iff (by decide), Text.exists_return_lines_iff,
    Bool.not_eq_true]

theorem unbroken_append_iff {a b : String} : Unbroken (a ++ b) ↔ Unbroken a ∧ Unbroken b := by
  unfold Unbroken
  rw [String.toList_append, List.mem_append, List.mem_append]
  tauto

/-- A description is on one line unless its text has a carriage return that ends no line. -/
theorem description_unbroken_iff :
    (∀ s ∈ description doc, Unbroken s) ↔
      ∀ text ∈ docText doc .graphql, Text.loneReturn text.toList = false := by
  unfold description
  cases docText doc .graphql with
  | none => exact ⟨nofun, nofun⟩
  | some text => simpa using unbroken_singleLine_iff

/-- What is added to the description of a choice breaks no line. -/
theorem variant_unbroken_iff :
    (∀ s ∈ (description doc).map (· ++ " (Input variant with @oneOf)"), Unbroken s) ↔
      ∀ s ∈ description doc, Unbroken s := by
  have hadded : Unbroken " (Input variant with @oneOf)" := by decide
  cases description doc with
  | none => exact ⟨nofun, nofun⟩
  | some s => simp [unbroken_append_iff, hadded]

end Descriptions

def Origin.doc : Origin → Option Doc
  | .generated => none
  | .enum e => e.doc
  | .type t _ => t.doc
  | .union u _ => u.doc

theorem Origin.documentation_unbroken_iff (o : Origin) :
    (∀ s ∈ o.documentation, Unbroken s) ↔
      ∀ text ∈ docText o.doc .graphql, Text.loneReturn text.toList = false := by
  cases o with
  | generated => exact ⟨nofun, nofun⟩
  | enum e => exact description_unbroken_iff
  | type t d => exact description_unbroken_iff
  | union u d =>
    cases d with
    | output => exact description_unbroken_iff
    | input => exact variant_unbroken_iff.trans description_unbroken_iff

/-- The definitions of a model have the documentation of its declarations. -/
theorem forall_declaredOrigins_doc_iff (m : Model) (usage : UsageMap) (P : Option Doc → Prop) :
    (∀ o ∈ declaredOrigins m usage, P o.doc) ↔
      ∀ doc ∈ m.enums.map (·.doc) ++ m.types.map (·.doc) ++ m.unions.map (·.doc), P doc := by
  have htype (t : ObjectType) : (∀ o ∈ typeOrigins usage t, P o.doc) ↔ P t.doc := by
    unfold typeOrigins
    split <;> simp [Origin.doc]
  have hunion (u : UnionType) :
      (∀ o ∈ [Origin.union u .output, .union u .input], P o.doc) ↔ P u.doc := by
    simp [Origin.doc]
  unfold declaredOrigins
  simp only [List.forall_mem_append, List.forall_mem_map, List.forall_mem_flatMap, htype, hunion]
  rfl

theorem declared_unbroken_iff (m : Model) (usage : UsageMap) :
    (∀ s ∈ (declaredOrigins m usage).filterMap Origin.documentation, Unbroken s) ↔
      ∀ text ∈ m.docTexts .graphql, Text.loneReturn text.toList = false :=
  calc (∀ s ∈ (declaredOrigins m usage).filterMap Origin.documentation, Unbroken s)
      ↔ ∀ o ∈ declaredOrigins m usage, ∀ s ∈ o.documentation, Unbroken s := List.forall_mem_filterMap
    _ ↔ ∀ o ∈ declaredOrigins m usage, ∀ text ∈ docText o.doc .graphql,
          Text.loneReturn text.toList = false :=
        forall₂_congr fun o _ => o.documentation_unbroken_iff
    _ ↔ ∀ doc ∈ m.enums.map (·.doc) ++ m.types.map (·.doc) ++ m.unions.map (·.doc),
          ∀ text ∈ docText doc .graphql, Text.loneReturn text.toList = false :=
        forall_declaredOrigins_doc_iff m usage fun doc =>
          ∀ text ∈ docText doc .graphql, Text.loneReturn text.toList = false
    _ ↔ ∀ text ∈ m.docTexts .graphql, Text.loneReturn text.toList = false :=
        List.forall_mem_filterMap.symm

/-- A document that can be made is its spans, and its literals are those of the model. -/
theorem spans_of_render {m : Model} {table : SymbolTable} {r : Rendered}
    (h : render m table = .ok r) :
    ∃ p spans, Parts.Of m table p ∧
      spans = r.document.spans (p.origins m (.classify m table .graphql)) ∧
      written spans = r.document.render ∧
      literals .documentation spans =
        (declaredOrigins m (.classify m table .graphql)).filterMap Origin.documentation ∧
      literals .reason spans =
        m.types.flatMap fun t => (t.includedFields .graphql).filterMap Field.reason? := by
  obtain ⟨-, p, hp, -, hdefinitions⟩ := render_eq_ok h
  have hmakes := hp.makes
  rw [← hdefinitions] at hmakes
  obtain ⟨hwritten, hdocumentation, hreasons⟩ := r.document.spans_of_makes hmakes
  rw [p.documentation_origins] at hdocumentation
  rw [p.reasons_origins] at hreasons
  exact ⟨p, _, hp, rfl, hwritten, hdocumentation, hreasons⟩

/-- A document is code with literals between, and those for documentation and reasons come from the
declarations and from the fields that are not left out. None of them has a line terminator, so that all
are well-formed, exactly if every carriage return in a documentation is followed by a line feed and no
reason has a line terminator. -/
theorem render_literals_iff (m : Model) (table : SymbolTable) (r : Rendered)
    (h : render m table = .ok r) :
    ∃ p spans, Parts.Of m table p ∧
      spans = r.document.spans (p.origins m (.classify m table .graphql)) ∧
      written spans = r.document.render ∧
      literals .documentation spans =
        (declaredOrigins m (.classify m table .graphql)).filterMap Origin.documentation ∧
      literals .reason spans =
        (m.types.flatMap fun t => (t.includedFields .graphql).filterMap Field.reason?) ∧
      (∀ s ∈ literals .documentation spans ++ literals .reason spans,
        (IsString (quoted s) ↔ Unbroken (quoted s))) ∧
      ((∀ s ∈ literals .documentation spans ++ literals .reason spans, Unbroken (quoted s)) ↔
        (∀ text ∈ m.docTexts .graphql, Text.loneReturn text.toList = false) ∧
          ∀ t ∈ m.types, ∀ f ∈ t.includedFields .graphql, ∀ reason ∈ f.reason?, Unbroken reason) := by
  obtain ⟨p, spans, hp, hspans, hwritten, hdocumentation, hreasons⟩ := spans_of_render h
  refine ⟨p, spans, hp, hspans, hwritten, hdocumentation, hreasons, fun _ _ => isString_quoted_iff, ?_⟩
  have hreason : (∀ s ∈ literals .reason spans, Unbroken s) ↔
      ∀ t ∈ m.types, ∀ f ∈ t.includedFields .graphql, ∀ reason ∈ f.reason?, Unbroken reason := by
    simp only [hreasons, List.forall_mem_flatMap, List.forall_mem_filterMap, Option.mem_def]
  simp only [unbroken_quoted_iff]
  rw [List.forall_mem_append, hreason, hdocumentation, declared_unbroken_iff]

def parcels : Model :=
  -- Documentation of several lines, also with carriage returns before the line feeds, texts that
  -- have to be escaped, and a field that is left out with a reason of two lines.
  { ns := "post"
    enums := [{ name := "Size", ns := "post", doc := some { general := some "Small\r\nor large.\n" }
                members := [{ name := "SMALL" }, { name := "LARGE" }] }]
    types :=
      [{ name := "Parcel", ns := "post"
         doc := some { general := some "Sent\rby post.", specific := ⟨none, some "Sent by \"post\".", none⟩ }
         fields :=
          [{ name := "weight", type := .named "int32" false
             deprecated := some { reason := some "in\tgrams, see \\weight" } },
           { name := "size", type := .named "Size" false },
           { name := "draft", type := .named "bool" false, excludeFrom := [.graphql]
             deprecated := some { reason := some "never\nsent" } }] },
       { name := "Letter", ns := "post", fields := [{ name := "text", type := .named "string" false }] }]
    unions := [{ name := "Item", ns := "post", doc := some { general := some "What is sent:\n\na thing." }
                 options := ["Parcel", "Letter"] }] }

theorem render_literals_parcels :
    (declaredOrigins parcels (.classify parcels (.of parcels) .graphql)).filterMap
          Origin.documentation =
        ["Small or large.", "Sent by \"post\".", "Sent by \"post\".", "What is sent:  a thing.",
          "What is sent:  a thing. (Input variant with @oneOf)"] ∧
      ∃ r p spans, render parcels (.of parcels) = .ok r ∧ Parts.Of parcels (.of parcels) p ∧
        spans = r.document.spans (p.origins parcels (.classify parcels (.of parcels) .graphql)) ∧
        written spans = r.document.render ∧
        literals .reason spans = ["in\tgrams, see \\weight"] ∧
        ∀ s ∈ literals .documentation spans ++ literals .reason spans,
          Unbroken (quoted s) ∧ IsString (quoted s) := by
  have hdocs : ∀ text ∈ parcels.docTexts .graphql, Text.loneReturn text.toList = false := by
    decide +kernel
  have hreasons : ∀ t ∈ parcels.types, ∀ f ∈ t.includedFields .graphql, ∀ reason ∈ f.reason?,
      Unbroken reason := by
    decide +kernel
  have hok : Succeeds (render parcels (.of parcels)) := by decide +kernel
  obtain ⟨r, hr⟩ := hok
  obtain ⟨p, spans, hp, hspans, hwritten, -, hreason, hlegal, hiff⟩ :=
    render_literals_iff parcels _ r hr
  have hunbroken := hiff.mpr ⟨hdocs, hreasons⟩
  refine ⟨by decide +kernel, r, p, spans, hr, hp, hspans, hwritten, ?_, fun s hs => ?_⟩
  · rw [hreason]
    decide +kernel
  · exact ⟨hunbroken s hs, (hlegal s hs).mpr (hunbroken s hs)⟩

def wares : Model :=
  -- A reason of two lines.
  { ns := "shop"
    types :=
      [{ name := "Item", ns := "shop"
         fields :=
          [{ name := "code", type := .named "string" false
             deprecated := some { reason := some "kept for old readers\nuse sku" } }] }] }

/-- The report has no entry at all, and the literal of the reason goes on behind a line feed. -/
theorem render_literals_wares :
    (validate wares {}).entries = [] ∧
      ∃ r p spans, render wares (.of wares) = .ok r ∧ Parts.Of wares (.of wares) p ∧
        spans = r.document.spans (p.origins wares (.classify wares (.of wares) .graphql)) ∧
        written spans = r.document.render ∧
        "kept for old readers\nuse sku" ∈ literals .reason spans ∧
        '\n' ∈ (quoted "kept for old readers\nuse sku").toList ∧
        ¬ IsString (quoted "kept for old readers\nuse sku") := by
  have hok : Succeeds (render wares (.of wares)) := by decide +kernel
  have hreason : "kept for old readers\nuse sku" ∈
      wares.types.flatMap fun t => (t.includedFields .graphql).filterMap Field.reason? := by
    decide +kernel
  have hbroken : ¬ Unbroken (quoted "kept for old readers\nuse sku") := by decide +kernel
  obtain ⟨r, hr⟩ := hok
  obtain ⟨p, spans, hp, hspans, hwritten, -, hreasons⟩ := spans_of_render hr
  refine ⟨by decide +kernel, r, p, spans, hr, hp, hspans, hwritten, hreasons ▸ hreason, ?_, ?_⟩
  · decide +kernel
  · exact fun h => hbroken (isString_quoted_iff.mp h)

end Graphql

end Triglot
