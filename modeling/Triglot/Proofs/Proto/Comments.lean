import Triglot.Proofs.FieldNumbers
import Triglot.Proofs.Proto.Closure
import Triglot.Proofs.Text.Pieces
import Triglot.Proto.Render

/-! Comments of messages. Documentation is cut into lines and each of them becomes a comment. The notes on
versions are not cut: a line feed inside one of them starts a line of the file, which is a comment only
if the text makes it one. -/
namespace Triglot

def Field.versionTexts (f : Field) : List String :=
  (match f.deprecated with
    | some d => d.since.toList ++ d.removed.toList ++ d.reason.toList
    | none => []) ++ f.since.toList

namespace Proto

def physicalLines (text : String) : List String := (Text.pieces '\n' text.toList).map String.ofList

def isComment (line : String) : Bool := Text.startsWith (Text.trimStart line) "//"

def StaysComment (text : String) : Prop := ∀ line ∈ physicalLines text, isComment line = true

def ContinuesAsComment (text : String) : Prop := ∀ line ∈ (physicalLines text).tail, isComment line = true

instance : DecidablePred ContinuesAsComment :=
  fun text => inferInstanceAs (Decidable (∀ line ∈ (physicalLines text).tail, isComment line = true))

inductive Purpose where
  | comment
  | code
deriving DecidableEq, Repr

def MessageBlock.texts (b : MessageBlock) : List (Purpose × String) :=
  let m := margin.push
  b.comments.map (.comment, ·) ++ [(.code, "message " ++ b.name ++ " \x7b")] ++
    (b.lines.flatMap fun l => (commentText m l.comments).map (.comment, ·) ++ [(.code, m.line l.text)]) ++
    [(.code, "\x7d")]

def MessageBlock.purposes (b : MessageBlock) : List (Purpose × String) :=
  b.texts.flatMap fun e => (physicalLines e.2).map (e.1, ·)

def messageComments (t : ObjectType) : List String :=
  docComments t.doc ++ (t.includedFields .proto).flatMap fun f =>
    commentText margin.push (docComments f.doc ++ versionComments f)

section Lines

variable {lead rest line text : String}

theorem isComment_iff : isComment line = true ↔ ['/', '/'] <+: line.toList.dropWhile Text.isBlank := by
  unfold isComment Text.startsWith Text.trimStart
  rw [List.isPrefixOf_iff_prefix, String.toList_ofList, String.toList_ofList]

theorem isComment_append (h : isComment lead = true) (rest : String) :
    isComment (lead ++ rest) = true := by
  have hslashes := isComment_iff.mp h
  have hne : lead.toList.dropWhile Text.isBlank ≠ [] := by
    intro hnil
    rw [hnil] at hslashes
    exact absurd (List.prefix_nil.mp hslashes) (by decide)
  apply isComment_iff.mpr
  rw [String.toList_append, List.dropWhile_append, if_neg (mt List.isEmpty_iff.mp hne)]
  exact hslashes.trans (List.prefix_append _ _)

/-- A text that starts neither with a blank nor with a slash makes no comment of what it follows. -/
theorem isComment_append_iff {c : Char} {cs : List Char} (hrest : rest.toList = c :: cs)
    (hblank : Text.isBlank c = false) (hslash : c ≠ '/') :
    isComment (line ++ rest) = true ↔ isComment line = true := by
  refine ⟨fun h => ?_, fun h => isComment_append h rest⟩
  have hslashes := isComment_iff.mp h
  rw [String.toList_append, hrest, List.dropWhile_append] at hslashes
  apply isComment_iff.mpr
  cases hline : line.toList.dropWhile Text.isBlank with
  | nil =>
    rw [hline, if_pos List.isEmpty_nil, List.dropWhile_cons_of_neg (by simp [hblank])] at hslashes
    exact absurd (List.cons_prefix_cons.mp hslashes).1.symm hslash
  | cons d ds =>
    rw [hline, if_neg (by simp), List.cons_append] at hslashes
    obtain ⟨hd, hds⟩ := List.cons_prefix_cons.mp hslashes
    cases ds with
    | nil => exact absurd (List.cons_prefix_cons.mp hds).1.symm hslash
    | cons e es =>
      obtain ⟨he, -⟩ := List.cons_prefix_cons.mp hds
      exact ⟨es, by rw [← hd, ← he, List.cons_append, List.cons_append, List.nil_append]⟩

theorem isComment_line (h : isComment text = true) : isComment (margin.push.line text) = true := by
  have hindent : ∀ c ∈ margin.push.indent.toList, Text.isBlank c = true := by
    intro c hc
    rw [Margin.indent, String.toList_ofList] at hc
    rw [List.eq_of_mem_replicate hc]
    decide
  apply isComment_iff.mpr
  unfold Margin.line
  rw [String.toList_append, List.dropWhile_append_of_pos hindent]
  exact isComment_iff.mp h

theorem physicalLines_joinLines {texts : List String} (h : texts ≠ []) :
    physicalLines (joinLines texts) = texts.flatMap physicalLines := by
  have hne : texts.map String.toList ≠ [] := fun hn => h (List.map_eq_nil_iff.mp hn)
  unfold physicalLines joinLines
  rw [String.toList_intercalate, show "\n".toList = ['\n'] from rfl, Text.pieces_intercalate _ hne,
    List.flatMap_map, List.map_flatMap]

theorem physicalLines_of_not_mem (h : '\n' ∉ text.toList) : physicalLines text = [text] := by
  unfold physicalLines
  rw [Text.pieces_of_not_mem h, List.map_singleton, String.ofList_toList]

/-- A lead without a line feed goes to the first line of the text behind it. -/
theorem physicalLines_append (hlead : '\n' ∉ lead.toList) (rest : String) :
    ∃ first, physicalLines (lead ++ rest) = (lead ++ first) :: (physicalLines rest).tail := by
  unfold physicalLines
  cases hps : Text.pieces '\n' rest.toList with
  | nil => exact absurd hps (Text.pieces_ne_nil _ _)
  | cons p ps =>
    refine ⟨String.ofList p, ?_⟩
    rw [String.toList_append, Text.pieces_append_of_not_mem hlead hps, List.map_cons,
      String.ofList_append, String.ofList_toList]
    rfl

/-- Behind the slashes, a text stays a comment if it goes on as one after each line feed. -/
theorem staysComment_append_iff (hlead : '\n' ∉ lead.toList) (hc : isComment lead = true) :
    StaysComment (lead ++ rest) ↔ ContinuesAsComment rest := by
  obtain ⟨first, hlines⟩ := physicalLines_append hlead rest
  unfold StaysComment ContinuesAsComment
  rw [hlines, List.forall_mem_cons]
  exact and_iff_right (isComment_append hc first)

theorem staysComment_of_not_mem (h : '\n' ∉ text.toList) (hc : isComment text = true) :
    StaysComment text := by
  unfold StaysComment
  rw [physicalLines_of_not_mem h, List.forall_mem_singleton]
  exact hc

theorem continuesAsComment_append_iff (hlead : '\n' ∉ lead.toList) :
    ContinuesAsComment (lead ++ rest) ↔ ContinuesAsComment rest := by
  obtain ⟨first, hlines⟩ := physicalLines_append hlead rest
  unfold ContinuesAsComment
  rw [hlines, List.tail_cons]

/-- Two texts with a part between them that has no line feed and makes no comment. The last line of the
first text goes on in that part and is judged by how it starts. -/
theorem continuesAsComment_between_iff {a b mid : String} {c : Char} {cs : List Char}
    (hmid : mid.toList = c :: cs) (hline : '\n' ∉ mid.toList) (hblank : Text.isBlank c = false)
    (hslash : c ≠ '/') :
    ContinuesAsComment (a ++ (mid ++ b)) ↔ ContinuesAsComment a ∧ ContinuesAsComment b := by
  obtain ⟨ps, p, hps⟩ : ∃ ps p, Text.pieces '\n' a.toList = ps ++ [p] :=
    ⟨_, _, (List.dropLast_concat_getLast (Text.pieces_ne_nil _ _)).symm⟩
  obtain ⟨q, qs, hqs⟩ : ∃ q qs, Text.pieces '\n' b.toList = q :: qs :=
    List.exists_cons_of_ne_nil (Text.pieces_ne_nil _ _)
  have hwhole : Text.pieces '\n' (a ++ (mid ++ b)).toList = ps ++ (p ++ (mid.toList ++ q)) :: qs := by
    rw [String.toList_append, String.toList_append]
    exact Text.pieces_append_of_eq hps (Text.pieces_append_of_not_mem hline hqs)
  unfold ContinuesAsComment physicalLines
  rw [hwhole, hps, hqs]
  -- Only a first text with a line feed has a last line that is judged.
  cases ps with
  | nil => simp
  | cons first ps =>
    have hrest : (mid ++ String.ofList q).toList = c :: (cs ++ q) := by
      rw [String.toList_append, String.toList_ofList, hmid, List.cons_append]
    have hjoint : isComment (String.ofList p ++ (mid ++ String.ofList q)) =
        isComment (String.ofList p) :=
      Bool.eq_iff_iff.mpr (isComment_append_iff hrest hblank hslash)
    simp [hjoint, or_imp, forall_and, and_assoc]

end Lines

section Texts

/-- Each comment of a documentation is one line. -/
theorem docComments_line {doc : Option Doc} {c : String} (h : c ∈ docComments doc) :
    '\n' ∉ c.toList ∧ isComment c = true := by
  unfold docComments at h
  split at h
  · rename_i text _
    obtain ⟨l, hl, rfl⟩ := List.mem_map.mp h
    have hparts : ("// " ++ l).toList = ['/', '/'] ++ (' ' :: l.toList) := String.toList_append
    have hslashes : Text.dropTailWhile Text.isBlank ['/', '/'] = ['/', '/'] := by decide
    have htrimmed : (Text.trimEnd ("// " ++ l)).toList =
        ['/', '/'] ++ Text.dropTailWhile Text.isBlank (' ' :: l.toList) := by
      rw [Text.trimEnd, String.toList_ofList, hparts, Text.dropTailWhile_append hslashes]
    constructor
    · intro hmem
      have hl' := Text.not_mem_of_mem_lines hl
      rw [htrimmed] at hmem
      rcases List.mem_append.mp hmem with hmem | hmem
      · exact absurd hmem (by decide)
      · rcases List.mem_cons.mp ((Text.dropTailWhile_sublist _ _).mem hmem) with e | hmem
        · exact absurd e (by decide)
        · exact hl' hmem
    · apply isComment_iff.mpr
      rw [htrimmed]
      exact List.prefix_append _ _
  · cases h

theorem staysComment_line_iff {lead rest : String} (hlead : '\n' ∉ lead.toList)
    (hc : isComment lead = true) :
    StaysComment (margin.push.line (lead ++ rest)) ↔ ContinuesAsComment rest := by
  have hindent : '\n' ∉ margin.push.indent.toList := by decide
  have hline : '\n' ∉ (margin.push.line lead).toList := by
    rw [Margin.line, String.toList_append, List.mem_append]
    exact not_or.mpr ⟨hindent, hlead⟩
  have hparts : margin.push.line (lead ++ rest) = margin.push.line lead ++ rest :=
    (String.append_assoc ..).symm
  rw [hparts]
  exact staysComment_append_iff hline (isComment_line hc)

/-- What is written around the versions of a deprecation has no line feed, so that each of them goes on
by itself. -/
theorem continuesAsComment_versionNote_iff (d : Deprecation) :
    ContinuesAsComment d.versionNote ↔
      ∀ s ∈ d.since.toList ++ d.removed.toList, ContinuesAsComment s := by
  have hopen : '\n' ∉ " (since ".toList := by decide
  have hremoved : '\n' ∉ " - will be removed in ".toList := by decide
  unfold Deprecation.versionNote
  cases d.since with
  | none =>
    cases d.removed with
    | none => simp [show ContinuesAsComment "" by decide]
    | some r =>
      calc ContinuesAsComment ("" ++ (" - will be removed in " ++ r))
          ↔ ContinuesAsComment (" - will be removed in " ++ r) := by rw [String.empty_append]
        _ ↔ ContinuesAsComment r := continuesAsComment_append_iff hremoved
        _ ↔ ∀ s ∈ [r], ContinuesAsComment s := List.forall_mem_singleton.symm
  | some v =>
    cases d.removed with
    | none =>
      calc ContinuesAsComment (" (since " ++ v ++ ")" ++ "")
          ↔ ContinuesAsComment (" (since " ++ (v ++ (")" ++ ""))) := by simp only [String.append_assoc]
        _ ↔ ContinuesAsComment (v ++ (")" ++ "")) := continuesAsComment_append_iff hopen
        _ ↔ ContinuesAsComment v ∧ ContinuesAsComment "" :=
          continuesAsComment_between_iff (by rfl) (by decide) (by decide) (by decide)
        _ ↔ ∀ s ∈ [v], ContinuesAsComment s := by simp [show ContinuesAsComment "" by decide]
    | some r =>
      calc ContinuesAsComment (" (since " ++ v ++ ")" ++ (" - will be removed in " ++ r))
          ↔ ContinuesAsComment (" (since " ++ (v ++ (") - will be removed in " ++ r))) := by
            simp only [String.append_assoc, show ") - will be removed in " =
              ")" ++ " - will be removed in " from rfl]
        _ ↔ ContinuesAsComment (v ++ (") - will be removed in " ++ r)) :=
          continuesAsComment_append_iff hopen
        _ ↔ ContinuesAsComment v ∧ ContinuesAsComment r :=
          continuesAsComment_between_iff (by rfl) (by decide) (by decide) (by decide)
        _ ↔ ∀ s ∈ [v, r], ContinuesAsComment s := by simp

/-- A note on a version stays a comment exactly if its text goes on as one. -/
theorem versionComments_stay_iff (f : Field) :
    (∀ c ∈ versionComments f, StaysComment (margin.push.line c)) ↔
      ∀ s ∈ f.versionTexts, ContinuesAsComment s := by
  have hdeprecated (d : Deprecation) :
      StaysComment (margin.push.line ("// DEPRECATED" ++ d.versionNote)) ↔
        ∀ s ∈ d.since.toList ++ d.removed.toList, ContinuesAsComment s :=
    (staysComment_line_iff (by decide) (by decide)).trans (continuesAsComment_versionNote_iff d)
  have hreason (r : String) : StaysComment (margin.push.line ("// " ++ r)) ↔ ContinuesAsComment r :=
    staysComment_line_iff (by decide) (by decide)
  have hsince (v : String) :
      StaysComment (margin.push.line ("// Added in version " ++ v)) ↔ ContinuesAsComment v :=
    staysComment_line_iff (by decide) (by decide)
  unfold versionComments Field.versionTexts
  rw [List.forall_mem_append, List.forall_mem_append]
  apply and_congr
  · cases f.deprecated with
    | none => exact ⟨nofun, nofun⟩
    | some d =>
      dsimp only
      rw [List.forall_mem_cons, List.forall_mem_append, hdeprecated d]
      apply and_congr_right'
      cases d.reason with
      | none => exact ⟨nofun, nofun⟩
      | some r => simp [hreason r]
  · cases f.since with
    | none => exact ⟨nofun, nofun⟩
    | some v => simp [hsince v]

/-- Documentation stays a comment in any case, so that all depends on the texts on versions. -/
theorem messageComments_stay_iff (t : ObjectType) :
    (∀ c ∈ messageComments t, StaysComment c) ↔
      ∀ f ∈ t.includedFields .proto, ∀ s ∈ f.versionTexts, ContinuesAsComment s := by
  have hdoc {doc : Option Doc} : ∀ c ∈ docComments doc, StaysComment c := by
    intro c hc
    obtain ⟨hline, hcomment⟩ := docComments_line hc
    exact staysComment_of_not_mem hline hcomment
  have hfield {doc : Option Doc} : ∀ c ∈ docComments doc, StaysComment (margin.push.line c) := by
    intro c hc
    obtain ⟨hline, hcomment⟩ := docComments_line hc
    rw [← String.append_empty (s := c)]
    exact (staysComment_line_iff hline hcomment).mpr (by decide)
  unfold messageComments commentText
  rw [List.forall_mem_append, and_iff_right hdoc]
  simp only [List.mem_flatMap, List.mem_map, List.mem_append]
  constructor
  · intro h f hf
    apply (versionComments_stay_iff f).mp
    intro c hc
    exact h _ ⟨f, hf, c, .inr hc, rfl⟩
  · rintro h _ ⟨f, hf, c, hc | hc, rfl⟩
    · exact hfield c hc
    · exact (versionComments_stay_iff f).mpr (h f hf) c hc

end Texts

section Blocks

variable {scope : Scope} {t : ObjectType} {b : MessageBlock}

/-- The lines with their purposes are the lines of the written message. -/
theorem MessageBlock.purposes_lines (b : MessageBlock) :
    b.purposes.map Prod.snd = physicalLines b.render := by
  have htexts : b.render = joinLines (b.texts.map Prod.snd) := by
    simp [MessageBlock.render, MessageBlock.texts, blockLines, List.map_flatMap, Function.comp_def]
  have hne : b.texts.map Prod.snd ≠ [] := by simp [MessageBlock.texts]
  rw [htexts, physicalLines_joinLines hne, MessageBlock.purposes, List.map_flatMap, List.flatMap_map]
  simp [Function.comp_def]

theorem MessageBlock.mem_texts_comment {text : String} :
    (.comment, text) ∈ b.texts ↔
      text ∈ b.comments ∨ ∃ l ∈ b.lines, text ∈ commentText margin.push l.comments := by
  simp [MessageBlock.texts]

theorem comments_of_fieldLine {f : Field} {number : UInt32} {l : FieldLine}
    (h : fieldLine scope f number = .ok l) : l.comments = docComments f.doc ++ versionComments f := by
  obtain ⟨p, _, he⟩ := bind_eq_ok h
  cases he
  rfl

theorem comments_of_messageBlock (h : messageBlock scope t = .ok b) :
    b.comments = docComments t.doc ∧
      b.lines.map (·.comments) =
        (t.includedFields .proto).map fun f => docComments f.doc ++ versionComments f := by
  have hfields : (numberFields t .proto).map Prod.fst = t.includedFields .proto :=
    numberFrom_fields 1 _
  constructor
  · unfold messageBlock at h
    dsimp only at h
    split at h
    · cases h
    · obtain ⟨lines, _, he⟩ := bind_eq_ok h
      cases he
      rfl
  · rw [← hfields, List.map_map]
    exact map_eq_of_mapM (messageBlock_eq_ok h).2 fun _ _ _ hl => comments_of_fieldLine hl

/-- The lines written for comments are those of the documentation and of the notes on versions. -/
theorem mem_purposes_comment_iff (h : messageBlock scope t = .ok b) (line : String) :
    (.comment, line) ∈ b.purposes ↔ ∃ text ∈ messageComments t, line ∈ physicalLines text := by
  obtain ⟨hcomments, hlines⟩ := comments_of_messageBlock h
  have htexts (text : String) : (.comment, text) ∈ b.texts ↔ text ∈ messageComments t := by
    have hfields : (∃ l ∈ b.lines, text ∈ commentText margin.push l.comments) ↔
        ∃ f ∈ t.includedFields .proto,
          text ∈ commentText margin.push (docComments f.doc ++ versionComments f) := by
      have hmem := congrArg (fun comments => ∃ cs ∈ comments, text ∈ commentText margin.push cs) hlines
      simpa using hmem
    rw [MessageBlock.mem_texts_comment, hcomments, hfields, messageComments, List.mem_append,
      List.mem_flatMap]
  unfold MessageBlock.purposes
  simp only [List.mem_flatMap, List.mem_map, Prod.mk.injEq]
  constructor
  · rintro ⟨⟨purpose, text⟩, hmem, _, hline, rfl, rfl⟩
    exact ⟨text, (htexts text).mp hmem, hline⟩
  · rintro ⟨text, hmem, hline⟩
    exact ⟨(.comment, text), (htexts text).mpr hmem, line, hline, rfl, rfl⟩

end Blocks

/-- Each line of a written message belongs to a comment or to the declaration, and those of comments come
from the documentation and the notes on versions. All of them are comments exactly if the texts on
versions go on as comments behind their line feeds. -/
theorem messageBlock_comments_iff (scope : Scope) (t : ObjectType) (b : MessageBlock)
    (h : messageBlock scope t = .ok b) :
    b.purposes.map Prod.snd = physicalLines b.render ∧
      (∀ line, (.comment, line) ∈ b.purposes ↔
        ∃ text ∈ messageComments t, line ∈ physicalLines text) ∧
      ((∀ line, (.comment, line) ∈ b.purposes → isComment line = true) ↔
        ∀ f ∈ t.includedFields .proto, ∀ s ∈ f.versionTexts, ContinuesAsComment s) := by
  refine ⟨b.purposes_lines, mem_purposes_comment_iff h, ?_⟩
  rw [← messageComments_stay_iff]
  constructor
  · intro hall text htext line hline
    apply hall line
    exact (mem_purposes_comment_iff h line).mpr ⟨text, htext, hline⟩
  · intro hstay line hmem
    obtain ⟨text, htext, hline⟩ := (mem_purposes_comment_iff h line).mp hmem
    exact hstay text htext line hline

def receipt : ObjectType :=
  -- Documentation of several lines, a reason that goes on as a comment, and a field that is left
  -- out with a reason that does not.
  { name := "Receipt", ns := "shop"
    doc := some { general := some "What was paid.\n\nreserved 2;\r\n  message Old" }
    fields :=
      [{ name := "total", type := .named "string" false, doc := some { general := some "In cents.\n\n" }
         deprecated := some
          { since := some "2.1", removed := some "3.0"
            reason := some "rounds badly\n    // use `amount`\n// or `parts`" } },
       { name := "amount", type := .named "int64" false, since := some "2.0" },
       { name := "draft", type := .named "bool" false, excludeFrom := [.proto]
         deprecated := some { reason := some "never\nreserved 7;" } }] }

def receipts : Model := { ns := "shop", types := [receipt] }

theorem messageBlock_comments_receipt :
    (messageComments receipt).flatMap physicalLines =
        ["// What was paid.", "//", "// reserved 2;", "//   message Old", "  // In cents.", "  //",
          "  // DEPRECATED (since 2.1) - will be removed in 3.0", "  // rounds badly",
          "    // use `amount`", "// or `parts`", "  // Added in version 2.0"] ∧
      ∃ b, messageBlock (.flat receipts (.of receipts) .proto) receipt = .ok b ∧
        b.purposes.map Prod.snd = physicalLines b.render ∧
        ∀ line, (.comment, line) ∈ b.purposes → isComment line = true := by
  have hcontinues : ∀ f ∈ receipt.includedFields .proto, ∀ s ∈ f.versionTexts, ContinuesAsComment s := by
    decide +kernel
  have hok : Succeeds (messageBlock (.flat receipts (.of receipts) .proto) receipt) := by
    decide +kernel
  obtain ⟨b, hb⟩ := hok
  obtain ⟨hpurposes, -, hiff⟩ := messageBlock_comments_iff _ receipt b hb
  exact ⟨by decide +kernel, b, hb, hpurposes, hiff.mpr hcontinues⟩

def sticker : ObjectType :=
  -- A reason of two lines.
  { name := "Sticker", ns := "shop"
    fields :=
      [{ name := "color", type := .named "string" false
         deprecated := some { reason := some "kept for old readers\nreserved 7 to 9;" } }] }

def stickers : Model := { ns := "shop", types := [sticker] }

/-- The report has no entry at all, and the second line of the reason stands in the message without
slashes. -/
theorem messageBlock_comments_sticker :
    (validate stickers {}).entries = [] ∧
      ∃ b, messageBlock (.flat stickers (.of stickers) .proto) sticker = .ok b ∧
        (.comment, "reserved 7 to 9;") ∈ b.purposes ∧
        "reserved 7 to 9;" ∈ physicalLines b.render ∧ isComment "reserved 7 to 9;" = false := by
  have hok : Succeeds (messageBlock (.flat stickers (.of stickers) .proto) sticker) := by
    decide +kernel
  have htext : ∃ text ∈ messageComments sticker, "reserved 7 to 9;" ∈ physicalLines text := by
    decide +kernel
  obtain ⟨b, hb⟩ := hok
  have hmem := (mem_purposes_comment_iff hb _).mpr htext
  refine ⟨by decide +kernel, b, hb, hmem, ?_, by decide⟩
  rw [← b.purposes_lines]
  exact List.mem_map_of_mem hmem

end Proto

end Triglot
