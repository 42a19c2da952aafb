import Triglot.Graphql.Build
import Triglot.Proto.Constraint

/-! Quoted texts. Between quotes a backslash takes the character behind it, so a quote closes a text only
if no such backslash stands before it. Escaping leaves no other quote: whatever stands in a text and
whatever follows it, the reader stops at the quote that was put behind it, and has the text. -/
namespace Triglot

namespace Text

/-- Reads up to the quote that closes, told with what follows it. A backslash takes the next character,
and `letter` tells what this stands for. -/
def readBody (letter : Char → Char) : List Char → Option (List Char × List Char)
  | [] => none
  | c :: cs =>
    if c = '"' then some ([], cs)
    else if c = '\\' then
      match cs with
      | [] => none
      | d :: cs => (readBody letter cs).map fun p => (letter d :: p.1, p.2)
    else (readBody letter cs).map fun p => (c :: p.1, p.2)

def readQuoted (letter : Char → Char) (text : String) : Option (String × String) :=
  match text.toList with
  | '"' :: cs => (readBody letter cs).map fun p => (String.ofList p.1, String.ofList p.2)
  | _ => none

variable {letter : Char → Char} {code : Char → List Char}

/-- Every character is written as itself, if it is neither a quote nor a backslash, or as a backslash and
a letter that stands for it. -/
def Escapes (letter : Char → Char) (code : Char → List Char) : Prop :=
  ∀ c, (code c = [c] ∧ c ≠ '"' ∧ c ≠ '\\') ∨ ∃ d, code c = ['\\', d] ∧ letter d = c

theorem readBody_quote (rest : List Char) : readBody letter ('"' :: rest) = some ([], rest) := by
  unfold readBody
  exact if_pos rfl

theorem readBody_escaped (d : Char) (cs : List Char) : readBody letter ('\\' :: d :: cs) =
    (readBody letter cs).map fun p => (letter d :: p.1, p.2) := by
  rw [readBody.eq_def]
  exact if_neg (by decide)

theorem readBody_plain {c : Char} (hquote : c ≠ '"') (hslash : c ≠ '\\') (cs : List Char) :
    readBody letter (c :: cs) = (readBody letter cs).map fun p => (c :: p.1, p.2) := by
  rw [readBody.eq_def]
  exact (if_neg hquote).trans (if_neg hslash)

/-- What is escaped is read back up to the quote that closes, whatever follows it. -/
theorem readBody_flatMap (h : Escapes letter code) (cs rest : List Char) :
    readBody letter (cs.flatMap code ++ '"' :: rest) = some (cs, rest) := by
  induction cs with
  | nil => exact readBody_quote rest
  | cons c cs ih =>
    rw [List.flatMap_cons, List.append_assoc]
    -- Either way the reader takes all that one character became, so it never stops at an escaped quote.
    rcases h c with ⟨hcode, hquote, hslash⟩ | ⟨d, hcode, rfl⟩
    · rw [hcode, List.singleton_append, readBody_plain hquote hslash, ih, Option.map_some]
    · rw [hcode, List.cons_append, List.singleton_append, readBody_escaped, ih, Option.map_some]

/-- A text between quotes, each of its characters escaped, is read back up to the last quote. -/
theorem readQuoted_flatMap (h : Escapes letter code) (s rest : String) :
    readQuoted letter (String.ofList ('"' :: s.toList.flatMap code ++ ['"']) ++ rest) =
      some (s, rest) := by
  have htext : (String.ofList ('"' :: s.toList.flatMap code ++ ['"']) ++ rest).toList =
      '"' :: (s.toList.flatMap code ++ '"' :: rest.toList) := by
    simp [String.toList_append]
  unfold readQuoted
  rw [htext]
  simp [readBody_flatMap h]

def plainLetter (c : Char) : Char := c

def tabLetter (c : Char) : Char := if c = 't' then '\t' else c

end Text

open Text

theorem Proto.readQuoted_literal (s rest : String) :
    readQuoted plainLetter (Proto.literal s ++ rest) = some (s, rest) := by
  apply readQuoted_flatMap
  intro c
  by_cases hslash : c = '\\'
  · exact .inr ⟨'\\', if_pos hslash, hslash.symm⟩
  · by_cases hquote : c = '"'
    · exact .inr ⟨'"', by simp [hquote], hquote.symm⟩
    · exact .inl ⟨by simp [hslash, hquote], hquote, hslash⟩

theorem Graphql.readQuoted_quoted (s rest : String) :
    readQuoted tabLetter (Graphql.quoted s ++ rest) = some (s, rest) := by
  apply readQuoted_flatMap
  intro c
  by_cases hquote : c = '"'
  · exact .inr ⟨'"', if_pos hquote, hquote.symm⟩
  · by_cases hslash : c = '\\'
    · exact .inr ⟨'\\', by simp [hslash], hslash.symm⟩
    · by_cases htab : c = '\t'
      · exact .inr ⟨'t', by simp [htab], htab.symm⟩
      · exact .inl ⟨by simp [hquote, hslash, htab], hquote, hslash⟩

/-- Escaping in one pass is doubling the backslashes first and putting one before each quote then. -/
theorem Proto.literal_eq_replaceChar (s : String) : Proto.literal s =
    "\"" ++ replaceChar '"' "\\\"" (replaceChar '\\' "\\\\" s) ++ "\"" := by
  -- The second pass finds no quote in what the first one wrote for a backslash.
  have hchar (c : Char) :
      (if c = '\\' then "\\\\".toList else [c]).flatMap
          (fun d => if d = '"' then "\\\"".toList else [d]) =
        if c = '\\' then ['\\', '\\'] else if c = '"' then ['\\', '"'] else [c] := by
    by_cases hslash : c = '\\' <;> simp [hslash]
  apply String.toList_inj.mp
  simp only [Proto.literal, Proto.escape, replaceChar, String.toList_append, String.toList_ofList,
    List.flatMap_assoc, hchar]
  rfl

/-- Whatever stands in a text and whatever follows it, reading stops at the quote behind it and gives the
text: for the literals of Protocol Buffers, where backslashes are doubled before quotes get one, and a
backslash takes the next character; and for those of GraphQL, where it may also stand for a tab. -/
theorem quoted_texts_read_back (s rest : String) :
    Proto.literal s =
      "\"" ++ replaceChar '"' "\\\"" (replaceChar '\\' "\\\\" s) ++ "\"" ∧
    readQuoted plainLetter (Proto.literal s ++ rest) = some (s, rest) ∧
    readQuoted tabLetter (Graphql.quoted s ++ rest) = some (s, rest) :=
  ⟨Proto.literal_eq_replaceChar s, Proto.readQuoted_literal s rest, Graphql.readQuoted_quoted s rest⟩

end Triglot
