import Triglot.Text.Basic
import Triglot.Text.CaseTable

/-! Full case mapping: one character may become several, and a capital sigma at the end of a word
takes its final form. -/
namespace Triglot.Text

def CaseRun.shifted? (r : CaseRun) (n : Nat) : Option Nat :=
  if r.first ≤ n && n ≤ r.last && (n - r.first) % r.step == 0 then
    some (Int.toNat (n + r.shift))
  else none

/-- The mapping of one character: an expansion if there is one, else its run, else itself. -/
def mapCase (expansions : List (Nat × List Nat)) (runs : List CaseRun) (c : Char) : List Char :=
  match expansions.find? (·.1 == c.toNat) with
  | some (_, cs) => cs.map Char.ofNat
  | none =>
    match runs.findSome? (·.shifted? c.toNat) with
    | some n => [Char.ofNat n]
    | none => [c]

def lowerChar : Char → List Char := mapCase lowerExpansions lowerRuns

def upperChar : Char → List Char := mapCase upperExpansions upperRuns

/-- Whether the first character that is not case-ignorable has a case. -/
def meetsCased (cs : List Char) : Bool :=
  match cs.dropWhile (inRanges caseIgnorableRanges) with
  | [] => false
  | c :: _ => inRanges casedRanges c

/-- Lower case, given the characters already passed, last first. -/
def lowerAfter (passed : List Char) : List Char → List Char
  | [] => []
  | c :: cs =>
    let out :=
      if c = 'Σ' then (if meetsCased passed && !meetsCased cs then ['ς'] else ['σ'])
      else lowerChar c
    out ++ lowerAfter (c :: passed) cs

def lower (s : String) : String :=
  String.ofList (lowerAfter [] s.toList)

def upper (s : String) : String :=
  String.ofList (s.toList.flatMap upperChar)

/-- Lower case on the first character only. -/
def lowerFirst (s : String) : String :=
  match s.toList with
  | [] => ""
  | c :: cs => String.ofList (lowerChar c ++ cs)

/-- Upper case on the first character only. -/
def upperFirst (s : String) : String :=
  match s.toList with
  | [] => ""
  | c :: cs => String.ofList (upperChar c ++ cs)

end Triglot.Text
