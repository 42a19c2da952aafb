import Triglot.Json.Basic
import Triglot.Yaml.Node

/-! Documents as values. Keys are texts, the last of two equal keys counts, and links are followed
within limits. -/
namespace Triglot.Yaml

/-- The anchored nodes of a document, and how many links may be followed. -/
structure Anchors where
  nodes : List (Nat × Node)
  limit : Nat

namespace Anchors

def of (n : Node) : Anchors := ⟨n.anchored.reverse, 100 * n.size⟩

/-- The node that is meant, with the number of links followed so far. -/
def follow (a : Anchors) (count : Nat) : Node → Except Fault (Node × Nat)
  | .link m number =>
    if a.limit ≤ count then .error ⟨.tooManyRepetitions, none⟩
    else match a.nodes.lookup number with
      | some n => .ok (n, count + 1)
      | none => .error (.near .unknownAnchor m)
  | n => .ok (n, count)

end Anchors

def boolTag : String := "tag:yaml.org,2002:bool"

def intTag : String := "tag:yaml.org,2002:int"

def floatTag : String := "tag:yaml.org,2002:float"

def nullTag : String := "tag:yaml.org,2002:null"

/-- A real number as a value; what is not finite has none. -/
def realValue : Literal.Real → Json
  | .finite x => .real x
  | _ => .null

def plainValue (text : String) : Plain → Except Problem Json
  | .null => .ok .null
  | .bool b => .ok (.bool b)
  | .whole n => .ok (.whole n)
  | .wide => .error .numberOutOfRange
  | .real x => .ok (realValue x)
  | .text => .ok (.string text)

/-- A tag of one's own, which no value fits. -/
def isLocalTag (tag : Option String) : Bool := tag.any fun t => Text.startsWith t "!"

/-- The value of a scalar by its tag; other tags make it a text. -/
def scalarValue (tag : Option String) (text : String) (plain : Bool) : Except Problem Json :=
  match tag with
  | none => if plain then plainValue text (Plain.read text) else .ok (.string text)
  | some t =>
    if Text.startsWith t "!" then .error .taggedValue
    else if t = boolTag then
      match Plain.bool? text with
      | some b => .ok (.bool b)
      | none => .error .taggedValue
    else if t = intTag then
      match (Plain.whole? text.toList).bind Plain.ofWhole? with
      | some p => plainValue text p
      | none => .error .taggedValue
    else if t = floatTag then
      match Plain.real? text with
      | some x => .ok (realValue x)
      | none => .error .taggedValue
    else if t = nullTag then
      if Plain.isNull text then .ok .null else .error .taggedValue
    else .ok (.string text)

def keyText (a : Anchors) (count : Nat) (n : Node) : Except Fault (String × Nat) := do
  match ← a.follow count n with
  | (.scalar _ _ _ text _, count) => pure (text, count)
  | (n, _) => .error (.near .keyNotScalar n.mark)

/-- Runs over a list with the number of links followed. -/
def eachCounted {α β : Type} (f : Nat → α → Except Fault (β × Nat)) (count : Nat) :
    List α → Except Fault (List β × Nat)
  | [] => .ok ([], count)
  | a :: as => do
    let (b, count) ← f count a
    let (bs, count) ← eachCounted f count as
    pure (b :: bs, count)

/-- The value of a scalar at a place. -/
def scalarAt (m : Mark) (tag : Option String) (text : String) (plain : Bool) : Except Fault Json :=
  (scalarValue tag text plain).mapError (.near · m)

/-- The value of a node that may hold some levels of collections. -/
def value (a : Anchors) : (depth : Nat) → (count : Nat) → Node → Except Fault (Json × Nat)
  | 0, count, n => do
    match ← a.follow count n with
    | (.scalar m _ tag text plain, count) => pure (← scalarAt m tag text plain, count)
    | (n, _) => .error (.near .tooDeep n.mark)
  | depth + 1, count, n => do
    match ← a.follow count n with
    | (.scalar m _ tag text plain, count) => pure (← scalarAt m tag text plain, count)
    | (.sequence m _ tag items, count) =>
      if isLocalTag tag then .error (.near .taggedValue m)
      else
        let (vs, count) ← eachCounted (value a depth) count items
        pure (.array vs, count)
    | (.mapping m _ tag entries, count) =>
      if isLocalTag tag then .error (.near .taggedValue m)
      else
        let (es, count) ← eachCounted (fun count (e : Node × Node) => do
          let (key, count) ← keyText a count e.1
          let (v, count) ← value a depth count e.2
          pure ((key, v), count)) count entries
        pure (.ofEntries es, count)
    | (.link m _, _) => .error (.near .unknownAnchor m)

/-- The number of collections around the innermost value. -/
def greatestDepth : Nat := 128

def parse (text : String) : Except Fault Json := do
  let n ← Node.parse text
  pure (← value (Anchors.of n) greatestDepth 0 n).1

end Triglot.Yaml
