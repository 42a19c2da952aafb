import Triglot.Json.Printer
import Triglot.Yaml.Style

/-! Documents in block form. Mappings are indented by two, lists stand under their key, and a key that
is long or has several lines is marked. -/
namespace Triglot.Yaml

/-- Ends the line unless it has ended. -/
def endLine (cs : List Char) : List Char :=
  match cs.getLast? with
  | some c => if isBreak c then cs else cs ++ ['\n']
  | none => ['\n']

/-- Whether a key stands before its colon on one line. -/
def isSimpleKey (key : String) : Bool :=
  !key.toList.any isBreak && key.utf8ByteSize ≤ 128

/-- The text of a value that is no collection with contents. -/
def leafChars (indent : Nat) : Json → List Char
  | .null => "null".toList
  | .bool true => "true".toList
  | .bool false => "false".toList
  | .number (.whole n) => (toString n).toList
  | .number (.real x) => (NumberLayout.unsigned.render x).toList
  | .string s => scalarChars (indent + 2) s
  | .array _ => ['[', ']']
  | .object _ => ['\x7b', '\x7d']

/-- A key with the mark before its value. -/
def keyChars (indent : Nat) (key : String) : List Char :=
  let chars := scalarChars (indent + 2) key
  if isSimpleKey key then chars ++ [':']
  else '?' :: ' ' :: endLine chars ++ spaces indent ++ [':']

/-- The way to a collection: on the same line after a mark, else on a line of its own. -/
def leadChars (marked : Bool) (indent : Nat) : List Char :=
  if marked then [' '] else '\n' :: spaces indent

/-- The indentation of a list; it has no more than its key. -/
def sequenceIndent (marked : Bool) (indent : Nat) : Nat := if marked then indent + 2 else indent

mutual

/-- The entries of a mapping, the first without its indentation. -/
def mappingChars (indent : Nat) : List (String × Json) → List Char
  | [] => []
  | [(key, value)] => keyChars indent key ++ valueChars (!isSimpleKey key) indent value
  | (key, value) :: rest =>
    keyChars indent key ++ valueChars (!isSimpleKey key) indent value ++ spaces indent ++
      mappingChars indent rest

/-- A value after a simple key, or after a mark. -/
def valueChars (marked : Bool) (indent : Nat) : Json → List Char
  | .object (e :: es) =>
    leadChars marked (indent + 2) ++ mappingChars (indent + 2) (e :: es)
  | .array (v :: vs) =>
    leadChars marked (sequenceIndent marked indent) ++
      sequenceChars (sequenceIndent marked indent) (v :: vs)
  | v => ' ' :: endLine (leafChars indent v)

/-- The items of a list, the first without its indentation. -/
def sequenceChars (indent : Nat) : List Json → List Char
  | [] => []
  | [v] => '-' :: valueChars true indent v
  | v :: vs => '-' :: valueChars true indent v ++ spaces indent ++ sequenceChars indent vs

end

/-- The text of a document. -/
def write : Json → String
  | .object (e :: es) => String.ofList (mappingChars 0 (e :: es))
  | .array (v :: vs) => String.ofList (sequenceChars 0 (v :: vs))
  | v => String.ofList (endLine (leafChars 0 v))

end Triglot.Yaml
