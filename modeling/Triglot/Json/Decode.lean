import Triglot.Json.Basic
import Triglot.Text.Shown

/-! Decoding values into typed data. A record is described once by its fields; it is read from an
object, entry by entry, or from a list in the order of the fields. -/
namespace Triglot

/-- What a decoder met, as far as a message tells it. -/
inductive Found where
  | null
  | bool (value : Bool)
  | integer (value : Int)
  | float (value : Binary64)
  | string (value : String)
  | sequence
  | map
deriving DecidableEq, Repr

namespace Found

def of : Json → Found
  | .null => .null
  | .bool b => .bool b
  | .number (.whole n) => .integer n
  | .number (.real x) => .float x
  | .string s => .string s
  | .array _ => .sequence
  | .object _ => .map

def text : Found → String
  | .null => "null"
  | .bool true => "boolean `true`"
  | .bool false => "boolean `false`"
  | .integer n => s!"integer `{n}`"
  | .float x => "floating point `" ++ NumberLayout.signed.render x ++ "`"
  | .string s => "string " ++ Text.shown s
  | .sequence => "sequence"
  | .map => "map"

end Found

inductive DecodeError where
  | wrongType (found : Found) (expected : String)
  | wrongValue (found : Found) (expected : String)
  | wrongLength (length : Nat) (expected : String)
  | missingField (name : String)
  | unknownVariant (name : String) (known : List String)
deriving DecidableEq, Repr

namespace DecodeError

def quotedName (name : String) : String := "`" ++ name ++ "`"

def variantList : List String → String
  | [] => "there are no variants"
  | [a] => "expected " ++ quotedName a
  | [a, b] => "expected " ++ quotedName a ++ " or " ++ quotedName b
  | names => "expected one of " ++ ", ".intercalate (names.map quotedName)

def message : DecodeError → String
  | .wrongType found expected => "invalid type: " ++ found.text ++ ", expected " ++ expected
  | .wrongValue found expected => "invalid value: " ++ found.text ++ ", expected " ++ expected
  | .wrongLength n expected => s!"invalid length {n}, expected {expected}"
  | .missingField name => "missing field " ++ quotedName name
  | .unknownVariant name known => "unknown variant " ++ quotedName name ++ ", " ++ variantList known

end DecodeError

abbrev Decoder (α : Type) := Json → Except DecodeError α

namespace Decoder

def string : Decoder String
  | .string s => .ok s
  | v => .error (.wrongType (.of v) "a string")

def bool : Decoder Bool
  | .bool b => .ok b
  | v => .error (.wrongType (.of v) "a boolean")

/-- A whole number between two bounds. -/
def between (low high : Int) (expected : String) : Decoder Int
  | .number (.whole n) =>
    if low ≤ n ∧ n ≤ high then .ok n else .error (.wrongValue (.integer n) expected)
  | v => .error (.wrongType (.of v) expected)

def uint16 : Decoder UInt16 := fun v =>
  (between 0 (UInt16.size - 1) "u16" v).map fun n => UInt16.ofNat n.toNat

def uint32 : Decoder UInt32 := fun v =>
  (between 0 (UInt32.size - 1) "u32" v).map fun n => UInt32.ofNat n.toNat

def uint64 : Decoder UInt64 := fun v =>
  (between 0 (UInt64.size - 1) "u64" v).map fun n => UInt64.ofNat n.toNat

def int32 : Decoder Int32 := fun v =>
  (between Int32.minValue.toInt Int32.maxValue.toInt "i32" v).map Int32.ofInt

/-- Any number, rounded to binary64. -/
def real : Decoder Binary64
  | .number (.whole n) => .ok (Binary64.ofInt n)
  | .number (.real x) => .ok x
  | v => .error (.wrongType (.of v) "f64")

/-- Null is the absent value. -/
def option {α : Type} (d : Decoder α) : Decoder (Option α)
  | .null => .ok none
  | v => (d v).map some

def list {α : Type} (d : Decoder α) : Decoder (List α)
  | .array items => items.mapM d
  | v => .error (.wrongType (.of v) "a sequence")

/-- Nothing, which only null stands for. -/
def unit : Decoder Unit
  | .null => .ok ()
  | v => .error (.wrongType (.of v) "unit")

/-- A name among a list of names. -/
def variantName {α : Type} (table : List (String × α)) (name : String) : Except DecodeError α :=
  match table.lookup name with
  | some a => .ok a
  | none => .error (.unknownVariant name (table.map Prod.fst))

/-- A name among a list of names, as a string or as the key of an empty entry. -/
def variant {α : Type} (table : List (String × α)) : Decoder α
  | .string s => variantName table s
  | .object [(key, v)] => do
    let a ← variantName table key
    unit v
    pure a
  | .object _ => .error (.wrongValue .map "map with a single key")
  | v => .error (.wrongType (.of v) "string or map")

/-- Where the value of a field may be left out. -/
inductive Presence where
  | needed
  | neededInList
  | free
deriving DecidableEq, Repr

/-- One field of a record: its key, whether it must be there, and how its value is put in. -/
structure Field (α : Type) where
  key : String
  presence : Presence
  put : Json → α → Except DecodeError α

/-- A record: its name in messages, its fields in order, and its value before any is put in. -/
structure Shape (α : Type) where
  title : String
  start : α
  fields : List (Field α)

namespace Shape

/-- Puts in one entry of an object; unknown keys are passed over. -/
def putEntry {α : Type} (s : Shape α) (a : α) (entry : String × Json) : Except DecodeError α :=
  match s.fields.find? (·.key == entry.1) with
  | some f => f.put entry.2 a
  | none => .ok a

def ofEntries {α : Type} (s : Shape α) (entries : List (String × Json)) : Except DecodeError α := do
  let a ← entries.foldlM s.putEntry s.start
  match s.fields.find? fun f =>
      f.presence == .needed && (entries.lookup f.key).isNone with
  | some f => .error (.missingField f.key)
  | none => pure a

def lengthText {α : Type} (s : Shape α) : String :=
  let n := s.fields.length
  s.title ++ s!" with {n} " ++ (if n = 1 then "element" else "elements")

/-- Puts in items in the order of the fields; a missing item is allowed where its field is. -/
def putItems {α : Type} (s : Shape α) (length : Nat) :
    List (Field α) → List Json → Nat → α → Except DecodeError α
  | [], [], _, a => .ok a
  | [], _ :: _, _, _ => .error (.wrongLength length "fewer elements in array")
  | f :: fs, [], i, a =>
    if f.presence == .free then putItems s length fs [] (i + 1) a
    else .error (.wrongLength i s.lengthText)
  | f :: fs, v :: vs, i, a => do
    let a ← f.put v a
    putItems s length fs vs (i + 1) a

def decode {α : Type} (s : Shape α) : Decoder α
  | .object entries => s.ofEntries entries
  | .array items => s.putItems items.length s.fields items 0 s.start
  | v => .error (.wrongType (.of v) s.title)

end Shape

end Decoder

end Triglot
