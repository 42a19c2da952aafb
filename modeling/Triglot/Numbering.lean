import Triglot.Model.Basic
import Triglot.Text.Case

/-! Wire numbers. A declared number is kept, and any other field or value takes the next number above
all that came before; what a target leaves out has no part in it. -/
namespace Triglot

/-- The number after `n`, or `n` itself at the end of the range. -/
def numberAfter (n : UInt32) : UInt32 := if n = 4294967295 then n else n + 1

/-- The number after `n`, or `n` itself at the end of the range. -/
def memberNumberAfter (n : Int32) : Int32 := if n = 2147483647 then n else n + 1

/-- Numbers fields in order; `next` is the number for the first one without its own. -/
def numberFrom (next : UInt32) : List Field → List (Field × UInt32)
  | [] => []
  | f :: fs =>
    match f.number with
    | some n => (f, n) :: numberFrom (max next (numberAfter n)) fs
    | none => (f, next) :: numberFrom (next + 1) fs

/-- The fields that a target includes, with their numbers. -/
def numberFields (t : ObjectType) (target : Target) : List (Field × UInt32) :=
  numberFrom 1 (t.includedFields target)

/-- Two included fields of a type with one number. -/
structure NumberCollision where
  typeName : String
  number : UInt32
  first : String
  second : String
deriving DecidableEq, Repr

def NumberCollision.message (c : NumberCollision) : String :=
  s!"fields '{c.first}' and '{c.second}' of '{c.typeName}' both use number {c.number.toNat}"

/-- The first field whose number an earlier one has; `seen` holds the earlier ones. -/
def collisionAfter (typeName : String) (seen : List (Field × UInt32)) :
    List (Field × UInt32) → Option NumberCollision
  | [] => none
  | (f, n) :: rest =>
    match seen.find? (·.2 == n) with
    | some (first, _) => some ⟨typeName, n, first.name, f.name⟩
    | none => collisionAfter typeName ((f, n) :: seen) rest

def collision? (typeName : String) (numbered : List (Field × UInt32)) : Option NumberCollision :=
  collisionAfter typeName [] numbered

/-- Numbers enumeration values in order, as `numberFrom` does. -/
def numberMembersFrom (next : Int32) : List EnumMember → List (EnumMember × Int32)
  | [] => []
  | m :: ms =>
    match m.number with
    | some n => (m, n) :: numberMembersFrom (max next (memberNumberAfter n)) ms
    | none => (m, next) :: numberMembersFrom (next + 1) ms

def numberMembers (e : EnumType) : List (EnumMember × Int32) := numberMembersFrom 1 e.members

/-- The value that stands for zero, unless a value declares that number. -/
def sentinel (e : EnumType) : Option String :=
  if e.members.any (·.number == some 0) then none
  else some (Text.upper e.name ++ "_UNSPECIFIED")

end Triglot
