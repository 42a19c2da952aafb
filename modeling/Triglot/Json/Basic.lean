import Triglot.Number.Shortest

/-! Values of the data-exchange format. Objects keep the order of their entries; `ofEntries` gives
the sorted form in which documents are read, where the last of two equal keys wins. -/
namespace Triglot

/-- A number is whole, within 64 bits, or a finite binary64 number. -/
inductive JsonNumber where
  | whole (value : Int)
  | real (value : Binary64)
deriving DecidableEq, Repr

inductive Json where
  | null
  | bool (value : Bool)
  | number (value : JsonNumber)
  | string (value : String)
  | array (items : List Json)
  | object (entries : List (String × Json))
deriving Inhabited, Repr

namespace Json

def whole (n : Int) : Json := .number (.whole n)

def nat (n : Nat) : Json := .number (.whole n)

def real (x : Binary64) : Json := .number (.real x)

def strings (ss : List String) : Json := .array (ss.map .string)

/-- Places an entry in sorted order, over an entry of the same key. -/
def insertEntry (key : String) (value : Json) : List (String × Json) → List (String × Json)
  | [] => [(key, value)]
  | (k, v) :: rest =>
    if key < k then (key, value) :: (k, v) :: rest
    else if key = k then (key, value) :: rest
    else (k, v) :: insertEntry key value rest

/-- Entries in sorted order; the last of two equal keys wins. -/
def sortedEntries (entries : List (String × Json)) : List (String × Json) :=
  entries.foldl (fun acc e => insertEntry e.1 e.2 acc) []

def ofEntries (entries : List (String × Json)) : Json := .object (sortedEntries entries)

def get? (key : String) : Json → Option Json
  | .object entries => entries.lookup key
  | _ => none

end Json

end Triglot
