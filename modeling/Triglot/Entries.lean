/-! Finite maps as lists of keys and values, in the order in which the keys came. -/
namespace Triglot

/-- Replaces the value of a key where it stands, or adds the entry at the end. -/
def putEntry {κ α : Type} [DecidableEq κ] (key : κ) (value : α) : List (κ × α) → List (κ × α)
  | [] => [(key, value)]
  | (k, v) :: rest => if k = key then (k, value) :: rest else (k, v) :: putEntry key value rest

end Triglot
