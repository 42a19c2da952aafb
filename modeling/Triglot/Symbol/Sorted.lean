/-! Finite sets as strictly sorted lists, and finite maps as lists that are strictly sorted by key. -/
namespace Triglot

/-- Places an item in a strictly sorted list, unless it is there. -/
def insertSorted {α : Type} [DecidableEq α] (lt : α → α → Bool) (a : α) : List α → List α
  | [] => [a]
  | b :: bs =>
    if a = b then b :: bs
    else if lt a b then a :: b :: bs
    else b :: insertSorted lt a bs

/-- The items of a list in strictly increasing order. -/
def sortedSet {α : Type} [DecidableEq α] (lt : α → α → Bool) (as : List α) : List α :=
  as.foldr (insertSorted lt) []

/-- Texts in strictly increasing order of their code points. -/
def sortedTexts (ss : List String) : List String := sortedSet (fun a b => a < b) ss

/-- The order of pairs of texts, by the first and then the second. -/
def pairBefore (a b : String × String) : Bool := a.1 < b.1 || (a.1 == b.1 && a.2 < b.2)

/-- Changes the value of a key. A key that is not there is placed first, with a new value. -/
def alterSorted {α β : Type} [DecidableEq α] (lt : α → α → Bool) (key : α) (new : β) (change : β → β) :
    List (α × β) → List (α × β)
  | [] => [(key, change new)]
  | (k, b) :: rest =>
    if key = k then (k, change b) :: rest
    else if lt key k then (key, change new) :: (k, b) :: rest
    else (k, b) :: alterSorted lt key new change rest

/-- Goes over items and changes the value of each one's key. -/
def alterEach {α κ β : Type} [DecidableEq κ] (lt : κ → κ → Bool) (key : α → κ) (new : κ → β)
    (change : α → β → β) (items : List α) (values : List (κ × β)) : List (κ × β) :=
  items.foldl (fun vs a => alterSorted lt (key a) (new (key a)) (change a) vs) values

end Triglot
