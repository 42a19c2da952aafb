/-! The left margin of written lines, and the imports that a document gathers. -/
namespace Triglot

/-- Indentation by `width` units a level. -/
structure Margin where
  unit : Char
  width : Nat
  level : Nat := 0
deriving DecidableEq, Repr

namespace Margin

def spaces (width : Nat) : Margin := { unit := ' ', width }

def tabs : Margin := { unit := '\t', width := 1 }

def indent (m : Margin) : String := String.ofList (List.replicate (m.level * m.width) m.unit)

/-- A text behind the margin. -/
def line (m : Margin) (text : String) : String := m.indent ++ text

def push (m : Margin) : Margin := { m with level := m.level + 1 }

def pop (m : Margin) : Margin := { m with level := m.level - 1 }

end Margin

/-- Import paths in the order in which they were first asked for. -/
structure ImportList where
  paths : List String := []
deriving DecidableEq, Repr

def ImportList.add (l : ImportList) (path : String) : ImportList :=
  if path ∈ l.paths then l else ⟨l.paths ++ [path]⟩

end Triglot
