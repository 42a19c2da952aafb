import Triglot.Symbol.Table

/-! The names under which declarations are written for a target. -/
namespace Triglot

/-- Other names by qualified name; of two for one declaration the later counts. -/
structure NameTable where
  target : Target
  overrides : List (String × String)
deriving DecidableEq, Repr

namespace NameTable

/-- The other name of a declaration, if it has one. -/
def override? (t : Target) (ns name : String) (a : Annotations) : Option (String × String) :=
  (a.nameFor t).map fun renamed => (qualify ns name, renamed)

def build (m : Model) (t : Target) : NameTable :=
  ⟨t, (m.enums.filterMap fun e => override? t e.ns e.name e.annotations) ++
    (m.types.filterMap fun o => override? t o.ns o.name o.annotations) ++
    (m.unions.filterMap fun u => override? t u.ns u.name u.annotations)⟩

def emittedName (n : NameTable) (qualified name : String) : String :=
  (n.overrides.reverse.lookup qualified).getD name

/-- The name under which a symbol is written. -/
def emitted (n : NameTable) (s : Symbol) : String := n.emittedName s.qualified s.name

/-- The name under which a declaration is written. -/
def declaredName (n : NameTable) (ns name : String) : String := n.emittedName (qualify ns name) name

def flatConflicts (n : NameTable) (t : SymbolTable) : List Conflict := t.flatConflicts n.emitted

def namespaceConflicts (n : NameTable) (t : SymbolTable) : List Conflict :=
  t.namespaceConflicts n.emitted

end NameTable

end Triglot
