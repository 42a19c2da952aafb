import Triglot.Symbol.Table

/-! A model cut into one part for each namespace, and the namespaces that a part refers to. -/
namespace Triglot

/-- The namespace of declarations that have none. -/
def defaultNamespace : String := "api"

def effectiveNamespace (ns : String) : String := if ns.isEmpty then defaultNamespace else ns

/-- The file of a namespace: one directory for each point. -/
def importPath (ns extension : String) : String :=
  Text.replaceChar '.' "/" (effectiveNamespace ns) ++ "." ++ extension

namespace Model

/-- The part of a namespace before it has declarations. The annotations of the model go with its own
namespace. -/
def emptyPart (m : Model) (key : String) : Model where
  ns := key
  version := m.version
  annotations := if key = effectiveNamespace m.ns then m.annotations else .none

/-- Adds declarations of one kind to the parts of their namespaces, one after the other. A part is made
for the first declaration that needs it. -/
def gather {α : Type} (m : Model) (ns : α → String) (add : Model → α → Model) (xs : List α)
    (parts : List (String × Model)) : List (String × Model) :=
  alterEach (fun a b => a < b) (fun x => effectiveNamespace (ns x)) m.emptyPart
    (fun x part => add part x) xs parts

def addEnum (part : Model) (e : EnumType) : Model := { part with enums := part.enums ++ [e] }

def addType (part : Model) (t : ObjectType) : Model := { part with types := part.types ++ [t] }

def addUnion (part : Model) (u : UnionType) : Model := { part with unions := part.unions ++ [u] }

def addService (part : Model) (s : Service) : Model := { part with services := part.services ++ [s] }

/-- The parts of a model by namespace, in increasing order. -/
def partition (m : Model) : List (String × Model) :=
  let parts := m.gather EnumType.ns addEnum m.enums []
  let parts := m.gather ObjectType.ns addType m.types parts
  let parts := m.gather UnionType.ns addUnion m.unions parts
  m.gather Service.ns addService m.services parts

/-- The names mentioned in field types that a target includes, union options and method payloads,
each with the namespace it is written in. -/
def references (m : Model) (target : Target) : List (String × String) :=
  (m.types.flatMap fun t => (t.includedFields target).flatMap fun f =>
    f.type.referencedNames.map fun n => (n, t.ns)) ++
  (m.unions.flatMap fun u => u.options.map fun o => (o, u.ns)) ++
  (m.services.flatMap fun s => s.methods.flatMap fun k => [(k.input, s.ns), (k.output, s.ns)])

end Model

/-- The namespace that a reference leads to. A qualified name that is not declared counts with the
namespace that it spells. -/
def referencedNamespace (table : SymbolTable) (name ns : String) : Option String :=
  if isScalar name then none
  else match table.resolve name ns with
    | .ok s => some (effectiveNamespace s.ns)
    | .error _ =>
      if isQualified name then some (effectiveNamespace (splitQualified name).1) else none

/-- The other namespaces that a part refers to, in increasing order. -/
def requiredImports (part : Model) (table : SymbolTable) (target : Target) : List String :=
  sortedTexts (((part.references target).filterMap fun r => referencedNamespace table r.1 r.2).filter
    (· != effectiveNamespace part.ns))

end Triglot
