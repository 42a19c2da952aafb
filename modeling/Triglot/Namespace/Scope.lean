import Triglot.Namespace.Partition
import Triglot.Symbol.Names

/-! The view in which references are written: the table, the names, and the namespace of the
declaration at hand. -/
namespace Triglot

/-- Whether references into other namespaces are written with the namespace. -/
inductive Qualification where
  | flat
  | byNamespace
deriving DecidableEq, Repr

/-- A written reference to a declaration, with the namespace if it is in another one. -/
structure Reference where
  ns : Option String
  name : String
deriving DecidableEq, Repr

def Reference.text (r : Reference) : String :=
  match r.ns with
  | none => r.name
  | some ns => ns ++ "." ++ r.name

structure Scope where
  table : SymbolTable
  names : NameTable
  ns : String := ""
  qualification : Qualification

namespace Scope

def within (s : Scope) (ns : String) : Scope := { s with ns }

def resolve (s : Scope) (name : String) : Except ResolveError Symbol := s.table.resolve name s.ns

/-- How a symbol is referred to in this scope: with its namespace if that is another one and the
output keeps namespaces apart. -/
def refer (s : Scope) (symbol : Symbol) : Reference :=
  let name := s.names.emitted symbol
  match s.qualification with
  | .flat => ⟨none, name⟩
  | .byNamespace =>
    let theirs := effectiveNamespace symbol.ns
    if theirs = effectiveNamespace s.ns then ⟨none, name⟩ else ⟨some theirs, name⟩

/-- A symbol as it is written in this scope. -/
def write (s : Scope) (symbol : Symbol) : String := (s.refer symbol).text

def reference (s : Scope) (name : String) : Except ResolveError Reference :=
  (s.resolve name).map s.refer

end Scope

/-- What the value of a map is. -/
inductive MapValue where
  | scalar (scalar : Scalar)
  | declared (symbol : Symbol)
  | map (key : String) (value : TypeExpr)
  | array (items : TypeExpr)
  | unknown (name : String)
deriving DecidableEq, Repr

def MapValue.classify (s : Scope) : TypeExpr → MapValue
  | .named name _ =>
    match Scalar.ofName? name with
    | some known => .scalar known
    | none =>
      match s.resolve name with
      | .ok symbol => .declared symbol
      | .error _ => .unknown name
  | .map key value _ => .map key value
  | .array items _ => .array items

/-- The finding for a map value that only a placeholder can stand for. -/
def unknownValue (shape ns : String) : Diagnostic :=
  { code := Code.unknownValueType, severity := .warning, path := ns
    message := s!"Map value type '{shape}' could not be classified; emitted a placeholder"
    hint := some "Declare the value type or use a scalar" }

end Triglot
