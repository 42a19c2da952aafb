import Triglot.Diagnostic
import Triglot.Entries
import Triglot.Symbol.Sorted

/-! The symbol table of a model: every enumeration, object type and union under its qualified name,
and the rules by which a written name finds its declaration. -/
namespace Triglot

inductive SymbolKind where
  | type
  | enum
  | union
deriving DecidableEq, Repr, Inhabited

namespace SymbolKind

def name : SymbolKind → String
  | .type => "type"
  | .enum => "enum"
  | .union => "union"

def table : List (String × SymbolKind) := [("type", .type), ("enum", .enum), ("union", .union)]

end SymbolKind

/-- A declared name behind its namespace; the empty namespace leaves a leading point. -/
def qualify (ns name : String) : String := ns ++ "." ++ name

def isQualified (name : String) : Bool := name.toList.contains '.'

/-- Namespace and name of a qualified name, cut at the last point. -/
def splitQualified (qualified : String) : String × String :=
  match Text.cutLast '.' qualified.toList with
  | some (ns, name) => (String.ofList ns, String.ofList name)
  | none => ("", qualified)

/-- A declaration that names can refer to; `path` tells where it stands in the model. -/
structure Declaration where
  ns : String
  name : String
  kind : SymbolKind
  path : String
deriving DecidableEq, Repr, Inhabited

/-- A declaration in a table, with its qualified name. -/
structure Symbol extends Declaration where
  qualified : String
deriving DecidableEq, Repr, Inhabited

def Declaration.symbol (d : Declaration) : Symbol := { d with qualified := qualify d.ns d.name }

inductive ResolveError where
  | unresolvedQualified (name : String)
  | unknown (name ns : String)
  | ambiguous (name : String) (candidates : List String)
deriving DecidableEq, Repr

namespace ResolveError

def message : ResolveError → String
  | .unresolvedQualified name => s!"qualified name '{name}' is not declared"
  | .unknown name ns => s!"unknown symbol '{name}' (referenced from namespace '{ns}')"
  | .ambiguous name candidates =>
    s!"ambiguous symbol '{name}': candidates are " ++ ", ".intercalate candidates

/-- The finding for a reference at a place of a document. -/
def diagnostic (e : ResolveError) (file path : String) : Diagnostic :=
  match e with
  | .unresolvedQualified name =>
    { code := Code.unresolvedQualifiedName, severity := .error, file, path
      message := s!"Qualified name '{name}' is not declared"
      hint := some s!"Declare '{name}' or check the namespace part of the reference" }
  | .unknown name ns =>
    { code := Code.unknownSymbol, severity := .error, file, path
      message := s!"Unknown type '{name}' referenced from namespace '{ns}'"
      hint := some s!"Declare '{name}' or fix the reference" }
  | .ambiguous name candidates =>
    let example' := candidates.headD name
    { code := Code.ambiguousSymbol, severity := .error, file, path
      message := s!"Reference '{name}' is ambiguous: found " ++ ", ".intercalate candidates
      hint := some ("Use a fully qualified name, e.g. '" ++ example' ++ "'") }

end ResolveError

/-- Declarations that would be written under one name, and the namespaces they come from. -/
structure Conflict where
  name : String
  namespaces : List String
deriving DecidableEq, Repr

/-- Symbols of each kind under their qualified names, in the order of their declarations. A second
declaration of a kind and qualified name is kept aside as shadowed. -/
structure SymbolTable where
  enums : List (String × Symbol) := []
  types : List (String × Symbol) := []
  unions : List (String × Symbol) := []
  shadowed : List Symbol := []
deriving DecidableEq, Repr, Inhabited

namespace SymbolTable

/-- The symbols of a kind by their keys. -/
def keyed (t : SymbolTable) : SymbolKind → List (String × Symbol)
  | .type => t.types
  | .enum => t.enums
  | .union => t.unions

def ofKind (t : SymbolTable) (kind : SymbolKind) : List Symbol := (t.keyed kind).map Prod.snd

def lookupKind (t : SymbolTable) (kind : SymbolKind) (key : String) : Option Symbol :=
  (t.keyed kind).lookup key

/-- An exact qualified name, among types first, then enumerations, then unions. -/
def lookup (t : SymbolTable) (qualified : String) : Option Symbol :=
  ((t.lookupKind .type qualified).or (t.lookupKind .enum qualified)).or
    (t.lookupKind .union qualified)

/-- All symbols: enumerations, types, unions. -/
def entries (t : SymbolTable) : List Symbol := t.ofKind .enum ++ t.ofKind .type ++ t.ofKind .union

/-- All declarations, the shadowed ones included. -/
def declarations (t : SymbolTable) : List Symbol := t.entries ++ t.shadowed

def size (t : SymbolTable) : Nat := t.types.length + t.enums.length + t.unions.length

/-- Puts a symbol under a key among those of a kind. -/
def put (t : SymbolTable) (kind : SymbolKind) (key : String) (s : Symbol) : SymbolTable :=
  match kind with
  | .type => { t with types := putEntry key s t.types }
  | .enum => { t with enums := putEntry key s t.enums }
  | .union => { t with unions := putEntry key s t.unions }

/-- The finding for a declaration whose place is taken. -/
def duplicate (s earlier : Symbol) : Diagnostic :=
  { code := Code.duplicateSymbol, severity := .error, path := s.path
    message := "Duplicate " ++ s.kind.name ++ " '" ++ s.qualified ++ "' (also declared at " ++
      earlier.path ++ ")"
    hint := some ("Rename one of the '" ++ s.name ++
      "' declarations or move it to another namespace") }

/-- Adds a declaration. The first of a kind and qualified name stands; a later one is shadowed and
reported. -/
def register (t : SymbolTable) (d : Declaration) : SymbolTable × Option Diagnostic :=
  let key := qualify d.ns d.name
  match t.lookupKind d.kind key with
  | some earlier =>
    ({ t with shadowed := t.shadowed ++ [d.symbol] }, some (duplicate d.symbol earlier))
  | none => (t.put d.kind key d.symbol, none)

/-- Adds declarations in order, with the findings about them. -/
def registerAll (t : SymbolTable) (ds : List Declaration) : SymbolTable × List Diagnostic :=
  ds.foldl (fun acc d =>
    let r := acc.1.register d
    (r.1, acc.2 ++ r.2.toList)) (t, [])

/-- The declarations of a model that names can refer to. -/
def declarationsOf (m : Model) : List Declaration :=
  (m.enums.mapIdx fun i e => ⟨e.ns, e.name, .enum, s!"$.enums[{i}]"⟩) ++
  (m.types.mapIdx fun i t => ⟨t.ns, t.name, .type, s!"$.types[{i}]"⟩) ++
  (m.unions.mapIdx fun i u => ⟨u.ns, u.name, .union, s!"$.unions[{i}]"⟩)

/-- The table of a model, and a finding for each exact duplicate. -/
def build (m : Model) : SymbolTable × List Diagnostic :=
  registerAll {} (declarationsOf m)

/-- The table of a model. -/
def of (m : Model) : SymbolTable := (build m).1

/-- Finds the declaration that a name written in a namespace refers to. A name with a point is
qualified; any other is looked for in the namespace itself, and then everywhere, where it has to be
the only one. -/
def resolve (t : SymbolTable) (name ns : String) : Except ResolveError Symbol :=
  if isQualified name then
    match t.lookup name with
    | some s => .ok s
    | none => .error (.unresolvedQualified name)
  else
    match t.lookup (qualify ns name) with
    | some s => .ok s
    | none =>
      match t.entries.filter (·.name == name) with
      | [] => .error (.unknown name ns)
      | [s] => .ok s
      | candidates => .error (.ambiguous name (sortedTexts (candidates.map Symbol.qualified)))

/-- Names that several declarations would get once namespaces are dropped. Namespaces are gathered by
name. -/
def flatConflicts (t : SymbolTable) (emitted : Symbol → String) : List Conflict :=
  let byName := alterEach (fun a b => a < b) emitted (fun _ => []) (fun s found => found ++ [s.ns])
    t.declarations []
  byName.filterMap fun p => if 1 < p.2.length then some ⟨p.1, sortedTexts p.2⟩ else none

/-- Names that several declarations of one namespace would get. Pairs of a name and a namespace are
counted. -/
def namespaceConflicts (t : SymbolTable) (emitted : Symbol → String) : List Conflict :=
  let counts := alterEach pairBefore (fun s => (emitted s, s.ns)) (fun _ => 0) (fun _ n => n + 1)
    t.declarations []
  counts.filterMap fun p => if 1 < p.2 then some ⟨p.1.1, [p.1.2]⟩ else none

/-- Resolves a reference, or tells the finding for its place. -/
def resolveAt (t : SymbolTable) (name ns file path : String) : Except Diagnostic Symbol :=
  match t.resolve name ns with
  | .ok s => .ok s
  | .error e => .error (e.diagnostic file path)

/-- The findings for the names of a type expression; scalars are never looked up. -/
def checkType (t : SymbolTable) (type : TypeExpr) (ns file path : String) : List Diagnostic :=
  (type.referencedNames.filter (!isScalar ·)).filterMap fun name =>
    match t.resolveAt name ns file path with
    | .ok _ => none
    | .error d => some d

/-- Resolves a reference to a type or union; an enumeration does not do. -/
def resolveObject (t : SymbolTable) (name ns file path : String) : Except Diagnostic Symbol := do
  let s ← t.resolveAt name ns file path
  if s.kind = .enum then
    .error
      { code := Code.unknownSymbol, severity := .error, file, path
        message := "'" ++ name ++ "' resolves to enum '" ++ s.qualified ++
          "' where an object type is required"
        hint := some "Reference a type or union here" }
  else pure s

end SymbolTable

end Triglot
