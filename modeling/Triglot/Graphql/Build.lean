import Triglot.Graphql.Arena
import Triglot.Output.Emission

/-! From a model to a GraphQL document: a union is also a choice of inputs, a map is a list of
entries, and methods are fields of the roots. -/
namespace Triglot.Graphql

/-- The lines of a text on one line. -/
def singleLine (text : String) : String := " ".intercalate (Text.lines text)

def description (doc : Option Doc) : Option String := (docText doc .graphql).map singleLine

/-- A reference to a scalar or a declaration. -/
def namedRef (scope : Scope) (usage : UsageMap) (d : Direction) (name : String) :
    Except ResolveError TypeRef :=
  match Scalar.ofName? name with
  | some s => .ok (.named (scalarText s))
  | none => (scope.resolve name).map fun s => .named (directedName scope usage d s)

/-- A type expression; a map is a list of entries that are there. -/
def typeRef (scope : Scope) (d : Direction) : TypeExpr → Arena → Except ResolveError (TypeRef × Arena)
  | .named name _, a => (namedRef scope a.usage d name).map fun t => (t, a)
  | .array items _, a => (typeRef scope d items a).map fun (t, a) => (.list t, a)
  | .map key value _, a =>
    let (entry, a) := synthesizeMap scope key value a
    .ok (.list (.nonNull (.named (d.name entry))), a)

/-- The text of a literal, without line breaks of its own making. -/
def escape (cs : List Char) : List Char :=
  cs.flatMap fun c =>
    if c = '"' then ['\\', '"'] else if c = '\\' then ['\\', '\\']
    else if c = '\t' then ['\\', 't'] else [c]

def quoted (s : String) : String := String.ofList ('"' :: escape s.toList ++ ['"'])

def fieldDirectives (f : Field) : List String :=
  (match f.deprecated with
    | some d =>
      [match d.reason with
        | some r => "@deprecated(reason: " ++ quoted r ++ ")"
        | none => "@deprecated"]
    | none => []) ++ f.annotations.optionsFor .graphql

/-- The fields of an object, in order. -/
def fieldDefs (scope : Scope) (d : Direction) : List Field → Arena →
    Except ResolveError (List FieldDef × Arena)
  | [], a => .ok ([], a)
  | f :: fs, a => do
    let (t, a) ← typeRef scope d f.type a
    let (rest, a) ← fieldDefs scope d fs a
    let def' : FieldDef :=
      { name := f.name, type := if f.isNonNull then .nonNull t else t
        directives := match d with
          | .output => fieldDirectives f
          | .input => [] }
    pure (def' :: rest, a)

/-- An object type in one direction, written within its own namespace. -/
def objectDef (scope : Scope) (t : ObjectType) (d : Direction) (a : Arena) :
    Except ResolveError (Definition × Arena) := do
  let (fields, a) ← fieldDefs (scope.within t.ns) d (t.includedFields .graphql) a
  pure (.object
    { description := description t.doc, direction := d
      name := d.name (scope.names.declaredName t.ns t.name)
      directives := match d with
        | .output => t.annotations.optionsFor .graphql
        | .input => []
      fields }, a)

/-- An object type, and its input form if it has one. -/
def objectDefs (scope : Scope) (t : ObjectType) (a : Arena) :
    Except ResolveError (List Definition × Arena) := do
  let (output, a) ← objectDef scope t .output a
  if a.usage.needsInput t.ns t.name then
    let (input, a) ← objectDef scope t .input a
    pure ([output, input], a)
  else pure ([output], a)

def allObjectDefs (scope : Scope) : List ObjectType → Arena →
    Except ResolveError (List Definition × Arena)
  | [], a => .ok ([], a)
  | t :: ts, a => do
    let (defs, a) ← objectDefs scope t a
    let (rest, a) ← allObjectDefs scope ts a
    pure (defs ++ rest, a)

def enumDef (scope : Scope) (e : EnumType) : Definition :=
  .enum (description e.doc) (scope.names.declaredName e.ns e.name) (e.members.map (·.name))

/-- The alternative of an option as an input field; an enumeration has no input form. -/
def optionField (scope : Scope) (s : Symbol) : FieldDef :=
  let name := scope.write s
  { name := Text.lowerFirst s.name
    type := .named (if s.kind = .enum then name else inputName name) }

/-- The two definitions of a union: the alternatives, and the input that takes one of them. -/
structure UnionDefs where
  output : Definition
  input : Definition
deriving DecidableEq, Repr

def renderUnion (scope : Scope) (u : UnionType) : Except ResolveError UnionDefs := do
  let symbols ← u.options.mapM scope.resolve
  let name := scope.names.declaredName u.ns u.name
  let doc := description u.doc
  pure
    { output := .union doc name (symbols.map scope.write)
      input := .object
        { description := doc.map (· ++ " (Input variant with @oneOf)"), direction := .input
          name := inputName name, directives := ["@oneOf"]
          fields := symbols.map (optionField scope) } }

/-- A method as a field of its root. -/
def rootField (scope : Scope) (usage : UsageMap) (m : Method) : Except ResolveError FieldDef := do
  let input ← namedRef scope usage .input m.input
  let output ← namedRef scope usage .output m.output
  pure { name := Text.lowerFirst m.name, argument := some input, type := output }

def rootName : RootKind → String
  | .query => "Query"
  | .mutation => "Mutation"
  | .subscription => "Subscription"

/-- All methods as root fields, in order, each with its root. -/
def rootFields (scope : Scope) (usage : UsageMap) (services : List Service) :
    Except ResolveError (List (RootKind × FieldDef)) :=
  (services.flatMap fun s => s.methods.map fun m => (s.ns, m)).mapM fun (ns, m) => do
    pure (m.rootKind, ← rootField (scope.within ns) usage m)

/-- The roots that have fields. -/
def rootDefs (fields : List (RootKind × FieldDef)) : List Definition :=
  RootKind.all.filterMap fun k =>
    match fields.filter (·.1 == k) with
    | [] => none
    | fs => some (.object
        { description := none, direction := .output, name := rootName k, fields := fs.map Prod.snd })

def wrapperDef (w : Wrapper) (d : Direction) : Definition :=
  let name := d.name w.name
  .object
    { description := some (name ++ " is an auto-generated wrapper for nested map"), direction := d
      name
      fields := [{ name := "value"
                   type := .nonNull (.list (.nonNull (.named (d.name w.entry)))) }] }

def entryDef (e : EntryType) (d : Direction) : Definition :=
  let name := d.name e.name
  let value := match d with
    | .output => e.value
    | .input => e.valueInput
  .object
    { description := some (name ++ " represents a key-value pair for " ++ e.described)
      direction := d, name
      fields := [{ name := "key", type := .nonNull (.named e.key) },
                 { name := "value", type := .nonNull value }] }

/-- The definitions that an arena has gathered. -/
def arenaDefs (a : Arena) : List Definition :=
  (if a.unknownUsed then
    [.scalar "Placeholder for map values without a GraphQL representation" placeholderName]
   else []) ++
  (a.wrappers.flatMap fun w => [wrapperDef w .output, wrapperDef w .input]) ++
  (a.entries.flatMap fun e => [entryDef e .output, entryDef e .input])

/-- A document with the warnings about it. -/
structure Rendered where
  document : Document
  warnings : List Diagnostic
deriving DecidableEq, Repr

/-- The document of a model, where emitted names have to be distinct. -/
def render (m : Model) (table : SymbolTable) : Except EmitError Rendered := do
  let names := NameTable.build m .graphql
  match names.flatConflicts table with
  | c :: _ => .error (.duplicateName c.name c.namespaces)
  | [] =>
    let scope : Scope := { table, names, qualification := .flat }
    let usage := UsageMap.classify m table .graphql
    let (objects, arena) ← (allObjectDefs scope m.types { usage }).mapError .resolve
    let unions ← (m.unions.mapM fun u => renderUnion (scope.within u.ns) u).mapError .resolve
    let roots ← (rootFields scope usage m.services).mapError .resolve
    pure
      { document :=
          { ns := m.ns, extensions := m.annotations.optionsFor .graphql
            definitions := arenaDefs arena ++ m.enums.map (enumDef scope) ++ objects ++
              (unions.flatMap fun u => [u.output, u.input]) ++ rootDefs roots }
        warnings := arena.warnings }

end Triglot.Graphql
