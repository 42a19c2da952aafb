import Triglot.Output.Emission
import Triglot.Proto.Basic
import Triglot.Proto.Constraint

/-! From a model to protocol buffer files: unions become alternatives of one message, maps stay maps,
and what cannot be said becomes a placeholder with a warning. -/
namespace Triglot.Proto

/-- One comment line for each line of a text. -/
def commentLines (text : String) : List String :=
  (Text.lines text).map fun l => Text.trimEnd ("// " ++ l)

def docComments (doc : Option Doc) : List String :=
  match docText doc .proto with
  | some text => commentLines text
  | none => []

/-- The notes on versions in front of a field. -/
def versionComments (f : Field) : List String :=
  (match f.deprecated with
    | some d => ("// DEPRECATED" ++ d.versionNote) :: (d.reason.map fun r => "// " ++ r).toList
    | none => []) ++
  (f.since.map fun v => "// Added in version " ++ v).toList

/-- A named type: a scalar by its spelling, anything else by reference. -/
def namedType (scope : Scope) (name : String) : Except ResolveError FieldType :=
  match Scalar.ofName? name with
  | some s => .ok (.scalar s)
  | none => (scope.reference name).map .declared

/-- The value of a map; lists and unknown names have no spelling. -/
def mapValue (scope : Scope) : TypeExpr → FieldType
  | .named name _ =>
    match Scalar.ofName? name with
    | some s => .scalar s
    | none =>
      match scope.resolve name with
      | .ok symbol => .declared (scope.refer symbol)
      | .error _ => .placeholder
  | .map key value _ => .map key (mapValue scope value)
  | .array _ _ => .placeholder

/-- The type of a map, which nests as it is declared. -/
def synthesizeMap (scope : Scope) (key : String) (value : TypeExpr) : FieldType :=
  .map key (mapValue scope value)

/-- The warnings for the values of a map. -/
def mapWarnings (scope : Scope) (value : TypeExpr) : List Diagnostic :=
  match value with
  | .map _ inner _ => mapWarnings scope inner
  | .named name o =>
    match MapValue.classify scope (.named name o) with
    | .unknown n => [unknownValue n scope.ns]
    | _ => []
  | .array items o => [unknownValue (TypeExpr.array items o).signature scope.ns]

/-- The element of a list; lists and maps inside it have no spelling. -/
def elementType (scope : Scope) : TypeExpr → Except ResolveError FieldType
  | .named name _ => namedType scope name
  | _ => .ok .placeholder

def elementWarnings (scope : Scope) : TypeExpr → List Diagnostic
  | .named _ _ => []
  | t => [unknownValue t.signature scope.ns]

/-- Label and type of a field. -/
def fieldType (scope : Scope) : TypeExpr → Except ResolveError (Label × FieldType)
  | .map key value _ => .ok (.plain, synthesizeMap scope key value)
  | .array items _ => (elementType scope items).map fun t => (.repeated, t)
  | .named name optional =>
    (namedType scope name).map fun t => (if optional then .optional else .plain, t)

def typeWarnings (scope : Scope) : TypeExpr → List Diagnostic
  | .map _ value _ => mapWarnings scope value
  | .array items _ => elementWarnings scope items
  | .named _ _ => []

def fieldLine (scope : Scope) (f : Field) (number : UInt32) : Except ResolveError FieldLine := do
  let (label, type) ← fieldType scope f.type
  pure { comments := docComments f.doc ++ versionComments f, label, type, name := f.name, number
         options := fieldOptions f }

def enumBlock (scope : Scope) (e : EnumType) : EnumBlock where
  comments := docComments e.doc
  name := scope.names.declaredName e.ns e.name
  lines := ((sentinel e).map fun s => ⟨[], s, 0⟩).toList ++
    (numberMembers e).map fun (m, n) => ⟨docComments m.doc, m.name, n.toInt⟩

/-- The message of an object type, written within its own namespace. -/
def messageBlock (scope : Scope) (t : ObjectType) : Except EmitError MessageBlock := do
  let scope := scope.within t.ns
  let name := scope.names.declaredName t.ns t.name
  let numbered := numberFields t .proto
  match collision? name numbered with
  | some c => .error (.collision c)
  | none =>
    let lines ← (numbered.mapM fun (f, n) => fieldLine scope f n).mapError .resolve
    pure { comments := docComments t.doc, name, lines }

/-- The alternatives of a union, numbered from one. -/
def members (scope : Scope) (next : Nat) : List String → Except ResolveError (List MemberLine)
  | [] => .ok []
  | o :: os => do
    let symbol ← scope.resolve o
    let rest ← members scope (next + 1) os
    pure (⟨scope.refer symbol, Text.lowerFirst symbol.name, next⟩ :: rest)

/-- The message of a union in a given scope. -/
def renderUnion (scope : Scope) (u : UnionType) : Except ResolveError UnionBlock := do
  pure { comments := docComments u.doc, name := scope.names.declaredName u.ns u.name
         members := ← members scope 1 u.options }

def rpc (scope : Scope) (m : Method) : Except ResolveError Rpc := do
  pure { comments := docComments m.doc, name := m.name
         input := ← namedType scope m.input, inputStreamed := m.clientStreaming
         output := ← namedType scope m.output, outputStreamed := m.serverStreaming }

def serviceBlock (scope : Scope) (s : Service) : Except ResolveError ServiceBlock := do
  pure { comments := docComments s.doc, name := s.name
         rpcs := ← s.methods.mapM (rpc (scope.within s.ns)) }

def timestampImport : String := "google/protobuf/timestamp.proto"

def constraintImport : String := "buf/validate/validate.proto"

/-- Whether a field type or payload of a part is a timestamp. -/
def usesTimestamp (part : Model) : Bool :=
  (part.types.any fun t => (t.includedFields .proto).any fun f =>
    f.type.referencedNames.contains "timestamp") ||
  (part.services.any fun s => s.methods.any fun m =>
    m.input == "timestamp" || m.output == "timestamp")

/-- Whether a field of a part carries a constraint. -/
def usesConstraints (part : Model) : Bool :=
  part.types.any fun t => (t.includedFields .proto).any fun f => !(fieldConstraints f).isEmpty

/-- The imports of a part, in increasing order. -/
def fileImports (part : Model) (paths : List String) : List String :=
  sortedTexts (paths ++ (if usesTimestamp part then [timestampImport] else []) ++
    (if usesConstraints part then [constraintImport] else []))

/-- The file of a part of the model. -/
def file (scope : Scope) (part : Model) (package : String) (paths : List String) :
    Except EmitError File := do
  let messages ← part.types.mapM (messageBlock scope)
  let unions ← (part.unions.mapM fun u => renderUnion (scope.within u.ns) u).mapError .resolve
  let services ← (part.services.mapM (serviceBlock scope)).mapError .resolve
  pure { package, options := part.annotations.optionsFor .proto
         imports := fileImports part paths
         enums := part.enums.map (enumBlock scope), messages, unions, services }

/-- The warnings for a part, in the order of its fields. -/
def fileWarnings (scope : Scope) (part : Model) : List Diagnostic :=
  part.types.flatMap fun t => (t.includedFields .proto).flatMap fun f =>
    typeWarnings (scope.within t.ns) f.type

/-- A file with the warnings about it. -/
structure Rendered where
  file : File
  warnings : List Diagnostic
deriving DecidableEq, Repr

/-- The whole model in one package, where emitted names have to be distinct. -/
def renderSingle (m : Model) (table : SymbolTable) : Except EmitError Rendered := do
  let names := NameTable.build m .proto
  match names.flatConflicts table with
  | c :: _ => .error (.duplicateName c.name c.namespaces)
  | [] =>
    let scope : Scope := { table, names, qualification := .flat }
    let f ← file scope m (effectiveNamespace m.ns) []
    pure ⟨f, fileWarnings scope m⟩

def partImports (table : SymbolTable) (part : Model) : List String :=
  (requiredImports part table .proto).map fun ns => importPath ns "proto"

/-- One package and file for each namespace, by namespace. -/
def renderByNamespace (m : Model) (table : SymbolTable) :
    Except EmitError (List (String × Rendered)) := do
  let names := NameTable.build m .proto
  match names.namespaceConflicts table with
  | c :: _ => .error (.duplicateName c.name c.namespaces)
  | [] =>
    let scope : Scope := { table, names, qualification := .byNamespace }
    m.partition.mapM fun (key, part) => do
      let f ← file scope part key (partImports table part)
      pure (key, ⟨f, fileWarnings scope part⟩)

end Triglot.Proto
