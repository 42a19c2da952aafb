import Triglot.Namespace.Scope
import Triglot.Numbering
import Triglot.Validation.Version

/-! The rules that a model is checked against before anything is written. Each rule gives its
findings in the order of the declarations. -/
namespace Triglot

namespace Validation

/-- Which outputs a model is checked for; with `splitProto` namespaces stay apart in one of them. -/
structure Options where
  targets : List Target := Target.all
  splitProto : Bool := false
deriving DecidableEq, Repr

/-- The targets that put all declarations into one space of names. -/
def Options.flatTargets (o : Options) : List Target :=
  o.targets.filter fun t => t != .proto || !o.splitProto

def faults {α : Type} : Except Diagnostic α → List Diagnostic
  | .ok _ => []
  | .error d => [d]

/-- Every name in a field type has a declaration. -/
def fieldReferences (table : SymbolTable) (m : Model) : List Diagnostic :=
  (m.types.mapIdx fun i t => (t.fields.mapIdx fun j f =>
    table.checkType f.type t.ns "" s!"$.types[{i}].fields[{j}].type").flatten).flatten

/-- Every option of a union is a type or a union. -/
def optionReferences (table : SymbolTable) (m : Model) : List Diagnostic :=
  (m.unions.mapIdx fun i u => (u.options.mapIdx fun j o =>
    faults (table.resolveObject o u.ns "" s!"$.unions[{i}].options[{j}]")).flatten).flatten

/-- Every payload of a method is a type or a union. -/
def payloadReferences (table : SymbolTable) (m : Model) : List Diagnostic :=
  (m.services.mapIdx fun i s => (s.methods.mapIdx fun j k =>
    faults (table.resolveObject k.input s.ns "" s!"$.services[{i}].methods[{j}].input") ++
    faults (table.resolveObject k.output s.ns "" s!"$.services[{i}].methods[{j}].output")).flatten
    ).flatten

def references (table : SymbolTable) (m : Model) : List Diagnostic :=
  fieldReferences table m ++ optionReferences table m ++ payloadReferences table m

/-- The findings for repeated options; `seen` holds the earlier ones. -/
def repeatedOptions (union path : String) (seen : List String) (j : Nat) :
    List String → List Diagnostic
  | [] => []
  | o :: os =>
    let rest := repeatedOptions union path (o :: seen) (j + 1) os
    if seen.contains o then
      { code := Code.duplicateUnionOption, severity := .warning, path := s!"{path}[{j}]"
        message := s!"Union '{union}' lists option '{o}' more than once"
        hint := some s!"Remove the repeated '{o}'" } :: rest
    else rest

/-- Every union has options, and none twice. -/
def unionOptions (m : Model) : List Diagnostic :=
  (m.unions.mapIdx fun i u =>
    let path := s!"$.unions[{i}].options"
    if u.options.isEmpty then
      [{ code := Code.emptyUnion, severity := .error, path
         message := s!"Union '{u.name}' has no options"
         hint := some "List at least one option type" }]
    else repeatedOptions u.name path [] 0 u.options).flatten

/-- The scalars that can be the key of a map. -/
def keyScalars : List String :=
  ["string", "int32", "int64", "uint8", "uint16", "uint32", "uint64", "bool"]

def typeKeys (typeName fieldName path : String) : TypeExpr → List Diagnostic
  | .named _ _ => []
  | .array items _ => typeKeys typeName fieldName path items
  | .map key value _ =>
    (if keyScalars.contains key then []
     else
      [{ code := Code.invalidMapKey, severity := .error, path
         message :=
          s!"Map key type '{key}' of '{typeName}.{fieldName}' is not a keyable scalar"
         hint := some "Use string, bool, or an integer type as the map key" }]) ++
    typeKeys typeName fieldName path value

/-- Every map key, at any depth, is a scalar that can be one. -/
def mapKeys (m : Model) : List Diagnostic :=
  (m.types.mapIdx fun i t => (t.fields.mapIdx fun j f =>
    typeKeys t.name f.name s!"$.types[{i}].fields[{j}].type" f.type).flatten).flatten

/-- The targets whose fields carry numbers. -/
def numberedTargets : List Target := [.proto]

def fieldNumbers (m : Model) (target : Target) : List Diagnostic :=
  (m.types.mapIdx fun i t =>
    match collision? t.name (numberFields t target) with
    | none => []
    | some c =>
      [{ code := Code.numberingCollision, severity := .error, path := s!"$.types[{i}].fields"
         message := c.message ++ " in " ++ target.name ++ " output"
         hint := some "Give each field a distinct explicit number" : Diagnostic }]).flatten

/-- The findings for repeated numbers of an enumeration; `seen` holds the earlier values, last
first. -/
def repeatedNumbers (enum path : String) (seen : List (Int32 × String)) :
    List EnumMember → List Diagnostic
  | [] => []
  | m :: ms =>
    match m.number with
    | none => repeatedNumbers enum path seen ms
    | some n =>
      let rest := repeatedNumbers enum path ((n, m.name) :: seen) ms
      match seen.lookup n with
      | none => rest
      | some first =>
        { code := Code.numberingCollision, severity := .error, path
          message := s!"values '{first}' and '{m.name}' of enum '{enum}' both use number {n.toInt}"
        } :: rest

def memberNumbers (m : Model) : List Diagnostic :=
  (m.enums.mapIdx fun i e => repeatedNumbers e.name s!"$.enums[{i}].values" [] e.members).flatten

/-- Numbers are distinct within every type, for targets that number fields, and declared ones within
every enumeration. -/
def numbers (m : Model) (targets : List Target) : List Diagnostic :=
  (targets.filter numberedTargets.contains).flatMap (fieldNumbers m) ++ memberNumbers m

/-- No two declarations have one name in a target without namespaces. -/
def flatNames (m : Model) (table : SymbolTable) (target : Target) : List Diagnostic :=
  ((NameTable.build m target).flatConflicts table).map fun c =>
    { code := Code.duplicateSymbol, severity := .error
      message := "duplicate type name '" ++ c.name ++ "' found in namespaces: " ++
        ", ".intercalate c.namespaces ++ " (" ++ target.name ++ " output)"
      hint := some ("Rename one of the declarations or add a " ++ target.name ++ " name override") }

/-- The version of a model is a semantic version. -/
def version (m : Model) : List Diagnostic :=
  match m.version with
  | none => []
  | some v =>
    match Version.check v with
    | .ok _ => []
    | .error e =>
      [{ code := Code.invalidVersion, severity := .warning, path := "$.version"
         message := s!"Invalid semver version '{v}': " ++ e.message
         hint := some "Version should be valid semver (e.g., '1.0.0')" }]

end Validation

/-- All findings about a model: duplicates, references, unions, map keys, numbers, names, version. -/
def validate (m : Model) (o : Validation.Options) : Report :=
  let (table, duplicates) := SymbolTable.build m
  ⟨duplicates ++ Validation.references table m ++ Validation.unionOptions m ++
    Validation.mapKeys m ++ Validation.numbers m o.targets ++
    o.flatTargets.flatMap (Validation.flatNames m table) ++ Validation.version m⟩

/-- The findings about duplicates and references alone. -/
def validateReferences (m : Model) : Report :=
  let (table, duplicates) := SymbolTable.build m
  ⟨duplicates ++ Validation.references table m⟩

end Triglot
