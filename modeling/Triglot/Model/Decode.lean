import Triglot.Json.Decode
import Triglot.Model.Basic

/-! Model and settings documents as data: which records they are made of, and how each is read. -/
namespace Triglot

open Decoder (Shape)

/-- A field that must be there. -/
def Decoder.needed {α β : Type} (key : String) (d : Decoder β) (set : β → α → α) :
    Decoder.Field α :=
  ⟨key, .needed, fun v a => (d v).map fun b => set b a⟩

/-- A field that may be left out. -/
def Decoder.defaulted {α β : Type} (key : String) (d : Decoder β) (set : β → α → α) :
    Decoder.Field α :=
  ⟨key, .free, fun v a => (d v).map fun b => set b a⟩

open Decoder (needed defaulted)

def Target.decode : Decoder Target := Decoder.variant Target.table

/-- A table by target names. -/
def PerTarget.decodeTexts : Decoder (PerTarget (Option String))
  | .object entries =>
    entries.foldlM (fun p e => do
      let t ← Decoder.variantName Target.table e.1
      let s ← Decoder.string e.2
      pure (p.set t (some s))) (.replicate none)
  | v => .error (.wrongType (.of v) "a map")

def Doc.shape : Shape Doc where
  title := "struct Documentation"
  start := {}
  fields := [
    defaulted "general" (.option .string) fun v d => { d with general := v },
    defaulted "specific" PerTarget.decodeTexts fun v d => { d with specific := v }]

def Doc.decode : Decoder Doc := Doc.shape.decode

def Notes.shape : Shape Notes where
  title := "struct TargetAnnotations"
  start := {}
  fields := [
    defaulted "name" (.option .string) fun v n => { n with name := v },
    defaulted "options" (.list .string) fun v n => { n with options := v }]

def Annotations.shape : Shape Annotations where
  title := "struct FormatAnnotations"
  start := .none
  fields := [
    defaulted "proto" Notes.shape.decode fun v a => a.set .proto v,
    defaulted "graphql" Notes.shape.decode fun v a => a.set .graphql v,
    defaulted "openapi" Notes.shape.decode fun v a => a.set .openapi v]

def Annotations.decode : Decoder Annotations := Annotations.shape.decode

def Deprecation.shape : Shape Deprecation where
  title := "struct DeprecationInfo"
  start := {}
  fields := [
    defaulted "reason" (.option .string) fun v d => { d with reason := v },
    defaulted "since" (.option .string) fun v d => { d with since := v },
    defaulted "removed" (.option .string) fun v d => { d with removed := v }]

def Deprecation.decode : Decoder Deprecation := Deprecation.shape.decode

def Rules.shape : Shape Rules where
  title := "struct ValidationRules"
  start := {}
  fields := [
    defaulted "minLength" (.option .uint64) fun v r => { r with minLength := v },
    defaulted "maxLength" (.option .uint64) fun v r => { r with maxLength := v },
    defaulted "pattern" (.option .string) fun v r => { r with pattern := v },
    defaulted "format" (.option .string) fun v r => { r with format := v },
    defaulted "min" (.option .real) fun v r => { r with min := v },
    defaulted "max" (.option .real) fun v r => { r with max := v },
    defaulted "exclusiveMin" (.option .real) fun v r => { r with exclusiveMin := v },
    defaulted "exclusiveMax" (.option .real) fun v r => { r with exclusiveMax := v },
    defaulted "multipleOf" (.option .real) fun v r => { r with multipleOf := v },
    defaulted "minItems" (.option .uint64) fun v r => { r with minItems := v },
    defaulted "maxItems" (.option .uint64) fun v r => { r with maxItems := v },
    defaulted "uniqueItems" .bool fun v r => { r with uniqueItems := v },
    defaulted "enum" (.list .string) fun v r => { r with allowed := v }]

/-- The three forms of a type expression. -/
inductive TypeKind where
  | named
  | array
  | map
deriving DecidableEq, Repr

def TypeKind.table : List (String × TypeKind) :=
  [("named", .named), ("array", .array), ("map", .map)]

/-- The form of a type expression, by name or by position among the names. -/
def TypeKind.decode : Decoder TypeKind
  | .string s => Decoder.variantName TypeKind.table s
  | .number (.whole (.ofNat n)) =>
    match TypeKind.table[n]? with
    | some (_, k) => .ok k
    | none => .error (.wrongValue (.integer n) "variant index 0 <= i < 3")
  | v => .error (.wrongType (.of v) "variant identifier")

theorem Json.sizeOf_lookup_lt {entries : List (String × Json)} {key : String} {v : Json}
    (h : entries.lookup key = some v) : sizeOf v < sizeOf entries := by
  induction entries with
  | nil => simp at h
  | cons e es ih =>
    obtain ⟨k, w⟩ := e
    rw [List.lookup_cons] at h
    split at h
    · cases h
      simp only [List.cons.sizeOf_spec, Prod.mk.sizeOf_spec]
      omega
    · have := ih h
      simp only [List.cons.sizeOf_spec]
      omega

/-- The mark of an optional type, which is read before anything else. -/
def TypeExpr.decodeOptional (entries : List (String × Json)) : Except DecodeError Bool :=
  match entries.lookup "optional" with
  | some v => Decoder.bool v
  | none => .ok false

def TypeExpr.decodeKind (entries : List (String × Json)) : Except DecodeError TypeKind :=
  match entries.lookup "kind" with
  | some v => TypeKind.decode v
  | none => .error (.missingField "kind")

/-- A text that must be there. -/
def TypeExpr.decodeText (key : String) (entries : List (String × Json)) :
    Except DecodeError String :=
  match entries.lookup key with
  | some v => Decoder.string v
  | none => .error (.missingField key)

/-- Reads a type expression: the optional mark, the form, then the parts of the form. Where a part is
missing and another is faulty, the fault is told. -/
def TypeExpr.decode : Decoder TypeExpr
  | .object entries => do
    let optional ← decodeOptional entries
    match ← decodeKind entries with
    | .named => return .named (← decodeText "name" entries) optional
    | .array =>
      match _h : entries.lookup "items" with
      | none => .error (.missingField "items")
      | some v => return .array (← TypeExpr.decode v) optional
    | .map =>
      match _h : entries.lookup "value" with
      | none =>
        let _ ← decodeText "key" entries
        .error (.missingField "value")
      | some v =>
        match entries.lookup "key" with
        | some k => return .map (← Decoder.string k) (← TypeExpr.decode v) optional
        | none =>
          let _ ← TypeExpr.decode v
          .error (.missingField "key")
  | v => .error (.wrongType (.of v) "struct FieldType")
termination_by v => sizeOf v
decreasing_by
  all_goals
    have := Json.sizeOf_lookup_lt (by assumption)
    simp only [Json.object.sizeOf_spec]
    omega

def Field.shape : Shape Field where
  title := "struct Field"
  start := { name := "", type := .named "" false }
  fields := [
    needed "name" .string fun v f => { f with name := v },
    needed "type" TypeExpr.decode fun v f => { f with type := v },
    defaulted "required" .bool fun v f => { f with required := v },
    defaulted "default" (.option .string) fun v f => { f with default := v },
    defaulted "excludeFrom" (.list Target.decode) fun v f => { f with excludeFrom := v },
    defaulted "onlyFor" (.list Target.decode) fun v f => { f with onlyFor := v },
    defaulted "number" (.option .uint32) fun v f => { f with number := v },
    defaulted "deprecated" (.option Deprecation.decode) fun v f => { f with deprecated := v },
    defaulted "validation" (.option Rules.shape.decode) fun v f => { f with rules := v },
    defaulted "doc" (.option Doc.decode) fun v f => { f with doc := v },
    defaulted "annotations" Annotations.decode fun v f => { f with annotations := v },
    defaulted "since" (.option .string) fun v f => { f with since := v }]

def Field.decode : Decoder Field := Field.shape.decode

def ObjectType.shape : Shape ObjectType where
  title := "struct TypeDef"
  start := { name := "" }
  fields := [
    needed "name" .string fun v t => { t with name := v },
    defaulted "namespace" .string fun v t => { t with ns := v },
    defaulted "fields" (.list Field.decode) fun v t => { t with fields := v },
    defaulted "doc" (.option Doc.decode) fun v t => { t with doc := v },
    defaulted "annotations" Annotations.decode fun v t => { t with annotations := v }]

def ObjectType.decode : Decoder ObjectType := ObjectType.shape.decode

def EnumMember.shape : Shape EnumMember where
  title := "struct EnumValue"
  start := { name := "" }
  fields := [
    needed "name" .string fun v m => { m with name := v },
    defaulted "number" (.option .int32) fun v m => { m with number := v },
    defaulted "doc" (.option Doc.decode) fun v m => { m with doc := v }]

def EnumType.shape : Shape EnumType where
  title := "struct EnumDef"
  start := { name := "" }
  fields := [
    needed "name" .string fun v e => { e with name := v },
    defaulted "namespace" .string fun v e => { e with ns := v },
    defaulted "values" (.list EnumMember.shape.decode) fun v e => { e with members := v },
    defaulted "doc" (.option Doc.decode) fun v e => { e with doc := v },
    defaulted "annotations" Annotations.decode fun v e => { e with annotations := v }]

def EnumType.decode : Decoder EnumType := EnumType.shape.decode

def UnionType.shape : Shape UnionType where
  title := "struct UnionDef"
  start := { name := "" }
  fields := [
    needed "name" .string fun v u => { u with name := v },
    defaulted "namespace" .string fun v u => { u with ns := v },
    needed "options" (.list .string) fun v u => { u with options := v },
    defaulted "doc" (.option Doc.decode) fun v u => { u with doc := v },
    defaulted "annotations" Annotations.decode fun v u => { u with annotations := v }]

def UnionType.decode : Decoder UnionType := UnionType.shape.decode

def Method.shape : Shape Method where
  title := "struct Method"
  start := { name := "", input := "", output := "" }
  fields := [
    needed "name" .string fun v m => { m with name := v },
    needed "input" .string fun v m => { m with input := v },
    needed "output" .string fun v m => { m with output := v },
    defaulted "clientStreaming" .bool fun v m => { m with clientStreaming := v },
    defaulted "serverStreaming" .bool fun v m => { m with serverStreaming := v },
    defaulted "httpMethod" (.option (.variant HttpVerb.table)) fun v m => { m with httpVerb := v },
    defaulted "operation" (.option (.variant RootKind.table)) fun v m => { m with root := v },
    defaulted "path" (.option .string) fun v m => { m with path := v },
    defaulted "successCodes" (.list .uint16) fun v m => { m with successCodes := v },
    defaulted "errorCodes" (.list .uint16) fun v m => { m with errorCodes := v },
    defaulted "doc" (.option Doc.decode) fun v m => { m with doc := v }]

def Method.decode : Decoder Method := Method.shape.decode

def Service.shape : Shape Service where
  title := "struct ServiceDef"
  start := { name := "" }
  fields := [
    needed "name" .string fun v s => { s with name := v },
    defaulted "namespace" .string fun v s => { s with ns := v },
    defaulted "methods" (.list Method.decode) fun v s => { s with methods := v },
    defaulted "doc" (.option Doc.decode) fun v s => { s with doc := v }]

def Model.shape : Shape Model where
  title := "struct Schema"
  start := {}
  fields := [
    defaulted "namespace" .string fun v m => { m with ns := v },
    defaulted "version" (.option .string) fun v m => { m with version := v },
    defaulted "namespaceAnnotations" Annotations.decode fun v m => { m with annotations := v },
    defaulted "enums" (.list EnumType.decode) fun v m => { m with enums := v },
    defaulted "types" (.list ObjectType.decode) fun v m => { m with types := v },
    defaulted "unions" (.list UnionType.decode) fun v m => { m with unions := v },
    defaulted "services" (.list Service.shape.decode) fun v m => { m with services := v }]

def Model.decode : Decoder Model := Model.shape.decode

def DocumentFormat.decode : Decoder DocumentFormat := Decoder.variant DocumentFormat.table

def OutputSettings.shape : Shape OutputSettings where
  title := "struct OutputConfig"
  start := {}
  fields := [
    defaulted "directory" .string fun v o => { o with directory := v },
    defaulted "targets" (.list Target.decode) fun v o => { o with targets := v },
    defaulted "filenames" PerTarget.decodeTexts fun v o => { o with filenames := v }]

def ProtoSettings.shape : Shape ProtoSettings where
  title := "struct ProtoConfig"
  start := {}
  fields := [
    defaulted "splitByNamespace" .bool fun v p => { p with splitByNamespace := v }]

def OpenApiSettings.shape : Shape OpenApiSettings where
  title := "struct OpenApiConfig"
  start := {}
  fields := [
    defaulted "version" .string fun v o => { o with version := v },
    defaulted "format" DocumentFormat.decode fun v o => { o with format := v }]

def Settings.shape : Shape Settings where
  title := "struct GeneratorConfig"
  start := {}
  fields := [
    defaulted "$schema" (.option .string) fun v s => { s with schema := v },
    defaulted "output" OutputSettings.shape.decode fun v s => { s with output := v },
    defaulted "proto" ProtoSettings.shape.decode fun v s => { s with proto := v },
    defaulted "openapi" OpenApiSettings.shape.decode fun v s => { s with openapi := v }]

def Settings.decode : Decoder Settings := Settings.shape.decode

end Triglot
