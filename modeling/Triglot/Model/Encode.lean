import Triglot.Json.Basic
import Triglot.Model.Basic

/-! Model and settings documents as values. A field that has its default is left out where a reader
supplies it; keys stand in sorted order. -/
namespace Triglot.Encode

/-- An entry that is there only with a value. -/
def optional {α : Type} (key : String) (encode : α → Json) : Option α → List (String × Json)
  | some a => [(key, encode a)]
  | none => []

/-- An entry that is there only if the list has items. -/
def unlessEmpty {α : Type} (key : String) (encode : α → Json) : List α → List (String × Json)
  | [] => []
  | as => [(key, .array (as.map encode))]

/-- An entry that is there only if it is true. -/
def ifTrue (key : String) : Bool → List (String × Json)
  | true => [(key, .bool true)]
  | false => []

end Triglot.Encode

namespace Triglot

open Encode (optional unlessEmpty ifTrue)

def Target.encode (t : Target) : Json := .string t.name

/-- The texts that are set, by target names. -/
def PerTarget.encodeTexts (p : PerTarget (Option String)) : List (String × Json) :=
  optional "graphql" .string p.graphql ++ optional "openapi" .string p.openapi ++
    optional "proto" .string p.proto

/-- An entry for a table by target, left out if nothing is set. -/
def PerTarget.textsEntry (key : String) (p : PerTarget (Option String)) : List (String × Json) :=
  match p.encodeTexts with
  | [] => []
  | entries => [(key, .object entries)]

def Doc.encode (d : Doc) : Json :=
  .object (optional "general" .string d.general ++ d.specific.textsEntry "specific")

def Notes.encode (n : Notes) : Json :=
  .object (optional "name" .string n.name ++ unlessEmpty "options" .string n.options)

def Notes.entry (key : String) (n : Notes) : List (String × Json) :=
  if n.isEmpty then [] else [(key, n.encode)]

def Annotations.encode (a : Annotations) : Json :=
  .object (a.graphql.entry "graphql" ++ a.openapi.entry "openapi" ++ a.proto.entry "proto")

def Deprecation.encode (d : Deprecation) : Json :=
  .object (optional "reason" .string d.reason ++ optional "removed" .string d.removed ++
    optional "since" .string d.since)

def encodeWord (n : UInt64) : Json := .nat n.toNat

def Rules.encode (r : Rules) : Json :=
  .object (unlessEmpty "enum" .string r.allowed ++ optional "exclusiveMax" .real r.exclusiveMax ++
    optional "exclusiveMin" .real r.exclusiveMin ++ optional "format" .string r.format ++
    optional "max" .real r.max ++ optional "maxItems" encodeWord r.maxItems ++
    optional "maxLength" encodeWord r.maxLength ++ optional "min" .real r.min ++
    optional "minItems" encodeWord r.minItems ++ optional "minLength" encodeWord r.minLength ++
    optional "multipleOf" .real r.multipleOf ++ optional "pattern" .string r.pattern ++
    ifTrue "uniqueItems" r.uniqueItems)

def TypeExpr.encode : TypeExpr → Json
  | .named name o => .object ([("kind", .string "named"), ("name", .string name)] ++
      ifTrue "optional" o)
  | .array items o => .object ([("items", items.encode), ("kind", .string "array")] ++
      ifTrue "optional" o)
  | .map key value o => .object ([("key", .string key), ("kind", .string "map")] ++
      ifTrue "optional" o ++ [("value", value.encode)])

def Field.encode (f : Field) : Json :=
  .object ([("annotations", f.annotations.encode)] ++ optional "default" .string f.default ++
    optional "deprecated" Deprecation.encode f.deprecated ++ optional "doc" Doc.encode f.doc ++
    unlessEmpty "excludeFrom" Target.encode f.excludeFrom ++ [("name", .string f.name)] ++
    optional "number" (fun n => .nat n.toNat) f.number ++
    unlessEmpty "onlyFor" Target.encode f.onlyFor ++ [("required", .bool f.required)] ++
    optional "since" .string f.since ++ [("type", f.type.encode)] ++
    optional "validation" Rules.encode f.rules)

def ObjectType.encode (t : ObjectType) : Json :=
  .object ([("annotations", t.annotations.encode)] ++ optional "doc" Doc.encode t.doc ++
    [("fields", .array (t.fields.map Field.encode)), ("name", .string t.name),
     ("namespace", .string t.ns)])

def EnumMember.encode (m : EnumMember) : Json :=
  .object (optional "doc" Doc.encode m.doc ++ [("name", .string m.name)] ++
    optional "number" (fun n => .whole n.toInt) m.number)

def EnumType.encode (e : EnumType) : Json :=
  .object ([("annotations", e.annotations.encode)] ++ optional "doc" Doc.encode e.doc ++
    [("name", .string e.name), ("namespace", .string e.ns),
     ("values", .array (e.members.map EnumMember.encode))])

def UnionType.encode (u : UnionType) : Json :=
  .object ([("annotations", u.annotations.encode)] ++ optional "doc" Doc.encode u.doc ++
    [("name", .string u.name), ("namespace", .string u.ns), ("options", .strings u.options)])

def encodeCode (n : UInt16) : Json := .nat n.toNat

def Method.encode (m : Method) : Json :=
  .object (ifTrue "clientStreaming" m.clientStreaming ++ optional "doc" Doc.encode m.doc ++
    unlessEmpty "errorCodes" encodeCode m.errorCodes ++
    optional "httpMethod" (fun v => .string v.name) m.httpVerb ++
    [("input", .string m.input), ("name", .string m.name)] ++
    optional "operation" (fun k => .string k.name) m.root ++ [("output", .string m.output)] ++
    optional "path" .string m.path ++ ifTrue "serverStreaming" m.serverStreaming ++
    unlessEmpty "successCodes" encodeCode m.successCodes)

def Service.encode (s : Service) : Json :=
  .object (optional "doc" Doc.encode s.doc ++
    [("methods", .array (s.methods.map Method.encode)), ("name", .string s.name),
     ("namespace", .string s.ns)])

def Model.encode (m : Model) : Json :=
  .object ([("enums", .array (m.enums.map EnumType.encode)), ("namespace", .string m.ns),
     ("namespaceAnnotations", m.annotations.encode),
     ("services", .array (m.services.map Service.encode)),
     ("types", .array (m.types.map ObjectType.encode)),
     ("unions", .array (m.unions.map UnionType.encode))] ++
    optional "version" .string m.version)

def OutputSettings.encode (o : OutputSettings) : Json :=
  .object ([("directory", .string o.directory)] ++ o.filenames.textsEntry "filenames" ++
    [("targets", .array (o.targets.map Target.encode))])

def Settings.encode (s : Settings) : Json :=
  .object (optional "$schema" .string s.schema ++
    [("openapi", .object [("format", .string s.openapi.format.name),
       ("version", .string s.openapi.version)]),
     ("output", s.output.encode),
     ("proto", .object [("splitByNamespace", .bool s.proto.splitByNamespace)])])

end Triglot
