import Triglot.Model.Basic
import Triglot.Schema.Basic

/-! The schemas of model and settings documents. -/
namespace Triglot

namespace Schema

def nullableText : Schema := orNull .string

def named : String × Schema := ("name", text)

def placed : String × Schema := ("namespace", text.defaulting (.string ""))

def annotated : String × Schema :=
  ("annotations", (within "FormatAnnotations").defaulting (.object []))

def documented : String × Schema := ("doc", optional "Documentation")

/-- A list that is empty unless given. -/
def listOf (definition : String) : Schema := (list (reference definition)).defaulting (.array [])

/-- An alternative of a type expression, told by its kind. -/
def shape (kind : String) (properties : List (String × Schema)) (required : List String) : Schema :=
  object (("kind", choice [kind]) :: properties) required

def fieldType : Schema :=
  (Schema.mk ([.oneOf [
      (shape "named" [named] ["kind", "name"]).described
        "A builtin scalar or a declared Type/Enum/Union (qualified or not)",
      shape "array" [("items", reference "FieldType")] ["items", "kind"],
      (shape "map" [("key", text), ("value", reference "FieldType")]
        ["key", "kind", "value"]).described
        "Keys are always scalars; values may be maps themselves"]] ++
    (object [("optional", flag)] []).keywords)).described "The shape of a field's value"

def target : Schema :=
  (Schema.mk [.oneOf [
    (choice ["proto"]).described "Protocol Buffers 3 (tagged-variant target)",
    (choice ["graphql"]).described "GraphQL SDL (declarative-disjunction target)",
    (choice ["openapi"]).described "OpenAPI 3.0 (discriminator-schema target)"]]).described
    "Schema language a model is translated into."

def bound : Schema := number .number "double" false true

def count : Schema := number .integer "uint64" true true

def statusCodes : Schema := list (number .integer "uint16" true false)

def modelDefinitions : List (String × Schema) :=
  [("DeprecationInfo", (object
      [("reason", nullableText), ("removed", nullableText), ("since", nullableText)] []).described
      "Deprecation notice for a field"),
   ("Documentation", (object
      [("general", nullableText), ("specific", table text)] []).described
      ("Documentation attached to a declaration.\n\n" ++
        "A per-target entry replaces the general text for that target.")),
   ("EnumDef", object
      [annotated, documented, named, placed, ("values", listOf "EnumValue")] ["name"]),
   ("EnumValue", object
      [documented, named, ("number", number .integer "int32" false true)] ["name"]),
   ("Field", object
      [annotated,
       ("default", nullableText.described "Default literal, kept as written"),
       ("deprecated", optional "DeprecationInfo"), documented,
       ("excludeFrom", (list (reference "Target")).described "Targets this field is left out of"),
       named,
       ("number", (number .integer "uint32" true true).described "Explicit wire number"),
       ("onlyFor", (list (reference "Target")).described
          "When non-empty, the only targets this field appears in"),
       ("required", flag.defaulting (.bool false)),
       ("since", nullableText.described "Version the field was introduced in"),
       ("type", reference "FieldType"), ("validation", optional "ValidationRules")]
      ["name", "type"]),
   ("FieldType", fieldType),
   ("FormatAnnotations", object
      [("graphql", reference "TargetAnnotations"), ("openapi", reference "TargetAnnotations"),
       ("proto", reference "TargetAnnotations")] []),
   ("HttpMethod", (choice (HttpVerb.all.map HttpVerb.name)).described
      "HTTP methods a service method can be exposed under"),
   ("Method", object
      [("clientStreaming", flag), documented, ("errorCodes", statusCodes),
       ("httpMethod", optional "HttpMethod"), ("input", text), named,
       ("operation", optional "OperationKind"), ("output", text),
       ("path", nullableText.described "Path template such as `/users/\x7bid\x7d`"),
       ("serverStreaming", flag), ("successCodes", statusCodes)]
      ["input", "name", "output"]),
   ("OperationKind", (choice (RootKind.all.map RootKind.name)).described
      "GraphQL root operation a method is exposed under"),
   ("ServiceDef", object [documented, ("methods", listOf "Method"), named, placed] ["name"]),
   ("Target", target),
   ("TargetAnnotations", (object
      [("name", nullableText.described "Name to emit instead of the declared name"),
       ("options", (list text).described
          "Proto options, GraphQL directives, or OpenAPI extension objects (JSON)")] []).described
      "Per-target name override and raw option strings."),
   ("TypeDef", (object
      [annotated, documented, ("fields", listOf "Field"), named, placed] ["name"]).described
      "An object type with ordered fields"),
   ("UnionDef", (object
      [annotated, documented, named, placed,
       ("options", (list text).described "Option type names, order preserved")]
      ["name", "options"]).described "A closed set of alternative object types"),
   ("ValidationRules", (object
      [("enum", list text), ("exclusiveMax", bound), ("exclusiveMin", bound),
       ("format", nullableText.described
          "email, uuid, uri, url, hostname, ipv4, ipv6, date, date-time"),
       ("max", bound), ("maxItems", count), ("maxLength", count), ("min", bound),
       ("minItems", count), ("minLength", count), ("multipleOf", bound), ("pattern", nullableText),
       ("uniqueItems", flag)] []).described
      "Validation constraints carried into targets that can express them")]

def targetNames : Json := .strings (Target.all.map Target.name)

def settingsDefinitions : List (String × Schema) :=
  [("DocumentFormat", (choice ["yaml", "json"]).described
      "Serialization format of a structured output document"),
   ("OpenApiConfig", object
      [("format", (within "DocumentFormat").defaulting (.string "yaml")),
       ("version", text.defaulting (.string "3.0.0"))] []),
   ("OutputConfig", object
      [("directory", text.defaulting (.string "generated")),
       ("filenames", (table text).described "Per-target output file name overrides"),
       ("targets", (list (reference "Target")).defaulting targetNames)] []),
   ("ProtoConfig", object
      [("splitByNamespace", (flag.defaulting (.bool false)).described
          "Emit one `.proto` file per namespace instead of a single file")] []),
   ("Target", target)]

end Schema

def modelSchema : DocumentSchema where
  title := "Schema"
  schema := (Schema.object
    [("enums", .listOf "EnumDef"),
     ("namespace", (Schema.text.defaulting (.string "")).described
        "Primary namespace (package) of the model"),
     ("namespaceAnnotations", ((Schema.within "FormatAnnotations").defaulting (.object [])).described
        ("File-level annotations: proto options, GraphQL schema directives, OpenAPI " ++
          "`title:` / `version:` / `description:` overrides")),
     ("services", .listOf "ServiceDef"), ("types", .listOf "TypeDef"),
     ("unions", .listOf "UnionDef"),
     ("version", Schema.nullableText.described "Model version, used as the OpenAPI info version")]
    []).described "A complete model: every declaration that takes part in one generation run."
  definitions := Schema.modelDefinitions

def settingsSchema : DocumentSchema where
  title := "GeneratorConfig"
  schema := (Schema.object
    [("$schema", Schema.nullableText.described "JSON Schema reference"),
     ("openapi", (Schema.within "OpenApiConfig").defaulting
        (.object [("format", .string "yaml"), ("version", .string "3.0.0")])),
     ("output", (Schema.within "OutputConfig").defaulting
        (.object [("directory", .string "generated"), ("targets", Schema.targetNames)])),
     ("proto", (Schema.within "ProtoConfig").defaulting
        (.object [("splitByNamespace", .bool false)]))]
    []).described "Generator configuration (idlmux.config.json / idlmux.config.yaml)"
  definitions := Schema.settingsDefinitions

end Triglot
