import Triglot.Entries
import Triglot.Model.Basic
import Triglot.Json.Basic

/-! OpenAPI documents. Schemas are plain values with sorted keys; paths, responses and components keep
the order in which they are made. -/
namespace Triglot.OpenApi

structure Info where
  title : String
  version : String
  description : Option String := none
deriving DecidableEq, Repr

structure Response where
  description : String
  schema : Json
deriving Repr

structure Operation where
  summary : String
  operationId : String
  description : Option String
  parameters : List String
  requestBody : Option Json
  responses : List (String × Response)
deriving Repr

/-- The operations of one path, at most one for each verb. -/
structure PathItem where
  get : Option Operation := none
  post : Option Operation := none
  put : Option Operation := none
  patch : Option Operation := none
  delete : Option Operation := none
deriving Repr

namespace PathItem

def slot (p : PathItem) : HttpVerb → Option Operation
  | .get => p.get
  | .post => p.post
  | .put => p.put
  | .patch => p.patch
  | .delete => p.delete

def fill (p : PathItem) (verb : HttpVerb) (o : Operation) : PathItem :=
  match verb with
  | .get => { p with get := some o }
  | .post => { p with post := some o }
  | .put => { p with put := some o }
  | .patch => { p with patch := some o }
  | .delete => { p with delete := some o }

end PathItem

structure Document where
  version : String
  info : Info
  paths : List (String × PathItem)
  schemas : List (String × Json)
deriving Repr

def schemaPath (name : String) : String := "#/components/schemas/" ++ name

/-- A schema that refers to a component. -/
def schemaRef (name : String) : Json := .object [("$ref", .string (schemaPath name))]

/-! The written form of each part. -/

def optionalEntry (key : String) (value : Option Json) : List (String × Json) :=
  (value.map fun v => (key, v)).toList

def content (schema : Json) : Json :=
  .object [("application/json", .object [("schema", schema)])]

def Info.encode (i : Info) : Json :=
  .object ([("title", .string i.title), ("version", .string i.version)] ++
    optionalEntry "description" (i.description.map .string))

def Response.encode (r : Response) : Json :=
  .object [("description", .string r.description), ("content", content r.schema)]

/-- A parameter of the path is a required string. -/
def parameterJson (name : String) : Json :=
  .object [("name", .string name), ("in", .string "path"), ("required", .bool true),
    ("schema", .object [("type", .string "string")])]

def requestJson (schema : Json) : Json :=
  .object [("required", .bool true), ("content", content schema)]

def Operation.encode (o : Operation) : Json :=
  .object ([("summary", .string o.summary), ("operationId", .string o.operationId)] ++
    optionalEntry "description" (o.description.map .string) ++
    (if o.parameters.isEmpty then [] else [("parameters", .array (o.parameters.map parameterJson))]) ++
    optionalEntry "requestBody" (o.requestBody.map requestJson) ++
    [("responses", .object (o.responses.map fun r => (r.1, r.2.encode)))])

def PathItem.encode (p : PathItem) : Json :=
  .object (HttpVerb.all.flatMap fun verb => optionalEntry verb.name ((p.slot verb).map (·.encode)))

def Document.encode (d : Document) : Json :=
  .object [("openapi", .string d.version), ("info", d.info.encode),
    ("paths", .object (d.paths.map fun p => (p.1, p.2.encode))),
    ("components", .object [("schemas", .object d.schemas)])]

end Triglot.OpenApi
