import Triglot.Namespace.Scope
import Triglot.OpenApi.Basic
import Triglot.Text.Case

/-! Routes: every method is an operation under a path and a verb, and the first one there stays. -/
namespace Triglot.OpenApi

/-- A character that may stand in the name of a parameter. -/
def isParameterChar (c : Char) : Bool := c != '\x7b' && c != '\x7d' && c != '/'

/-- The names between braces, from left to right. -/
def parameters (cs : List Char) : List String :=
  match cs with
  | [] => []
  | c :: rest =>
    if c = '\x7b' then
      let name := rest.takeWhile isParameterChar
      match rest.dropWhile isParameterChar with
      | '\x7d' :: _ =>
        if name.isEmpty then parameters rest else String.ofList name :: parameters rest
      | _ => parameters rest
    else parameters rest

def pathParameters (path : String) : List String := parameters path.toList

def successDescription (code : Nat) : String :=
  match code with
  | 200 => "OK - Successful response"
  | 201 => "Created - Resource created successfully"
  | 202 => "Accepted - Request accepted for processing"
  | 204 => "No Content - Successful request with no response body"
  | 206 => "Partial Content - Partial resource returned"
  | _ => s!"Success response ({code})"

def errorDescription (code : Nat) : String :=
  match code with
  | 400 => "Bad Request - Invalid input parameters"
  | 401 => "Unauthorized - Authentication required"
  | 403 => "Forbidden - Insufficient permissions"
  | 404 => "Not Found - Resource not found"
  | 409 => "Conflict - Resource already exists or conflict"
  | 422 => "Unprocessable Entity - Validation error"
  | 429 => "Too Many Requests - Rate limit exceeded"
  | 500 => "Internal Server Error"
  | 502 => "Bad Gateway"
  | 503 => "Service Unavailable"
  | 504 => "Gateway Timeout"
  | _ => s!"Error response ({code})"

/-- The body of a failed request. -/
def errorSchema : Json :=
  let text (description : String) : Json :=
    .ofEntries [("type", .string "string"), ("description", .string description)]
  .ofEntries [("type", .string "object"),
    ("properties", .ofEntries [("error", text "Error message"), ("code", text "Error code")])]

/-- One response for a plain success and one for each listed code; a later one replaces an earlier
one of the same code. -/
def responses (m : Method) (output : String) : List (String × Response) :=
  let listed :=
    (m.successCodes.map fun c =>
      (toString c.toNat, ⟨successDescription c.toNat, schemaRef output⟩)) ++
    (m.errorCodes.map fun c => (toString c.toNat, ⟨errorDescription c.toNat, errorSchema⟩))
  listed.foldl (fun rs r => putEntry r.1 r.2 rs)
    [("200", ⟨"Successful response", schemaRef output⟩)]

def operation (scope : Scope) (m : Method) (path : String) : Except ResolveError Operation := do
  let input ← scope.reference m.input
  let output ← scope.reference m.output
  pure { summary := m.name ++ " operation", operationId := m.name
         description := docText m.doc .openapi, parameters := pathParameters path
         requestBody := if m.verb.hasBody then some (schemaRef input.text) else none
         responses := responses m output.text }

/-- A method with its place in the model and its path. -/
structure Route where
  serviceIndex : Nat
  methodIndex : Nat
  ns : String
  method : Method
  path : String
deriving DecidableEq, Repr

def defaultPath (s : Service) (m : Method) : String :=
  "/" ++ Text.lower s.name ++ "/" ++ Text.lower m.name

/-- All methods in the order of their services. -/
def routes (services : List Service) : List Route :=
  services.zipIdx.flatMap fun (s, i) => s.methods.zipIdx.map fun (m, j) =>
    ⟨i, j, s.ns, m, m.path.getD (defaultPath s m)⟩

/-- The warning for a route that another one has taken. -/
def taken (r : Route) (holder : Operation) : Diagnostic :=
  { code := Code.duplicateOperation, severity := .warning
    message := Text.upper r.method.verb.name ++ " " ++ r.path ++ " is already served by '" ++
      holder.operationId ++ "'; '" ++ r.method.name ++ "' is left out"
    path := s!"$.services[{r.serviceIndex}].methods[{r.methodIndex}]"
    hint := some "Give the method its own path or HTTP method" }

structure PathTable where
  items : List (String × PathItem) := []
  warnings : List Diagnostic := []
deriving Repr

/-- Stores an operation in its slot, unless the slot is taken. -/
def PathTable.add (t : PathTable) (r : Route) (o : Operation) : PathTable :=
  let item := (t.items.lookup r.path).getD {}
  match item.slot r.method.verb with
  | some holder => { t with warnings := t.warnings ++ [taken r holder] }
  | none => { t with items := putEntry r.path (item.fill r.method.verb o) t.items }

def buildPaths (scope : Scope) (services : List Service) : Except ResolveError PathTable := do
  let operations ← (routes services).mapM fun r => do
    pure (r, ← operation (scope.within r.ns) r.method r.path)
  pure (operations.foldl (fun t (r, o) => t.add r o) {})

end Triglot.OpenApi
