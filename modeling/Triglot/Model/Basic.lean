import Triglot.Model.Target
import Triglot.Number.Binary64

/-! The interface model: object types, enumerations, unions and services, with the notes that steer
each target, and the settings of a generation run. -/
namespace Triglot

/-- Documentation: a text for one target replaces the general one there. -/
structure Doc where
  general : Option String := none
  specific : PerTarget (Option String) := .replicate none
deriving DecidableEq, Repr, Inhabited

/-- The text for a target, unless it is empty. -/
def Doc.text (d : Doc) (t : Target) : Option String :=
  ((d.specific.get t).or d.general).filter (!·.isEmpty)

/-- The documentation text of an optional note. -/
def docText (d : Option Doc) (t : Target) : Option String := d.bind (·.text t)

/-- What one target is told about a declaration: another name, and options in its own language. -/
structure Notes where
  name : Option String := none
  options : List String := []
deriving DecidableEq, Repr, Inhabited

def Notes.isEmpty (n : Notes) : Bool := n.name.isNone && n.options.isEmpty

abbrev Annotations := PerTarget Notes

def Annotations.none : Annotations := .replicate {}

/-- The other name for a target; a blank one does not count. -/
def Annotations.nameFor (a : Annotations) (t : Target) : Option String :=
  (a.get t).name.filter fun n => !(Text.trim n).isEmpty

def Annotations.optionsFor (a : Annotations) (t : Target) : List String := (a.get t).options

structure Deprecation where
  reason : Option String := none
  since : Option String := none
  removed : Option String := none
deriving DecidableEq, Repr, Inhabited

/-- The versions of a deprecation, each part only if it is known. -/
def Deprecation.versionNote (d : Deprecation) : String :=
  (d.since.map fun v => " (since " ++ v ++ ")").getD "" ++
    (d.removed.map fun v => " - will be removed in " ++ v).getD ""

/-- Constraints on the values of a field. -/
structure Rules where
  minLength : Option UInt64 := none
  maxLength : Option UInt64 := none
  pattern : Option String := none
  format : Option String := none
  min : Option Binary64 := none
  max : Option Binary64 := none
  exclusiveMin : Option Binary64 := none
  exclusiveMax : Option Binary64 := none
  multipleOf : Option Binary64 := none
  minItems : Option UInt64 := none
  maxItems : Option UInt64 := none
  uniqueItems : Bool := false
  allowed : List String := []
deriving DecidableEq, Repr, Inhabited

/-- The type of a field. Names are those of scalars or declarations, keys those of scalars. -/
inductive TypeExpr where
  | named (name : String) (optional : Bool)
  | array (items : TypeExpr) (optional : Bool)
  | map (key : String) (value : TypeExpr) (optional : Bool)
deriving DecidableEq, Repr, Inhabited

namespace TypeExpr

def isOptional : TypeExpr → Bool
  | .named _ o => o
  | .array _ o => o
  | .map _ _ o => o

def name? : TypeExpr → Option String
  | .named n _ => some n
  | _ => none

def isMap : TypeExpr → Bool
  | .map .. => true
  | _ => false

/-- The name at the end of a chain of arrays and maps. -/
def leafName : TypeExpr → String
  | .named n _ => n
  | .array items _ => items.leafName
  | .map _ value _ => value.leafName

/-- Every name that is mentioned apart from map keys. -/
def referencedNames (t : TypeExpr) : List String := [t.leafName]

/-- The shape as a text, without regard to what is optional. -/
def signature : TypeExpr → String
  | .named n _ => n
  | .array items _ => "[" ++ items.signature ++ "]"
  | .map key value _ => "map<" ++ key ++ "," ++ value.signature ++ ">"

end TypeExpr

structure Field where
  name : String
  type : TypeExpr
  required : Bool := false
  default : Option String := none
  excludeFrom : List Target := []
  onlyFor : List Target := []
  number : Option UInt32 := none
  deprecated : Option Deprecation := none
  rules : Option Rules := none
  doc : Option Doc := none
  annotations : Annotations := .none
  since : Option String := none
deriving DecidableEq, Repr, Inhabited

/-- Whether a field takes part in a target. -/
def Field.includes (f : Field) (t : Target) : Bool :=
  if f.onlyFor.isEmpty then !f.excludeFrom.contains t else f.onlyFor.contains t

def Field.isNonNull (f : Field) : Bool := f.required && !f.type.isOptional

structure ObjectType where
  name : String
  ns : String := ""
  fields : List Field := []
  doc : Option Doc := none
  annotations : Annotations := .none
deriving DecidableEq, Repr, Inhabited

/-- The fields that take part in a target. -/
def ObjectType.includedFields (o : ObjectType) (t : Target) : List Field :=
  o.fields.filter (·.includes t)

structure EnumMember where
  name : String
  number : Option Int32 := none
  doc : Option Doc := none
deriving DecidableEq, Repr, Inhabited

structure EnumType where
  name : String
  ns : String := ""
  members : List EnumMember := []
  doc : Option Doc := none
  annotations : Annotations := .none
deriving DecidableEq, Repr, Inhabited

structure UnionType where
  name : String
  ns : String := ""
  options : List String := []
  doc : Option Doc := none
  annotations : Annotations := .none
deriving DecidableEq, Repr, Inhabited

inductive HttpVerb where
  | get
  | post
  | put
  | patch
  | delete
deriving DecidableEq, Repr, Inhabited

namespace HttpVerb

def name : HttpVerb → String
  | .get => "get"
  | .post => "post"
  | .put => "put"
  | .patch => "patch"
  | .delete => "delete"

def all : List HttpVerb := [.get, .post, .put, .patch, .delete]

def table : List (String × HttpVerb) := all.map fun v => (v.name, v)

/-- Whether requests carry a body. -/
def hasBody : HttpVerb → Bool
  | .post | .put | .patch => true
  | .get | .delete => false

end HttpVerb

/-- The root under which a method is offered. -/
inductive RootKind where
  | query
  | mutation
  | subscription
deriving DecidableEq, Repr, Inhabited

namespace RootKind

def name : RootKind → String
  | .query => "query"
  | .mutation => "mutation"
  | .subscription => "subscription"

def all : List RootKind := [.query, .mutation, .subscription]

def table : List (String × RootKind) := all.map fun k => (k.name, k)

end RootKind

structure Method where
  name : String
  input : String
  output : String
  clientStreaming : Bool := false
  serverStreaming : Bool := false
  httpVerb : Option HttpVerb := none
  root : Option RootKind := none
  path : Option String := none
  successCodes : List UInt16 := []
  errorCodes : List UInt16 := []
  doc : Option Doc := none
deriving DecidableEq, Repr, Inhabited

namespace Method

/-- Methods that only look things up are told by their names. -/
def isRead (m : Method) : Bool :=
  Text.startsWith m.name "Get" || Text.startsWith m.name "List"

def verb (m : Method) : HttpVerb :=
  m.httpVerb.getD (if m.isRead then .get else .post)

def rootKind (m : Method) : RootKind :=
  m.root.getD (if m.serverStreaming then .subscription else if m.isRead then .query else .mutation)

end Method

structure Service where
  name : String
  ns : String := ""
  methods : List Method := []
  doc : Option Doc := none
deriving DecidableEq, Repr, Inhabited

/-- All declarations that take part in one generation run. -/
structure Model where
  ns : String := ""
  version : Option String := none
  annotations : Annotations := .none
  enums : List EnumType := []
  types : List ObjectType := []
  unions : List UnionType := []
  services : List Service := []
deriving DecidableEq, Repr, Inhabited

namespace Model

/-- Gives a namespace to what has none. -/
def fill (ns own : String) : String := if own.isEmpty then ns else own

/-- Declarations without a namespace take that of the model, if it has one. -/
def inheritNamespace (m : Model) : Model :=
  if m.ns.isEmpty then m
  else
    { m with
      enums := m.enums.map fun e => { e with ns := fill m.ns e.ns }
      types := m.types.map fun t => { t with ns := fill m.ns t.ns }
      unions := m.unions.map fun u => { u with ns := fill m.ns u.ns }
      services := m.services.map fun s => { s with ns := fill m.ns s.ns } }

def declarationCount (m : Model) : Nat :=
  m.enums.length + m.types.length + m.unions.length + m.services.length

end Model

/-- The written form of a structured document. -/
inductive DocumentFormat where
  | yaml
  | json
deriving DecidableEq, Repr, Inhabited

namespace DocumentFormat

def name : DocumentFormat → String
  | .yaml => "yaml"
  | .json => "json"

def table : List (String × DocumentFormat) := [("yaml", .yaml), ("json", .json)]

end DocumentFormat

structure OutputSettings where
  directory : String := "generated"
  targets : List Target := Target.all
  filenames : PerTarget (Option String) := .replicate none
deriving DecidableEq, Repr, Inhabited

structure ProtoSettings where
  splitByNamespace : Bool := false
deriving DecidableEq, Repr, Inhabited

structure OpenApiSettings where
  version : String := "3.0.0"
  format : DocumentFormat := .yaml
deriving DecidableEq, Repr, Inhabited

structure Settings where
  schema : Option String := none
  output : OutputSettings := {}
  proto : ProtoSettings := {}
  openapi : OpenApiSettings := {}
deriving DecidableEq, Repr, Inhabited

end Triglot
