import Triglot.Output.Margin
import Triglot.Proto.Build

/-! The text of protocol buffer files. -/
namespace Triglot.Proto

def margin : Margin := .spaces 2

def commentText (m : Margin) (comments : List String) : List String := comments.map m.line

def FieldLine.text (l : FieldLine) : String :=
  let options := if l.options.isEmpty then "" else " [" ++ ", ".intercalate l.options ++ "]"
  s!"{l.label.text}{l.type.text} {l.name} = {l.number.toNat}{options};"

def streamedText (streamed : Bool) (t : FieldType) : String :=
  if streamed then "stream " ++ t.text else t.text

def Rpc.text (r : Rpc) : String :=
  "rpc " ++ r.name ++ "(" ++ streamedText r.inputStreamed r.input ++ ") returns (" ++
    streamedText r.outputStreamed r.output ++ ");"

/-- The lines of a block: comments, a head, lines one level in, and the closing brace. -/
def blockLines (comments : List String) (head : String) (body : List String) : List String :=
  comments ++ [head ++ " \x7b"] ++ body ++ ["\x7d"]

def joinLines (lines : List String) : String := "\n".intercalate lines

def EnumBlock.render (b : EnumBlock) : String :=
  let m := margin.push
  joinLines (blockLines b.comments ("enum " ++ b.name)
    (b.lines.flatMap fun l => commentText m l.comments ++ [m.line s!"{l.name} = {l.number};"]))

def MessageBlock.render (b : MessageBlock) : String :=
  let m := margin.push
  joinLines (blockLines b.comments ("message " ++ b.name)
    (b.lines.flatMap fun l => commentText m l.comments ++ [m.line l.text]))

def UnionBlock.render (b : UnionBlock) : String :=
  let m := margin.push
  joinLines (blockLines b.comments ("message " ++ b.name)
    ([m.line "oneof value \x7b"] ++
      (b.members.map fun l => m.push.line s!"{l.reference.text} {l.name} = {l.number};") ++
      [m.line "\x7d"]))

def ServiceBlock.render (b : ServiceBlock) : String :=
  let m := margin.push
  joinLines (blockLines b.comments ("service " ++ b.name)
    (b.rpcs.flatMap fun r => commentText m r.comments ++ [m.line r.text]))

/-- A section with one line for each item, or none. -/
def lineGroup (lines : List String) : List String :=
  if lines.isEmpty then [] else [joinLines lines]

def File.sections (f : File) : List String :=
  ["syntax = \"proto3\";", "package " ++ f.package ++ ";"] ++
  lineGroup (f.options.map fun o => "option " ++ o ++ ";") ++
  lineGroup (f.imports.map fun i => "import \"" ++ i ++ "\";") ++
  f.enums.map EnumBlock.render ++ f.messages.map MessageBlock.render ++
  f.unions.map UnionBlock.render ++ f.services.map ServiceBlock.render

/-- Sections with a blank line between them. -/
def File.render (f : File) : String := "\n\n".intercalate f.sections ++ "\n"

/-- How declarations are spread over files. -/
inductive Layout where
  | singleFile
  | perNamespace
deriving DecidableEq, Repr

/-- The files of a model. -/
def emit (layout : Layout) (filename : String) (m : Model) (table : SymbolTable) :
    Except EmitError Emission :=
  match layout with
  | .singleFile => (renderSingle m table).map fun r => ⟨[(filename, r.file.render)], r.warnings⟩
  | .perNamespace =>
    (renderByNamespace m table).map fun rs =>
      ⟨rs.map fun (key, r) => (importPath key "proto", r.file.render),
        rs.flatMap fun (_, r) => r.warnings⟩

/-- The document in place of an output that failed. -/
def failureDocument (layout : Layout) (e : EmitError) : String :=
  let remedy := match layout with
    | .singleFile => "rename one of the conflicting types or split the output by namespace"
    | .perNamespace => "rename one of the conflicting types"
  "// ERROR: " ++ e.message ++
    "\n// A single proto package cannot hold two declarations with the same name.\n// Please " ++
    remedy ++ ".\n"

end Triglot.Proto
