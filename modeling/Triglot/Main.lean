import Triglot.Command.Run

/-! The program. The files that it may see are listed on the standard input, one path a line. -/
namespace Triglot

/-- The lines of a stream. -/
partial def listedPaths (input : IO.FS.Stream) (read : List String) : IO (List String) := do
  let line ← input.getLine
  if line.isEmpty then pure read.reverse
  else listedPaths input (Text.trimEnd line :: read)

/-- Adds the file at a path. -/
def gather (fs : FileSystem) (path : String) : IO FileSystem := do
  let bytes ← IO.FS.readBinFile path
  pure (fs.place path (String.fromUTF8? bytes))

/-- The requests that look at files. -/
def Request.needsFiles : Request → Bool
  | .run (.schema _) => false
  | .run _ => true
  | _ => false

end Triglot

open Triglot in
def main (arguments : List String) : IO UInt32 := do
  let here := toString (← IO.currentDir)
  let bare := FileSystem.bare ((FileSystem.names here).filter (· != ""))
  let listed ← if (Request.ofArguments arguments).needsFiles
    then listedPaths (← IO.getStdin) [] else pure []
  let before ← listed.foldlM gather bare
  let outcome := runProgram before arguments
  for (path, text) in outcome.files.root.changes before.root do
    IO.FS.createDirAll (Path.parent ("/" ++ path))
    IO.FS.writeFile ("/" ++ path) text
  IO.print outcome.out
  IO.eprint outcome.err
  pure outcome.code.toUInt32
