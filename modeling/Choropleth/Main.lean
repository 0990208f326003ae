import Choropleth.Batch.Lookup

/-!
# Command line

`geolookup [-o OUT] FILE...` writes the lookup table of boundary documents to a file or to the
standard output.
-/

namespace Choropleth

/-- Reads a file. -/
def readFile (path : String) : IO (Except BatchError String) := do
  try
    pure (.ok (← IO.FS.readFile path))
  catch _ =>
    pure (.error (.file .missing))

/-- Reads files up to the first that cannot be read. -/
def readFiles (paths : List String) : IO (List (String × Except BatchError String)) :=
  paths.mapM fun path => do pure (path, ← readFile path)

/-- Writes the lookup table of boundary documents. -/
def runLookup (out : Option String) (paths : List String) : IO UInt32 := do
  let texts ← readFiles paths
  let run := writeLookup (fun path => (texts.lookup path).getD (.error (.file .missing))) paths
  match run.result with
  | .error e =>
    IO.eprintln e.message
    pure 1
  | .ok _ =>
    match out with
    | none => IO.print run.csv
    | some path => IO.FS.writeFile path run.csv
    pure 0

end Choropleth

/-- Runs a command. -/
def main (args : List String) : IO UInt32 :=
  match args with
  | "geolookup" :: "-o" :: out :: path :: paths => Choropleth.runLookup (some out) (path :: paths)
  | "geolookup" :: path :: paths => Choropleth.runLookup none (path :: paths)
  | _ => do
    IO.eprintln "usage: geolookup [-o OUT] FILE..."
    pure 2
