import ExpressionArt.CommandLine.Run
import ExpressionArt.Picture.Png
import Std.Time.Zoned

/-!
# The command line program

Takes the moment, computes the outcome of the run that the arguments ask for, makes its
directories and files, and prints its output. Nothing is decided here.
-/

namespace ExpressionArt

namespace Run

def now : IO Moment := do
  let t ← Std.Time.PlainDateTime.now
  return {
    year := t.date.year.toNat
    month := t.date.month.val.toNat
    day := t.date.day.val.toNat
    hour := t.time.hour.val.toNat
    minute := t.time.minute.val.toNat
    second := t.time.second.val.toNat
    micro := t.time.nanosecond.val.toNat / 1000 }

/-- Makes what stands at a place. -/
def produce (place : Place) : FileNode → IO Unit
  | .directory => IO.FS.createDirAll place.path
  | .file (.text s) => IO.FS.writeFile place.path s
  | .file (.picture p) => IO.FS.writeBinFile place.path p.png

/-- Says how a run ended, where its output does not, and returns the status. -/
def conclude (ending : Ending) : IO UInt32 := do
  match ending with
  | .finished _ => pure ()
  | .helpRequested =>
    IO.println "options:"
    IO.print (String.join (OptionSpec.all.map OptionSpec.overview))
  | .broken e => IO.eprintln e.message
  | .usage message => IO.eprintln s!"error: {message}"
  return ending.status.toUInt32

def execute (args : List String) : IO UInt32 := do
  let outcome := ofArguments args (← now) []
  outcome.files.forM fun (place, node) => produce place node
  IO.print outcome.output
  conclude outcome.ending

end Run

end ExpressionArt

def main (args : List String) : IO UInt32 := ExpressionArt.Run.execute args
