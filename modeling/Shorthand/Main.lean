import Shorthand.CommandLine.Run

/-! # The program

Gathers what a run can see, and carries out what it comes to.
-/
namespace Shorthand.CommandLine

def readFileAt (path : String) : IO (Option ByteArray) :=
  try return some (← IO.FS.readBinFile path) catch _ => return none

/-- All that is left of a stream. -/
partial def readRest (stream : IO.FS.Stream) (before : String) : IO String := do
  let line ← stream.getLine
  if line.isEmpty then return before else readRest stream (before ++ line)

def deliver (report : Report) : IO UInt32 := do
  for notice in report.notices do
    IO.eprintln notice.text
  IO.print report.output
  return report.exitCode.toUInt32

def carryOut : Outcome → IO UInt32
  | .done report => deliver report
  | .write path content written refused => do
    let worked ← try IO.FS.writeFile path content; pure true catch _ => pure false
    deliver (if worked then written else refused)

/-- The files that an invocation may look at. -/
def gatherFiles (directory : String) : Request → IO (List (String × ByteArray))
  | .invoke invocation => do
    let mut files := []
    for path in invocation.settingsPaths directory do
      if let some content ← readFileAt path then
        files := files ++ [(path, content)]
    return files
  | _ => return []

def gatherInput : Request → IO String
  | .invoke invocation => do
    if invocation.readsInput then readRest (← IO.getStdin) "" else return ""
  | _ => return ""

def start (arguments : List String) : IO UInt32 := do
  let request := readArguments arguments
  let directory := (← IO.currentDir).toString
  let files ← gatherFiles directory request
  let input ← gatherInput request
  let colored := (← IO.getEnv "NO_COLOR").isNone
  carryOut (run arguments { directory, fileAt := (files.lookup ·), input, colored })

end Shorthand.CommandLine

def main (arguments : List String) : IO UInt32 := Shorthand.CommandLine.start arguments
