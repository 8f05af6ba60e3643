import Script.CommandLine

/-!
# The program

Reads what the job needs, does it, and writes what it leaves.
-/

open Script.CommandLine

namespace Script

/-- The text of a file, if it can be read and is UTF-8. -/
def readText (name : String) : IO (Option String) := do
  match ← (IO.FS.readBinFile name).toBaseIO with
  | .ok bytes => return String.fromUTF8? bytes
  | .error _ => return none

end Script

def main (args : List String) : IO UInt32 := do
  let job := Job.ofArgs args
  let contents ←
    match job with
    | .file _ name => Script.readText name
    | _ => pure none
  let stdin ← IO.getStdin
  let input ←
    match job with
    | .lines => stdin.readToEnd
    | _ => pure ""
  let outcome := job.run contents input
  IO.print outcome.stdout
  IO.eprint outcome.stderr
  return outcome.code.toUInt32
