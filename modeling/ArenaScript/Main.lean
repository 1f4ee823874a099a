import ArenaScript.Shell

/-!
# The program

Reads the files that the command line names and the standard input, runs the
shell on them, and prints its output.
-/

namespace ArenaScript.Program

/-- The contents of a file, if it can be read. -/
def readFile? (name : String) : IO (Option ByteArray) := do
  try return some (← IO.FS.readBinFile name) catch _ => return none

/-- The names of the files that a command line reads. -/
def namedFiles (words : List String) : List String :=
  match Options.parse words with
  | .ok (o, names) => o.configFile :: names
  | .error _ => []

/-- The number of steps after which an evaluation is given up. -/
def stepLimit : Nat := 1152921504606846976

end ArenaScript.Program

open ArenaScript Program

/-- Runs the shell on a command line. -/
def main (words : List String) : IO UInt32 := do
  let contents ← (namedFiles words).mapM fun name => return (name, ← readFile? name)
  let files : Files := fun name => (contents.lookup name).join
  let readsInput := match Options.parse words with
    | .ok (o, names) => o.expression = "" && names.isEmpty
    | .error _ => false
  let input ← if readsInput then (← IO.getStdin).readBinToEnd else pure ByteArray.empty
  match Shell.run stepLimit files words input with
  | .ok outcome =>
    let out ← IO.getStdout
    out.write outcome.output
    out.flush
    return outcome.exitCode
  | .error _ =>
    (← IO.getStderr).putStrLn "the evaluation was given up"
    return 3
