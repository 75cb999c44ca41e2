import TriangleTam.CommandLine

/-!
# The program

Runs the jobs of the command line on the files of the computer.
-/

namespace TriangleTam

/-- Why a file cannot be used, by what the system says. -/
def FileError.Reason.ofSystem : IO.Error → FileError.Reason
  | .noFileOrDirectory .. => .missing
  | .permissionDenied .. => .denied
  | .invalidArgument _ code _ => if code = 36 then .nameTooLong else .invalidName
  | .inappropriateType _ code details =>
    if code = 21 then .isDirectory else if code = 20 then .notDirectory else .other details
  | e => .other (toString e)

/-- Reads a file. -/
def readContent (path : String) : IO Content := do
  try
    let bytes ← IO.FS.readBinFile path
    return .ok bytes.toList
  catch e =>
    let reason := FileError.Reason.ofSystem e
    return .error ⟨if reason = .isDirectory then .reading else .opening, path, reason⟩

/-- Writes a file. -/
def writeContent (path text : String) : IO (Option FileError) := do
  try
    IO.FS.writeFile path text
    return none
  catch e => return some ⟨.opening, path, .ofSystem e⟩

/-- Runs a job on the files of the computer. -/
def Job.perform {α : Type} : Job α → IO α
  | done result => pure result
  | read path next => do (next (← readContent path)).perform
  | write path text next => do (next (← writeContent path text)).perform

end TriangleTam

open TriangleTam in
/-- Runs the command line. What was found wrong with a program is not told a second time. -/
def main (args : List String) : IO UInt32 := do
  let outcome ← (CommandLine.run args).perform
  IO.print outcome.stdout
  IO.eprint outcome.stderr
  match outcome.failure with
  | none => return 0
  | some .reported => return 1
  | some f =>
    IO.eprintln ("error: " ++ f.message)
    return 1
