import CellForth.Session

/-!
# The command line

The arguments name source files to be loaded; after them the lines of standard input are
interpreted. A person at a terminal is greeted first. Everything is read before the session
starts and written after it has ended.
-/

namespace CellForth

/-- Everything that can be read from a stream. -/
def readAll (stream : IO.FS.Stream) : IO ByteArray := do
  let mut bytes := ByteArray.empty
  repeat
    let chunk ← stream.read 65536
    if chunk.isEmpty then break
    bytes := bytes ++ chunk
  return bytes

/-- The number of a system error, whose code may carry a minus sign. -/
def errorNumber (code : UInt32) : Nat :=
  if code < 0x80000000 then code.toNat else (0 - code).toNat

/-- The fault for a file that the system would not read. -/
def fileFault (name : String) : IO.Error → Fault
  | .noFileOrDirectory .. => Obstacle.missing.fault name
  | .inappropriateType _ code details =>
    if errorNumber code = 20 then Obstacle.notDirectory.fault name
    else if errorNumber code = 21 then Obstacle.isDirectory.fault name
    else ⟨.io, details⟩
  | .invalidArgument _ code details =>
    if errorNumber code = 36 then Obstacle.nameTooLong.fault name else ⟨.io, details⟩
  | e => ⟨.io, toString e⟩

/-- Reads a file, or says why it cannot be read. -/
def readFile (name : String) : IO (Except Fault (List UInt8)) := do
  try
    return .ok (← IO.FS.readBinFile name).toList
  catch e =>
    return .error (fileFault name e)

end CellForth

open CellForth in
/-- Loads the files named by the arguments, and interprets standard input. -/
def main (names : List String) : IO UInt32 := do
  let stdin ← IO.getStdin
  let greet ← stdin.isTty
  let input ← readAll stdin
  let contents ← names.mapM fun name => return (name, ← readFile name)
  let files : Files := fun name =>
    (contents.lookup name).getD (.error (Obstacle.missing.fault name))
  let report := runProgram files names greet input.toList
  (← IO.getStdout).putStr report.output
  (← IO.getStderr).putStr report.complaint
  return report.exitCode
