import Std.Time.DateTime.Timestamp
import TopOfBook.CommandLine

/-! The program: the command line with the files, streams and clock of the machine. -/

open TopOfBook

/-- The wall clock, in nanoseconds since the epoch and zero before it. -/
def machineClock : IO Timestamp := do
  let now ← Std.Time.Timestamp.now
  return ⟨now.toNanosecondsSinceUnixEpoch.toInt.toNat.toUInt64⟩

def machine : CommandLine.World IO where
  now := machineClock
  contents path := do
    try return some (← IO.FS.readBinFile path)
    catch _ => return none
  standardInput := do (← IO.getStdin).readBinToEnd
  writeFile path text := do
    try
      IO.FS.writeFile path text
      return true
    catch _ => return false
  standardOutput text := do (← IO.getStdout).putStr text
  standardError text := do (← IO.getStderr).putStr text

def main (args : List String) : IO UInt32 := do
  return (← CommandLine.execute machine args).code
