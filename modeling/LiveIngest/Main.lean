import LiveIngest.Run

/-!
# The program

The program rehearses a run: it takes its words and variables, and the file of variables if there
is one, prints what a run that is started with these in an otherwise empty directory and then
interrupted would print, and ends with its exit code.  Nothing is written to disk and nothing
listens.

All decisions are made by `Launch.run`; here is only what reads and prints.
-/

namespace LiveIngest.Run

/-- The variables that a run looks at. -/
def variableNames : List String :=
  CommandLine.Setting.all.map CommandLine.Setting.envName ++ [Journal.Filter.envName]

/-- The variables that are set, of those that a run looks at. -/
def readVariables : IO Environment :=
  variableNames.filterMapM fun name => do
    return (← IO.getEnv name).map fun value => (name, value)

/-- A disk with nothing on it but the file of variables, if there is one. -/
def readDisk : IO Storage.Tree := do
  try
    let content ← IO.FS.readBinFile Environment.fileName
    return Storage.Tree.empty.put (Storage.Tree.home ++ [Environment.fileName])
      (.file content.data.toList)
  catch _ => return Storage.Tree.empty

/-- The texts that a rehearsal takes for the time, the date and the port. -/
def rehearsal : Outside := ⟨"(now)", "(today)", "(port)"⟩

end LiveIngest.Run

/-- Prints what a run would print. -/
def main (words : List String) : IO UInt32 := do
  let environment ← LiveIngest.Run.readVariables
  let disk ← LiveIngest.Run.readDisk
  let launch : LiveIngest.Run.Launch := ⟨words, environment, disk⟩
  let report := launch.run LiveIngest.Run.rehearsal
  IO.print report.output
  IO.eprint report.errors
  return report.exitCode.toUInt32
