import ArenaAgent.Host.Run

/-!
The headless program: settings come from the environment, the log goes to the error stream.
-/
open ArenaAgent

/-- The variables that are set. -/
def readEnvironment : IO Environment := do
  let values ← Settings.variableNames.mapM fun name => do
    return (← IO.getEnv name).map fun value => (name, value.toUTF8.toList)
  return values.filterMap id

/-- The bytes of a file, if it can be read. -/
def readContents (path : String) : IO (Option (List UInt8)) := do
  try
    return some (← IO.FS.readBinFile path).toList
  catch _ =>
    return none

/-- A generator in a state that the system draws. -/
def readEntropy : IO Rng := do
  let word : IO UInt64 := do
    return (← IO.getRandomBytes 8).toList.foldl (fun n b => n * 256 + b.toUInt64) 0
  return ⟨← word, ← word, ← word, ← word⟩

def main : IO UInt32 := do
  let settings := Settings.ofEnvironment (← readEnvironment)
  let contents ← match settings.agentConfig with
    | some path => readContents path
    | none => pure none
  let (reports, failure) := settings.run contents (← readEntropy)
  for report in reports do
    let record := report.record
    if record.level = .info then
      IO.eprintln (record.render NumberStyle.json.render)
  match failure with
  | some failure =>
    IO.eprintln (failure.notice NumberStyle.sentence.render)
    return failure.exitCode
  | none => return 0
