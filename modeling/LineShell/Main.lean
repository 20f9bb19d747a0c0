import LineShell.CommandLine
/-!
# Main — the program at a terminal or in a pipe

What is decided is decided in `CommandLine` and `Shell`.  Here lines are read and answers are written, one at a time, so
that whoever types sees each answer before the next line.
-/
namespace LineShell.CommandLine

open Shell (Conversation Output Reader StreamFault)

/-- **The bytes of the next line**, after those already read. -/
partial def readLine (stdin : IO.FS.Stream) (line : ByteArray) : IO ByteArray := do
  let byte ← stdin.read 1
  if byte.isEmpty || byte.data.toList == [Reader.lineFeed] then return line ++ byte
  readLine stdin (line ++ byte)

/-- **A conversation over the standard streams**, until it ends. -/
partial def talk (config : Config) (c : Conversation Unit) : IO (Option StreamFault) := do
  let stdout ← IO.getStdout
  stdout.putStr ((shell config).prompt c)
  stdout.flush
  let bytes ← readLine (← IO.getStdin) .empty
  match Reader.reading bytes.data.toList with
  | .error f => return some f
  | .ok reading =>
    let (went, c, out) := (shell config).receive reading c .unlimited
    stdout.write out.written
    stdout.flush
    match went with
    | .ok none => talk config c
    | .ok (some _) => return none
    | .error f => return some f

/-- **The surroundings of the program**: the home directory, and the start file there. -/
def surroundings : IO Surroundings := do
  match ← IO.getEnv "HOME" with
  | none => return ⟨none, none⟩
  | some home =>
    let rc ← try some <$> IO.FS.readBinFile (rcPath home) catch _ => pure none
    return ⟨some home, rc.map (·.data.toList)⟩

end LineShell.CommandLine

open LineShell LineShell.CommandLine in
def main (arguments : List String) : IO UInt32 := do
  match Request.ofArguments arguments with
  | .error f =>
    IO.eprintln f.message
    return 2
  | .ok .version =>
    IO.println (programName ++ " " ++ version)
    return 0
  | .ok (.converse config readsRc) =>
    let (errors, c) := begin config readsRc (← surroundings)
    for e in errors do
      IO.eprint (rcLine e)
    match ← talk config c with
    | none => return 0
    | some f =>
      IO.eprint (failureLine f)
      return 1
