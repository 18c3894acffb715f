import TaintReach.Command

/-! The program on the files, the environment and the streams of the machine. -/
namespace TaintReach

/-- Why the machine could not read or write a file. -/
def reasonOf : IO.Error → Files.Reason
  | .noFileOrDirectory .. => .missing
  | .inappropriateType _ 20 _ => .notDirectory
  | .inappropriateType .. => .isDirectory
  | .permissionDenied .. => .failed "permission denied"
  | e => .failed e.toString

instance : Files IO where
  read path := do
    try
      match String.fromUTF8? (← IO.FS.readBinFile path) with
      | some text => return .ok text
      | none => return .error (.reading path (.failed "invalid UTF-8"))
    catch e => return .error (.reading path (reasonOf e))
  write path content := do
    try
      IO.FS.writeFile path content
      return .ok ()
    catch e => return .error (.writing path (reasonOf e))

/-- All that is left of a stream. -/
partial def drain (s : IO.FS.Stream) (done : String) : IO String := do
  let line ← s.getLine
  if line.isEmpty then return done else drain s (done ++ line)

/-- The whole standard input. -/
def standardInput : IO (Except String String) := do
  try return .ok (← drain (← IO.getStdin) "")
  catch e => return .error e.toString

end TaintReach

def main (arguments : List String) : IO UInt32 := do
  let environment ← TaintReach.Command.variableNames.filterMapM fun v =>
    return (← IO.getEnv v).map (v, ·)
  let out ← IO.getStdout
  let done ← TaintReach.Command.run environment TaintReach.standardInput (← out.isTty) arguments
  out.putStr done.stdout
  out.flush
  IO.eprint done.stderr
  return done.exit.toUInt32
