import Scriptling.CommandLine.Reply

namespace Scriptling.CommandLine

def readFileBytes (path : String) : IO (Except SourceFault (List UInt8)) := do
  try
    return .ok (← IO.FS.readBinFile path).data.toList
  catch
    | .inappropriateType _ code _ =>
      return .error (if code = 20 then .underFile else .directory)
    | .invalidArgument _ 36 _ => return .error .longName
    | _ => return .error .missing

def readInput : Option Request → IO (List UInt8)
  | some (.perform (.run _)) | some (.perform .repl) => do
    return (← (← IO.getStdin).readBinToEnd).data.toList
  | _ => pure []

/-- More than any program can use up. -/
def endlessDepth : Nat := Number.pow10 18

def respond (arguments : List String) : IO UInt32 := do
  let request := Request.ofArguments arguments
  let file ←
    match request.bind Request.file? with
    | some path => readFileBytes path
    | none => pure (.error .missing)
  let now ← IO.monoMsNow
  let machine := Machine.start (← readInput request) .unlimited (.ticking now) (.scattered now)
  let reply := answer endlessDepth machine (fun _ => file) request
  let out ← IO.getStdout
  out.write reply.out
  out.flush
  (← IO.getStderr).putStr reply.err
  return UInt32.ofNat reply.code

end Scriptling.CommandLine

def main (arguments : List String) : IO UInt32 := Scriptling.CommandLine.respond arguments
