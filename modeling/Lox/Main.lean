import Lox.CommandLine.Transcript

/-! The command itself: it reads its script or its input, and writes what the library answers. -/

namespace Lox

/-- What the system says about a file that cannot be read; its number of a fault comes with either
sign. -/
def readFault (error : IO.Error) : ReadFault :=
  match error with
  | .noFileOrDirectory .. => .notFound
  | .inappropriateType _ code _ => if code = 20 ∨ -code = 20 then .notDirectory else .isDirectory
  | .invalidArgument _ code _ =>
    if code = 36 ∨ -code = 36 then .nameTooLong else .other (toString error)
  | _ => .other (toString error)

/-- The bytes of a file. -/
def readScript (path : String) : IO (Except ReadFault (List UInt8)) := do
  try
    return .ok (← IO.FS.readBinFile path).toList
  catch error =>
    return .error (readFault error)

/-- Write what a command has to say. -/
def Transcript.write (transcript : Transcript) : IO UInt32 := do
  IO.print transcript.output
  IO.eprint transcript.errors
  return UInt32.ofNat transcript.status.code

/-- Write what a session has to say, and keep the session without it. -/
def Session.write (session : Session) : IO Session := do
  IO.print session.state.output
  (← IO.getStdout).flush
  IO.eprint session.reporter.written
  return { session with
    state := { session.state with output := "" },
    reporter := { session.reporter with written := "" } }

/-- The bytes of the next line with its line feed, after those read so far in reverse; no bytes at
the end of the input. -/
partial def readLine (input : IO.FS.Stream) (reversed : List UInt8) : IO (List UInt8) := do
  match (← input.read 1).toList with
  | [] => return reversed.reverse
  | byte :: _ => if byte = 10 then return (byte :: reversed).reverse else readLine input (byte :: reversed)

/-- How a command ends whose run halts, which no source text brings about. -/
def haltCode : UInt32 := 70

/-- Ask for lines and run each as it comes. -/
partial def dialogue (session : Session) (input : IO.FS.Stream) : IO UInt32 := do
  let asked ← session.prompt.write
  match ← readLine input [] with
  | [] => (Transcript.inputEnded asked).write
  | bytes =>
    match Transcript.decode bytes with
    | .error fault => (Transcript.inputUnreadable asked fault).write
    | .ok line =>
      match asked.runLine ampleFuel (Transcript.trimLine line) with
      | .error _ => return haltCode
      | .ok after => dialogue (← after.write) input

end Lox

open Lox in
def main (arguments : List String) : IO UInt32 := do
  match Options.ofArguments? arguments with
  | none => Transcript.misused.write
  | some options =>
    let session := Session.new options.showTokens options.showTrees
    match options.script with
    | none => dialogue session (← IO.getStdin)
    | some path =>
      match (← readScript path) >>= Transcript.decode with
      | .error fault => (Transcript.unreadable path fault).write
      | .ok source =>
        match Transcript.ofScript ampleFuel session source with
        | .error _ => return haltCode
        | .ok transcript => transcript.write
