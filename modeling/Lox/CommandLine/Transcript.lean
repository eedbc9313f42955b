import Lox.CommandLine.Options
import Lox.CommandLine.ReadFault
import Lox.Session

/-! The whole command as a function of its arguments, the script that they name and its input: what
it writes, and the code with which it ends. -/

namespace Lox

inductive ExitStatus where
  | success
  | usage
  | dataError
  | readError
deriving DecidableEq, Repr

def ExitStatus.code : ExitStatus → Nat
  | success => 0
  | usage => 64
  | dataError => 65
  | readError => 74

/-- All that a command writes, and how it ends. -/
structure Transcript where
  status : ExitStatus
  output : String
  errors : String
deriving DecidableEq, Repr

namespace Transcript

/-- The text of a byte sequence in UTF-8. -/
def decode (bytes : List UInt8) : Except ReadFault String :=
  match String.fromUTF8? ⟨bytes.toArray⟩ with
  | some text => .ok text
  | none => .error .notUnicode

/-- The lines of the input, each with the line feed that ends it; the last one may have none. -/
def lines : List UInt8 → List (List UInt8)
  | [] => []
  | byte :: rest =>
    if byte = 10 then [byte] :: lines rest
    else
      match lines rest with
      | [] => [[byte]]
      | line :: later => (byte :: line) :: later

/-- A line without the line feeds and carriage returns at its end. -/
def trimLine (line : String) : String :=
  String.ofList (line.toList.reverse.dropWhile (fun c => c == '\n' || c == '\r')).reverse

def ofSession (status : ExitStatus) (session : Session) : Transcript :=
  ⟨status, session.state.output, session.reporter.written⟩

def addError (transcript : Transcript) (message : String) : Transcript :=
  { transcript with errors := transcript.errors ++ message ++ "\n" }

def misused : Transcript := addError ⟨.usage, "", ""⟩ Options.usage

def unreadable (path : String) (fault : ReadFault) : Transcript :=
  addError ⟨.readError, "", ""⟩ ("Could not read '" ++ path ++ "': " ++ fault.message)

def ofScript (fuel : Nat) (session : Session) (source : String) : Except Halt Transcript := do
  let after ← session.runSource fuel source
  return ofSession (if after.reporter.counts.any then .dataError else .success) after

/-- The end of the input, after it was asked for one more line. -/
def inputEnded (asked : Session) : Transcript :=
  ofSession .success { asked with state := asked.state.print "\n" }

def inputUnreadable (asked : Session) (fault : ReadFault) : Transcript :=
  (ofSession .readError asked).addError ("Could not read input: " ++ fault.message)

/-- Ask for lines and run them until they end or one cannot be read. -/
def ofLines (fuel : Nat) (session : Session) : List (List UInt8) → Except Halt Transcript
  | [] => .ok (inputEnded session.prompt)
  | first :: rest =>
    match decode first with
    | .error fault => .ok (inputUnreadable session.prompt fault)
    | .ok line =>
      match session.prompt.runLine fuel (trimLine line) with
      | .error cause => .error cause
      | .ok after => ofLines fuel after rest

/-- Run the command; `read` gives the contents of a script. -/
def run (fuel : Nat) (arguments : List String) (read : String → Except ReadFault (List UInt8))
    (input : List UInt8) : Except Halt Transcript :=
  match Options.ofArguments? arguments with
  | none => .ok misused
  | some options =>
    let session := Session.new options.showTokens options.showTrees
    match options.script with
    | none => ofLines fuel session (lines input)
    | some path =>
      match read path >>= decode with
      | .error fault => .ok (unreadable path fault)
      | .ok source => ofScript fuel session source

end Transcript

end Lox
