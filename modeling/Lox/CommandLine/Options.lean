/-! The arguments of the command line. -/

namespace Lox

/-- What the command line asks for; without a script there is a dialogue. -/
structure Options where
  showTrees : Bool
  showTokens : Bool
  script : Option String
deriving DecidableEq, Repr

namespace Options

/-- The help for a command line that cannot be read. -/
def usage : String := "Usage: lox [--ast] [--tokens] [script]"

def default : Options := ⟨false, false, none⟩

/-- Read one more argument: a known flag, or the only script. -/
def add? (options : Options) (argument : String) : Option Options :=
  if argument = "--ast" then some { options with showTrees := true }
  else if argument = "--tokens" then some { options with showTokens := true }
  else if argument.startsWith "-" then none
  else
    match options.script with
    | some _ => none
    | none => some { options with script := some argument }

def ofArguments? (arguments : List String) : Option Options := arguments.foldlM add? default

end Options

end Lox
