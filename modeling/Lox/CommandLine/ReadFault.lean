/-! Why a command cannot read a script or a line of its input, and what it says then. -/

namespace Lox

/-- Why a script or the input cannot be read. -/
inductive ReadFault where
  | notFound
  | isDirectory
  | notDirectory
  | nameTooLong
  | notUnicode
  /-- Any other reason, in the words of the system. -/
  | other (reason : String)
deriving DecidableEq, Repr

def ReadFault.message : ReadFault → String
  | notFound => "No such file or directory (os error 2)"
  | notDirectory => "Not a directory (os error 20)"
  | isDirectory => "Is a directory (os error 21)"
  | nameTooLong => "File name too long (os error 36)"
  | notUnicode => "stream did not contain valid UTF-8"
  | other reason => reason

end Lox
