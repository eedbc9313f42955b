import Lox.Diagnostic

/-! Reporting diagnostics: each is written on lines of its own and counted by its phase. -/

namespace Lox

/-- How many errors were reported in each phase. -/
structure Counts where
  reading : Nat
  running : Nat
deriving DecidableEq, Repr

namespace Counts

def none : Counts := ⟨0, 0⟩

def add (counts : Counts) : Phase → Counts
  | .reading => { counts with reading := counts.reading + 1 }
  | .running => { counts with running := counts.running + 1 }

def any (counts : Counts) : Bool := 0 < counts.reading || 0 < counts.running

end Counts

/-- What has been reported: the text written so far, and the counts since the last reset. -/
structure Reporter where
  written : String
  counts : Counts
deriving DecidableEq, Repr

namespace Reporter

def new : Reporter := ⟨"", Counts.none⟩

/-- Write a diagnostic and count it. -/
def report (reporter : Reporter) (diagnostic : Diagnostic) : Reporter :=
  ⟨reporter.written ++ diagnostic.text ++ "\n", reporter.counts.add diagnostic.phase⟩

def reportAll (reporter : Reporter) (diagnostics : List Diagnostic) : Reporter :=
  diagnostics.foldl report reporter

/-- Start counting anew; what was written stays. -/
def reset (reporter : Reporter) : Reporter := { reporter with counts := Counts.none }

end Reporter

end Lox
