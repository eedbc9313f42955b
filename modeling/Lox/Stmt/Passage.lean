import Lox.Reading
import Lox.Stmt
import Lox.Stmt.Boundary

/-! What comes of reading statements, where an error does not end everything. Within one declaration
only the first error is reported; it stays pending until the declaration is over. -/

namespace Lox

/-- The outcome of reading part of a declaration. -/
structure Passage (α : Type) where
  result : Except SyntaxError α
  /-- How many tokens were taken, also by a reading that failed. -/
  width : Nat
  /-- The errors reported on the way. -/
  errors : List SyntaxError
  /-- Whether an error of the surrounding declaration has been reported. -/
  pending : Bool

namespace Passage

variable {α β : Type}

/-- A reading as part of a declaration: its note is reported unless an error is pending. -/
def ofReading (pending : Bool) (reading : Reading α) : Passage α :=
  ⟨reading.result, reading.width, if pending then [] else reading.note.toList, pending || reading.note.isSome⟩

def afterToken (passage : Passage α) : Passage α := { passage with width := passage.width + 1 }

/-- Go on after a result, knowing whether an error is pending. -/
def andThen (first : Passage α) (next : α → Bool → Passage β) : Passage β :=
  match first.result with
  | .error error => ⟨.error error, first.width, first.errors, first.pending⟩
  | .ok value =>
    let second := next value first.pending
    ⟨second.result, first.width + second.width, first.errors ++ second.errors, second.pending⟩

def map (change : α → β) (passage : Passage α) : Passage β :=
  { passage with result := passage.result.map change }

end Passage

/-- The outcome of reading whole declarations: those that could be read, and all reported errors. -/
structure Batch where
  statements : List Stmt
  width : Nat
  errors : List SyntaxError

namespace Batch

def empty : Batch := ⟨[], 0, []⟩

def append (first second : Batch) : Batch :=
  ⟨first.statements ++ second.statements, first.width + second.width, first.errors ++ second.errors⟩

instance : Append Batch := ⟨append⟩

theorem append_eq (first second : Batch) :
    first ++ second =
      ⟨first.statements ++ second.statements, first.width + second.width, first.errors ++ second.errors⟩ := rfl

theorem empty_append (batch : Batch) : empty ++ batch = batch := by
  simp only [append_eq, empty, List.nil_append, Nat.zero_add]

theorem append_empty (batch : Batch) : batch ++ empty = batch := by
  simp only [append_eq, empty, List.append_nil, Nat.add_zero]

theorem append_assoc (first second third : Batch) : first ++ second ++ third = first ++ (second ++ third) := by
  simp only [append_eq, List.append_assoc, Nat.add_assoc]

/-- A declaration that was read, or one that was given up at the next boundary. -/
def ofPassage (tokens : List Token) (passage : Passage Stmt) : Batch :=
  match passage.result with
  | .ok statement => ⟨[statement], passage.width, passage.errors⟩
  | .error error =>
    let last := if passage.pending then [] else [error]
    ⟨[], Boundary.skip tokens passage.width, passage.errors ++ last⟩

end Batch

end Lox
