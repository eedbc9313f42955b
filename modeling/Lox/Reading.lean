import Lox.SyntaxError

/-! What comes of reading the tokens in front: a result or the error that ended the reading, the
number of tokens taken, and the first error that was noticed without ending it. -/

namespace Lox

/-- The outcome of reading something from the tokens in front. -/
structure Reading (α : Type) where
  result : Except SyntaxError α
  /-- How many tokens were taken, also by a reading that failed. -/
  width : Nat
  /-- The first error after which the reading could go on. -/
  note : Option SyntaxError

namespace Reading

variable {α β : Type}

/-- A result that took some tokens. -/
def done (value : α) (width : Nat) : Reading α := ⟨.ok value, width, none⟩

/-- A result that took no token, although something is wrong. -/
def noted (value : α) (error : SyntaxError) : Reading α := ⟨.ok value, 0, some error⟩

/-- An error that ends the reading before any token is taken. -/
def fail (token : Token) (fault : SyntaxFault) : Reading α := ⟨.error ⟨token, fault⟩, 0, none⟩

def afterToken (reading : Reading α) : Reading α := { reading with width := reading.width + 1 }

/-- Go on after a result; the note of the earlier part comes first. -/
def andThen (first : Reading α) (next : α → Reading β) : Reading β :=
  match first.result with
  | .error error => ⟨.error error, first.width, first.note⟩
  | .ok value =>
    let second := next value
    ⟨second.result, first.width + second.width, first.note.or second.note⟩

def map (change : α → β) (reading : Reading α) : Reading β :=
  { reading with result := reading.result.map change }

/-- Take one token of a kind; `stop` stands for the tokens once all are taken. -/
def expect (stop : Token) (kind : Kind) (fault : SyntaxFault) : List Token → Reading Unit
  | [] => if stop.kind = kind then done () 0 else fail stop fault
  | token :: _ => if token.kind = kind then done () 1 else fail token fault

/-- A reading of `tokens` that has to be followed by a token of a kind. -/
def closedBy (reading : Reading α) (stop : Token) (kind : Kind) (fault : SyntaxFault) (tokens : List Token) :
    Reading α :=
  reading.andThen fun value => (expect stop kind fault (tokens.drop reading.width)).map fun _ => value

/-- A reading of fewer tokens comes first, whatever ranks below `count` the two readings have. -/
theorem rank_lt {fewer more rank count : Nat} (other : Nat) (less : fewer < more) (bounded : rank < count) :
    fewer * count + rank < more * count + other :=
  Nat.lt_of_lt_of_le (Nat.add_lt_add_left bounded _)
    (Nat.le_trans (Nat.succ_mul fewer count ▸ Nat.mul_le_mul_right count less) (Nat.le_add_right _ _))

theorem length_drop_lt (first : Token) (rest : List Token) (width : Nat) :
    (rest.drop width).length < (first :: rest).length := by
  simp only [List.length_drop, List.length_cons]
  omega

/-- What follows a first token after some others is shorter than the whole. -/
theorem length_lt_of_drop {tokens rest : List Token} {first : Token} {width : Nat}
    (follow : tokens.drop width = first :: rest) : rest.length < tokens.length := by
  have shorter := congrArg List.length follow
  simp only [List.length_drop, List.length_cons] at shorter
  omega

/-- Dropping tokens never leaves more, so that a reading of a lower rank may follow. -/
theorem rank_lt_of_drop (tokens : List Token) (width count : Nat) {lower upper : Nat} (less : lower < upper) :
    (tokens.drop width).length * count + lower < tokens.length * count + upper := by
  have bounded : (tokens.drop width).length ≤ tokens.length := by
    simp only [List.length_drop]
    omega
  exact Nat.lt_of_le_of_lt (Nat.add_le_add_right (Nat.mul_le_mul_right count bounded) lower)
    (Nat.add_lt_add_left less _)

end Reading

end Lox
