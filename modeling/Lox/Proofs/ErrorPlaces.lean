import Lox.Program

/-! Where reading notices its errors. They come in the order of their tokens, and
an error that ends a reading is noticed right behind what was taken. -/

namespace Lox

/-- The errors are noticed at places of the tokens, in order, none before the first place and none
behind the last. -/
inductive Ascends (tokens : List Token) : Nat → List SyntaxError → Nat → Prop where
  | nil (ordered : first ≤ last) : Ascends tokens first [] last
  | cons (after : first ≤ place) (found : tokens[place]? = some error.token)
      (rest : Ascends tokens place errors last) : Ascends tokens first (error :: errors) last

namespace Ascends
variable {tokens : List Token} {first middle last : Nat} {errors more : List SyntaxError}

private theorem le (ascends : Ascends tokens first errors last) : first ≤ last := by
  induction ascends with
  | nil ordered => exact ordered
  | cons after found rest ih => exact Nat.le_trans after ih

theorem single {place : Nat} {error : SyntaxError} (found : tokens[place]? = some error.token) (after : first ≤ place)
    (before : place ≤ last) : Ascends tokens first [error] last :=
  .cons after found (.nil before)

theorem widen (ascends : Ascends tokens first errors last) {lower upper : Nat} (below : lower ≤ first)
    (above : last ≤ upper) : Ascends tokens lower errors upper := by
  induction ascends generalizing lower with
  | nil ordered => exact .nil (by omega)
  | cons after found rest ih => exact .cons (by omega) found (ih (Nat.le_refl _) above)

theorem append (begins : Ascends tokens first errors middle) (ends : Ascends tokens middle more last) :
    Ascends tokens first (errors ++ more) last := by
  induction begins with
  | nil ordered => exact ends.widen ordered (Nat.le_refl last)
  | cons after found rest ih => exact .cons after found (ih ends)

theorem later {count : Nat} (ascends : Ascends (tokens.drop count) first errors last) :
    Ascends tokens (count + first) errors (count + last) := by
  induction ascends with
  | nil ordered => exact .nil (by omega)
  | cons after found rest ih =>
    rw [List.getElem?_drop] at found
    exact .cons (by omega) found ih

theorem extend (ascends : Ascends tokens first errors last) (further : List Token) :
    Ascends (tokens ++ further) first errors last := by
  induction ascends with
  | nil ordered => exact .nil ordered
  | cons after found rest ih =>
    refine .cons after ?_ ih
    have inside := (List.getElem?_eq_some_iff.mp found).1
    rw [List.getElem?_append_left inside, found]

theorem places (ascends : Ascends tokens first errors last) :
    ∃ places : List Nat, places.map (tokens[·]?) = errors.map (some ·.token) ∧ places.Pairwise (· ≤ ·) ∧
      ∀ place ∈ places, first ≤ place ∧ place ≤ last := by
  induction ascends with
  | nil ordered => exact ⟨[], rfl, .nil, nofun⟩
  | @cons first place errors last error after found rest ih =>
    obtain ⟨places, same, sorted, inside⟩ := ih
    refine ⟨place :: places, ?_, ?_, ?_⟩
    · rw [List.map_cons, List.map_cons, same, found]
    · exact List.pairwise_cons.mpr ⟨fun other member => (inside other member).1, sorted⟩
    · rw [List.forall_mem_cons]
      refine ⟨⟨after, rest.le⟩, fun other member => ?_⟩
      obtain ⟨below, above⟩ := inside other member
      exact ⟨by omega, above⟩

end Ascends

theorem drop_append_stop {tokens : List Token} {width : Nat} (inside : width ≤ tokens.length) (stop : Token) :
    tokens.drop width ++ [stop] = (tokens ++ [stop]).drop width :=
  (List.drop_append_of_le_length inside).symm

namespace Reading
variable {α β : Type} {stop first : Token} {tokens rest : List Token} {reading : Reading α} {fault : SyntaxFault}

/-- A reading inside its tokens, whose errors are noticed at tokens that it takes or at the next one. -/
structure Placed (stop : Token) (tokens : List Token) (reading : Reading α) : Prop where
  inside : reading.width ≤ tokens.length
  fails : ∀ error, reading.result = .error error → (tokens ++ [stop])[reading.width]? = some error.token
  notes : Ascends (tokens ++ [stop]) 0 reading.note.toList reading.width

theorem Placed.done (stop : Token) (tokens : List Token) (value : α) : Placed stop tokens (done value 0) :=
  ⟨Nat.zero_le _, fun _ failed => (by cases failed), .nil (Nat.le_refl 0)⟩

theorem Placed.one (stop first : Token) (rest : List Token) (value : α) :
    Placed stop (first :: rest) (Reading.done value 1) :=
  ⟨Nat.succ_le_succ (Nat.zero_le _), fun _ failed => (by cases failed), .nil (Nat.zero_le 1)⟩

theorem Placed.fail {token : Token} (next : (tokens ++ [stop])[0]? = some token) :
    Placed stop tokens (fail token fault : Reading α) := by
  refine ⟨Nat.zero_le _, ?_, .nil (Nat.le_refl 0)⟩
  intro error failed
  cases failed
  exact next

theorem Placed.map (placed : Placed stop tokens reading) (change : α → β) : Placed stop tokens (reading.map change) := by
  refine ⟨placed.inside, ?_, placed.notes⟩
  intro error failed
  obtain ⟨result, width, note⟩ := reading
  cases result with
  | ok => cases failed
  | error =>
    cases failed
    exact placed.fails error rfl

theorem Placed.next (placed : Placed stop rest reading) (first : Token) :
    Placed stop (first :: rest) reading.afterToken := by
  refine ⟨Nat.succ_le_succ placed.inside, placed.fails, ?_⟩
  have shifted : Ascends (first :: rest ++ [stop]) (1 + 0) reading.note.toList (1 + reading.width) :=
    Ascends.later placed.notes
  exact shifted.widen (Nat.zero_le _) (Nat.le_of_eq (Nat.add_comm 1 _))

theorem Placed.andThen {next : α → Reading β} (placed : Placed stop tokens reading)
    (further : ∀ value, Placed stop (tokens.drop reading.width) (next value)) :
    Placed stop tokens (reading.andThen next) := by
  obtain ⟨result, width, note⟩ := reading
  obtain ⟨inside, fails, notes⟩ := placed
  cases result with
  | error error =>
    refine ⟨inside, ?_, notes⟩
    intro other failed
    cases failed
    exact fails error rfl
  | ok value =>
    obtain ⟨more, failsLater, notesLater⟩ := further value
    simp only at inside notes more failsLater notesLater
    rw [drop_append_stop inside] at failsLater notesLater
    rw [List.length_drop] at more
    refine ⟨?_, ?_, ?_⟩
    · show width + (next value).width ≤ tokens.length
      omega
    · intro error failed
      have found := failsLater error failed
      rwa [List.getElem?_drop] at found
    · show Ascends _ 0 (note.or (next value).note).toList (width + (next value).width)
      cases note with
      | some error => exact notes.widen (Nat.le_refl 0) (Nat.le_add_right _ _)
      | none => exact notesLater.later.widen (Nat.zero_le _) (Nat.le_refl _)

/-- What was read after a token may turn out to be wrong because of this token. -/
private theorem Placed.settle {next : α → Reading β} (placed : Placed stop rest reading)
    (settles : ∀ value, ∃ settled, (next value).result = .ok settled ∧ (next value).width = 0 ∧
      ∀ error ∈ (next value).note, error.token = first) :
    Placed stop (first :: rest) (reading.afterToken.andThen next) := by
  obtain ⟨inside, fails, notes⟩ := placed.next first
  obtain ⟨result, width, note⟩ := reading
  cases result with
  | error error =>
    refine ⟨inside, ?_, notes⟩
    intro other failed
    cases failed
    exact fails error rfl
  | ok value =>
    obtain ⟨settled, result, taken, blames⟩ := settles value
    have same : ((⟨.ok value, width, note⟩ : Reading α).afterToken.andThen next).width = width + 1 := by
      show width + 1 + (next value).width = width + 1
      rw [taken]
    refine ⟨by rw [same]; exact inside, ?_, ?_⟩
    · intro error failed
      have ended : (next value).result = .error error := failed
      rw [result] at ended
      cases ended
    · rw [same]
      show Ascends _ 0 (note.or (next value).note).toList (width + 1)
      cases note with
      | some error => exact notes
      | none =>
        show Ascends _ 0 (next value).note.toList (width + 1)
        cases later : (next value).note with
        | none => exact .nil (Nat.zero_le _)
        | some error =>
          have blamed := blames error later
          exact Ascends.single (congrArg some blamed.symm) (Nat.le_refl 0) (Nat.zero_le _)

theorem expect_placed (stop : Token) (kind : Kind) (fault : SyntaxFault) (tokens : List Token) :
    Placed stop tokens (expect stop kind fault tokens) := by
  cases tokens with
  | nil =>
    rw [expect]
    split
    next => exact .done stop [] ()
    next => exact .fail rfl
  | cons first rest =>
    rw [expect]
    split
    next => exact .one stop first rest ()
    next => exact .fail rfl

theorem Placed.closedBy (placed : Placed stop tokens reading) (kind : Kind) (fault : SyntaxFault) :
    Placed stop tokens (reading.closedBy stop kind fault tokens) :=
  placed.andThen fun value => (expect_placed stop kind fault _).map fun _ => value

end Reading

open Reading

private theorem Expr.assignTo_settles (left : Expr) (equals : Token) (value : Expr) :
    ∃ settled, (assignTo left equals value).result = .ok settled ∧ (assignTo left equals value).width = 0 ∧
      ∀ error ∈ (assignTo left equals value).note, error.token = equals := by
  cases left with
  | var name => exact ⟨_, rfl, rfl, fun _ noticed => (by cases noticed)⟩
  | _ =>
    refine ⟨_, rfl, rfl, ?_⟩
    intro error noticed
    cases noticed
    rfl

private theorem Expr.dangling_width {first : Token} (right : Reading Expr) :
    (right.afterToken.andThen fun operand => noted (Expr.dangling first operand) ⟨first, .noLeftOperand⟩).width =
      right.width + 1 := by
  obtain ⟨result, width, note⟩ := right
  cases result <;> rfl

/-- Expressions notice their errors at their own tokens, or right behind them. -/
theorem Expr.read_placed_each (stop : Token) :
    (∀ tokens, Placed stop tokens (Expr.read stop tokens)) ∧
    (∀ level tokens, Placed stop tokens (Expr.readLevel stop level tokens)) ∧
    (∀ level left tokens, Placed stop tokens (Expr.readChain stop level left tokens)) ∧
    ∀ first rest, Placed stop (first :: rest) (Expr.readPrimary stop first rest) := by
  apply Expr.read.mutual_induct stop
  case case1 =>
    intro tokens target inner value
    rw [Expr.read]
    apply inner.andThen
    intro left
    split
    next => exact .done stop _ left
    next equals rest follow =>
      split
      next isEqual =>
        rw [follow]
        exact (value equals rest follow).settle fun value => assignTo_settles left equals value
      next => exact .done stop _ left
  case case2 =>
    intro level
    rw [Expr.readLevel]
    exact .fail rfl
  case case3 =>
    intro first rest isOperator inner
    rw [Expr.readLevel, if_pos isOperator]
    exact (inner.next first).map _
  case case4 =>
    intro first rest noOperator inner
    rw [Expr.readLevel, if_neg noOperator]
    exact inner
  case case5 =>
    intro level first rest dangles right inner chain
    rw [Expr.readLevel, if_pos dangles]
    have opening : Placed stop (first :: rest)
        (right.afterToken.andThen fun operand => noted (Expr.dangling first operand) ⟨first, .noLeftOperand⟩) := by
      apply inner.settle
      intro operand
      refine ⟨_, rfl, rfl, ?_⟩
      intro error noticed
      cases noticed
      rfl
    apply opening.andThen
    intro left
    rw [dangling_width]
    exact chain left
  case case6 =>
    intro level first rest regular operand inner chain
    rw [Expr.readLevel, if_neg regular]
    exact inner.andThen chain
  case case7 =>
    intro level left
    rw [Expr.readChain]
    exact .done stop [] left
  case case8 =>
    intro level left operator rest isOperator right inner chain
    rw [Expr.readChain, if_pos isOperator]
    exact (inner.next operator).andThen chain
  case case9 =>
    intro level left operator rest noOperator
    rw [Expr.readChain, if_neg noOperator]
    exact .done stop _ left
  case case16 =>
    intro first rest opens inner
    rw [Expr.readPrimary, opens]
    exact ((inner.closedBy .rightParen .openGrouping).map _).next first
  case case17 =>
    intro first rest notFalse notTrue notNil notNumber notString notName notOpening
    rw [Expr.readPrimary]
    split
    all_goals first | contradiction | exact .fail rfl
  all_goals
    intro first rest isAtom
    rw [Expr.readPrimary, isAtom]
    exact .one stop first rest _

namespace Reading
variable {α β : Type} {reading : Reading α}

def Moves (reading : Reading α) : Prop := ∀ value, reading.result = .ok value → 0 < reading.width

theorem Moves.next (reading : Reading α) : reading.afterToken.Moves := fun _ _ => Nat.succ_pos _

theorem Moves.map {change : α → β} (moves : reading.Moves) : (reading.map change).Moves := by
  intro value ends
  obtain ⟨result, width, note⟩ := reading
  cases result with
  | error => cases ends
  | ok before => exact moves before rfl

theorem Moves.andThen {next : α → Reading β} (moves : reading.Moves) : (reading.andThen next).Moves := by
  intro value ends
  obtain ⟨result, width, note⟩ := reading
  cases result with
  | error => cases ends
  | ok before => exact Nat.lt_of_lt_of_le (moves before rfl) (Nat.le_add_right _ _)

end Reading

theorem Expr.read_moves_each (stop : Token) :
    (∀ tokens, (Expr.read stop tokens).Moves) ∧
    (∀ level tokens, (Expr.readLevel stop level tokens).Moves) ∧
    (∀ (_ : Level) (_ : Expr) (_ : List Token), True) ∧
    ∀ first rest, (Expr.readPrimary stop first rest).Moves := by
  apply Expr.read.mutual_induct stop
  case case1 =>
    intro tokens target inner value
    rw [Expr.read]
    exact inner.andThen
  case case2 =>
    intro level value ends
    rw [Expr.readLevel] at ends
    cases ends
  case case3 =>
    intro first rest isOperator inner
    rw [Expr.readLevel, if_pos isOperator]
    exact (Moves.next _).map
  case case4 =>
    intro first rest noOperator inner
    rw [Expr.readLevel, if_neg noOperator]
    exact inner
  case case5 =>
    intro level first rest dangles right inner chain
    rw [Expr.readLevel, if_pos dangles]
    exact (Moves.next _).andThen.andThen
  case case6 =>
    intro level first rest regular operand inner chain
    rw [Expr.readLevel, if_neg regular]
    exact inner.andThen
  case case7 | case8 | case9 =>
    intros
    trivial
  case case16 =>
    intro first rest opens inner
    rw [Expr.readPrimary, opens]
    exact Moves.next _
  case case17 =>
    intro first rest notFalse notTrue notNil notNumber notString notName notOpening value ends
    rw [Expr.readPrimary] at ends
    split at ends
    all_goals contradiction
  all_goals
    intro first rest isAtom value ends
    rw [Expr.readPrimary, isAtom]
    exact Nat.one_pos

end Lox
