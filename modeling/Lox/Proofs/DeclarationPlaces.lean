import Lox.Proofs.AcceptedPrograms
import Lox.Proofs.ErrorPlaces

/-! Where declarations report their errors. A declaration that is given up may leave
the token of its error to the next one, which then starts there, so the errors of a
whole program still come in the order of their tokens. -/

namespace Lox
open Reading

private theorem drop_pred {width : Nat} (moves : 0 < width) (first : Token) (rest : List Token) :
    rest.drop (width - 1) = (first :: rest).drop width := by
  obtain ⟨width, rfl⟩ := Nat.exists_eq_succ_of_ne_zero (Nat.ne_of_gt moves)
  rfl

namespace Boundary

theorem distance_le (previous : Option Kind) (tokens : List Token) : distance previous tokens ≤ tokens.length := by
  induction tokens generalizing previous with
  | nil => exact Nat.le_refl 0
  | cons next rest ih =>
    rw [distance]
    split
    · exact Nat.zero_le _
    · exact Nat.succ_le_succ (ih _)

/-- Giving up takes at least one token, and at least what was read. -/
private theorem skip_bounds {first : Token} {rest : List Token} {width : Nat} (inside : width ≤ (first :: rest).length) :
    width ≤ skip (first :: rest) width ∧ 0 < skip (first :: rest) width ∧
      skip (first :: rest) width ≤ (first :: rest).length := by
  have further := distance_le ((first :: rest)[max width 1 - 1]?.map Token.kind) ((first :: rest).drop (max width 1))
  rw [List.length_drop] at further
  rw [List.length_cons] at inside further ⊢
  simp only [skip]
  omega

end Boundary

namespace Passage
variable {α β : Type} {stop first : Token} {tokens rest : List Token} {passage : Passage α}

/-- A passage inside its tokens, whose errors are noticed at tokens that it takes or at the next one. -/
structure Placed (stop : Token) (tokens : List Token) (passage : Passage α) : Prop where
  inside : passage.width ≤ tokens.length
  fails : ∀ error, passage.result = .error error → (tokens ++ [stop])[passage.width]? = some error.token
  errors : Ascends (tokens ++ [stop]) 0 passage.errors passage.width

theorem Placed.ofReading {reading : Reading α} (placed : reading.Placed stop tokens) (pending : Bool) :
    Placed stop tokens (.ofReading pending reading) := by
  refine ⟨placed.inside, placed.fails, ?_⟩
  cases pending with
  | true => exact .nil (Nat.zero_le _)
  | false => exact placed.notes

theorem Placed.map (placed : Placed stop tokens passage) (change : α → β) : Placed stop tokens (passage.map change) := by
  refine ⟨placed.inside, ?_, placed.errors⟩
  intro error failed
  obtain ⟨result, width, errors, pending⟩ := passage
  cases result with
  | ok => cases failed
  | error =>
    cases failed
    exact placed.fails error rfl

theorem Placed.next (placed : Placed stop rest passage) (first : Token) :
    Placed stop (first :: rest) passage.afterToken := by
  refine ⟨Nat.succ_le_succ placed.inside, placed.fails, ?_⟩
  have shifted : Ascends (first :: rest ++ [stop]) (1 + 0) passage.errors (1 + passage.width) :=
    Ascends.later placed.errors
  exact shifted.widen (Nat.zero_le _) (Nat.le_of_eq (Nat.add_comm 1 _))

theorem Placed.andThen {next : α → Bool → Passage β} (placed : Placed stop tokens passage)
    (further : ∀ value pending, Placed stop (tokens.drop passage.width) (next value pending)) :
    Placed stop tokens (passage.andThen next) := by
  obtain ⟨result, width, errors, pending⟩ := passage
  obtain ⟨inside, fails, ascends⟩ := placed
  cases result with
  | error error =>
    refine ⟨inside, ?_, ascends⟩
    intro other failed
    cases failed
    exact fails error rfl
  | ok value =>
    obtain ⟨more, failsLater, ascendsLater⟩ := further value pending
    simp only at inside ascends more failsLater ascendsLater
    rw [drop_append_stop inside] at failsLater ascendsLater
    rw [List.length_drop] at more
    refine ⟨?_, ?_, ?_⟩
    · show width + (next value pending).width ≤ tokens.length
      omega
    · intro error failed
      have found := failsLater error failed
      rwa [List.getElem?_drop] at found
    · show Ascends _ 0 (errors ++ (next value pending).errors) (width + (next value pending).width)
      exact ascends.append ascendsLater.later

def Moves (passage : Passage α) : Prop := ∀ value, passage.result = .ok value → 0 < passage.width

theorem Moves.next (passage : Passage α) : passage.afterToken.Moves := fun _ _ => Nat.succ_pos _

private theorem Moves.ofReading {reading : Reading α} (moves : reading.Moves) (pending : Bool) :
    (ofReading pending reading).Moves := moves

private theorem Moves.andThen {next : α → Bool → Passage β} (moves : passage.Moves) : (passage.andThen next).Moves := by
  intro value ends
  obtain ⟨result, width, errors, pending⟩ := passage
  cases result with
  | error => cases ends
  | ok before => exact Nat.lt_of_lt_of_le (moves before rfl) (Nat.le_add_right _ _)

end Passage

namespace Batch
variable {stop first : Token} {tokens rest : List Token} {batch more : Batch}

structure Placed (stop : Token) (tokens : List Token) (batch : Batch) : Prop where
  inside : batch.width ≤ tokens.length
  errors : Ascends (tokens ++ [stop]) 0 batch.errors batch.width

private theorem Placed.empty (stop : Token) (tokens : List Token) : Placed stop tokens .empty :=
  ⟨Nat.zero_le _, .nil (Nat.le_refl 0)⟩

/-- A declaration is over behind its errors, whether it was read or given up. -/
theorem Placed.ofPassage {passage : Passage Stmt} (placed : passage.Placed stop (first :: rest)) :
    Placed stop (first :: rest) (ofPassage (first :: rest) passage) := by
  obtain ⟨result, width, errors, pending⟩ := passage
  cases result with
  | ok statement => exact ⟨placed.inside, placed.errors⟩
  | error error =>
    obtain ⟨above, _, inside⟩ := Boundary.skip_bounds placed.inside
    refine ⟨inside, ?_⟩
    have last : Ascends (first :: rest ++ [stop]) width (if pending then [] else [error])
        (Boundary.skip (first :: rest) width) := by
      cases pending with
      | true => exact .nil above
      | false => exact Ascends.single (placed.fails error rfl) (Nat.le_refl _) above
    exact placed.errors.append last

private theorem ofPassage_pos {passage : Passage Stmt} (placed : passage.Placed stop (first :: rest)) (moves : passage.Moves) :
    0 < (ofPassage (first :: rest) passage).width := by
  obtain ⟨result, width, errors, pending⟩ := passage
  cases result with
  | ok statement => exact moves statement rfl
  | error error => exact (Boundary.skip_bounds placed.inside).2.1

theorem Placed.append (placed : Placed stop (first :: rest) batch) (moves : 0 < batch.width)
    (further : Placed stop (rest.drop (batch.width - 1)) more) : Placed stop (first :: rest) (batch ++ more) := by
  have remains := drop_pred moves first rest
  obtain ⟨inside, ascends⟩ := placed
  obtain ⟨insideLater, ascendsLater⟩ := further
  rw [remains] at insideLater ascendsLater
  rw [drop_append_stop inside] at ascendsLater
  rw [List.length_drop] at insideLater
  refine ⟨?_, ascends.append ascendsLater.later⟩
  show batch.width + more.width ≤ (first :: rest).length
  omega

end Batch

namespace Stmt
variable (stop : Token)

private theorem readClosed_placed (fault : SyntaxFault) (tokens : List Token) :
    (readClosed stop fault tokens).Placed stop tokens :=
  ((Expr.read_placed_each stop).1 tokens).closedBy .semicolon fault

private theorem readClosed_moves (fault : SyntaxFault) (tokens : List Token) : (readClosed stop fault tokens).Moves :=
  ((Expr.read_moves_each stop).1 tokens).andThen

theorem readCondition_placed (unopened unclosed : SyntaxFault) (tokens : List Token) :
    (readCondition stop unopened unclosed tokens).Placed stop tokens := by
  have inner := ((Expr.read_placed_each stop).1 tokens.tail).closedBy .rightParen unclosed
  cases tokens with
  | nil =>
    apply (expect_placed stop .leftParen unopened []).andThen
    intro _
    rwa [List.drop_nil]
  | cons first rest =>
    rw [readCondition, expect]
    split
    next => exact (Reading.Placed.one stop first rest ()).andThen fun _ => inner
    next => exact .fail rfl

private theorem readDeclaration_placed (tokens : List Token) : (readDeclaration stop tokens).Placed stop tokens := by
  cases tokens with
  | nil => exact .fail rfl
  | cons name rest =>
    simp only [readDeclaration]
    split
    next =>
      apply Reading.Placed.next
      apply Reading.Placed.map
      apply Reading.Placed.closedBy
      split
      next => exact .done stop [] none
      next equals after =>
        split
        next => exact (((Expr.read_placed_each stop).1 after).map some).next equals
        next => exact .done stop _ none
    next => exact .fail rfl

private theorem block_placed {opening : Token} {rest : List Token} {body : Batch} (pending : Bool)
    (placed : body.Placed stop rest) :
    ((⟨.ok body.statements, body.width + 1, body.errors, pending⟩ : Passage (List Stmt)).andThen
      fun statements pending => Passage.ofReading pending
        ((expect stop .rightBrace .openBlock (rest.drop body.width)).map fun _ => Stmt.block statements)).Placed
      stop (opening :: rest) := by
  have opened : (⟨.ok body.statements, body.width, body.errors, pending⟩ : Passage (List Stmt)).Placed stop rest :=
    ⟨placed.inside, fun _ failed => (by cases failed), placed.errors⟩
  apply (opened.next opening).andThen
  intro statements pending
  exact .ofReading ((expect_placed stop .rightBrace .openBlock _).map _) pending

private theorem read_moves (pending : Bool) (tokens : List Token) : (read stop pending tokens).Moves := by
  cases tokens with
  | nil =>
    intro value ends
    rw [read] at ends
    cases ends
  | cons first rest =>
    rw [read]
    split
    · exact .ofReading (Reading.Moves.next _) pending
    · exact .ofReading (Reading.Moves.next _) pending
    · exact Passage.Moves.andThen fun _ _ => Nat.succ_pos _
    · exact Passage.Moves.andThen (.ofReading (Reading.Moves.next _) pending)
    · exact Passage.Moves.andThen (.ofReading (Reading.Moves.next _) pending)
    · exact .ofReading ((readClosed_moves stop .openExpression _).map) pending

/-- Statements, blocks and declarations report errors in the order of their tokens. -/
theorem read_placed_each :
    (∀ pending tokens, (read stop pending tokens).Placed stop tokens) ∧
    (∀ pending tokens, (readBlock stop pending tokens).Placed stop tokens) ∧
    ∀ pending first rest, (readOne stop pending first rest).Placed stop (first :: rest) ∧
      0 < (readOne stop pending first rest).width := by
  apply read.mutual_induct stop
  case case1 =>
    intro pending
    rw [read]
    exact .ofReading (.fail rfl) pending
  case case2 =>
    intro pending keyword rest isPrint
    simp only [read, isPrint]
    exact .ofReading (((readClosed_placed stop .openPrint rest).map _).next keyword) pending
  case case3 =>
    intro pending keyword rest isBreak
    simp only [read, isBreak]
    exact .ofReading (((expect_placed stop .semicolon .openBreak rest).map _).next keyword) pending
  case case4 =>
    intro pending opening rest opens inner
    simp only [read, opens]
    exact block_placed stop _ inner
  case case5 =>
    intro pending keyword rest isIf condition chosen _ other
    simp only [read, isIf]
    have tested := (readCondition_placed stop .noIfCondition .openIfCondition rest).next keyword
    apply (Passage.Placed.ofReading tested pending).andThen
    intro test known
    apply (chosen known).andThen
    intro tree settled
    split
    next => exact .ofReading (.done stop _ _) settled
    next middle last follow =>
      rw [show List.drop _ _ = middle :: last from follow]
      split
      next => exact ((other known settled middle last follow).map _).next middle
      next => exact .ofReading (.done stop _ _) settled
  case case6 =>
    intro pending keyword rest isWhile condition inner
    simp only [read, isWhile]
    have tested := (readCondition_placed stop .noWhileCondition .openWhileCondition rest).next keyword
    apply (Passage.Placed.ofReading tested pending).andThen
    intro test known
    exact (inner known).map _
  case case7 =>
    intro pending first rest notPrint notBreak notBlock notIf notWhile
    rw [read]
    split
    all_goals first | contradiction | exact .ofReading ((readClosed_placed stop .openExpression _).map _) pending
  case case8 =>
    intro pending
    rw [readBlock]
    exact .empty stop []
  case case9 =>
    intro pending first rest closes
    rw [readBlock, if_pos closes]
    exact .empty stop _
  case case10 =>
    intro pending first rest more head one inner
    rw [readBlock, if_neg more]
    exact one.1.append one.2 inner
  case case11 =>
    intro pending first rest inner
    have declared := (readDeclaration_placed stop rest).next first
    rw [readOne]
    split
    next =>
      exact ⟨.ofPassage (.ofReading declared pending), Batch.ofPassage_pos (.ofReading declared pending)
        (.ofReading (Reading.Moves.next _) pending)⟩
    next => exact ⟨.ofPassage inner, Batch.ofPassage_pos inner (read_moves stop pending _)⟩

/-- The declarations after one start right behind its last token. -/
theorem readOne_splits {pending : Bool} {first : Token} {rest : List Token} {batch : Batch}
    (head : readOne stop pending first rest = batch) :
    rest.drop (batch.width - 1) = (first :: rest).drop batch.width ∧ batch.width ≤ (first :: rest).length := by
  obtain ⟨placed, moves⟩ := (read_placed_each stop).2.2 pending first rest
  rw [head] at placed moves
  exact ⟨drop_pred moves first rest, placed.inside⟩

theorem readAll_placed (tokens : List Token) : (readAll stop tokens).Placed stop tokens := by
  induction tokens using readAll.induct stop with
  | case1 =>
    rw [readAll]
    exact .empty stop []
  | case2 first rest head ih =>
    rw [readAll]
    obtain ⟨placed, moves⟩ := (read_placed_each stop).2.2 false first rest
    exact placed.append moves ih

end Stmt

/-- The tokens before the end marker, the marker, and tokens that are never read. -/
theorem Ended.split {tokens : List Token} (ended : Ended tokens) :
    ∃ before stop after, tokens = before ++ stop :: after ∧ stop.kind = .eof ∧
      Feed.ofTokens tokens = ⟨before, stop⟩ := by
  obtain ⟨marker, member, isEnd⟩ := ended
  have found : (tokens.find? Token.isEof).isSome := List.find?_isSome.mpr ⟨marker, member, Token.isEof_iff.mpr isEnd⟩
  obtain ⟨stop, first⟩ := Option.isSome_iff_exists.mp found
  obtain ⟨ends, before, after, rfl, unended⟩ := List.find?_eq_some_iff_append.mp first
  have marks : stop.kind = .eof := Token.isEof_iff.mp ends
  refine ⟨before, stop, after, rfl, marks, Feed.ofTokens_append ?_ marks after⟩
  intro token inside same
  have other := unended token inside
  rw [Token.isEof_iff.mpr same] at other
  cases other

/-- The errors of a program come in the order of their tokens, none behind the end marker. -/
theorem parseProgram_ascends {tokens : List Token} (ended : Ended tokens) :
    Ascends tokens 0 (parseProgram tokens).errors (Feed.ofTokens tokens).tokens.length := by
  obtain ⟨before, stop, after, rfl, _, feed⟩ := ended.split
  obtain ⟨inside, ascends⟩ := Stmt.readAll_placed stop before
  have whole := (ascends.widen (Nat.le_refl 0) inside).extend after
  rw [List.append_assoc, List.singleton_append] at whole
  simp only [parseProgram, feed]
  exact whole

end Lox
