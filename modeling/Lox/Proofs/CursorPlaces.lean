import Mathlib.Logic.Function.Iterate
import Lox.Cursor
import Lox.Proofs.DeclarationPlaces

/-! Places of a cursor, and what it shows from there on. A reader that looks at the current token and advances
is shown the tokens before the first end marker and then the marker for ever, so that it cannot tell what
stands behind it. -/

namespace Lox

private theorem Boundary.distance_append_stop {stop : Token} (ends : stop.kind = .eof) (previous : Option Kind)
    (tokens after : List Token) : distance previous (tokens ++ stop :: after) = distance previous tokens := by
  induction tokens generalizing previous with
  | nil =>
    have boundary : isBoundary previous stop = true := by
      rw [isBoundary, Token.isEof_iff.mpr ends]
      rfl
    simp only [List.nil_append, distance, boundary, if_true]
  | cons next rest ih => rw [List.cons_append, distance, distance, ih]

namespace Cursor

/-- All that is seen from a cursor by looking and advancing: some tokens, and then always the same one. -/
def Shows (cursor : Cursor) (tokens : List Token) (stop : Token) : Prop :=
  ∀ count, (advance^[count] cursor).current = tokens.getD count stop

namespace Shows
variable {cursor : Cursor} {tokens : List Token} {stop : Token}

private theorem cons (rest : cursor.advance.Shows tokens stop) : cursor.Shows (cursor.current :: tokens) stop := by
  intro count
  cases count with
  | zero => rfl
  | succ count => exact rest count

private theorem stays (ended : cursor.isAtEnd = true) : cursor.Shows [] cursor.current := by
  have fixed : cursor.advance = cursor := if_pos ended
  intro count
  rw [Function.iterate_fixed fixed]
  rfl

/-- Behind the last token of a list it is this token that is seen. -/
private theorem past {tokens : List Token} {place : Nat} (past : tokens.length ≤ place) :
    (Cursor.mk tokens place).Shows [] (tokens.getLast?.getD (.endOfFile 1)) := by
  intro count
  induction count generalizing place with
  | zero =>
    rw [Function.iterate_zero_apply, current, List.getElem?_eq_none past]
    rfl
  | succ count ih =>
    rw [Function.iterate_succ_apply, advance]
    split
    · exact ih past
    · exact ih (Nat.le_succ_of_le past)

private theorem ofDrop {list : List Token} {place : Nat} {rest : List Token} (left : list.drop place = rest) :
    (Cursor.mk list place).Shows (rest.takeWhile (!·.isEof))
      ((rest.find? Token.isEof).getD (list.getLast?.getD (.endOfFile 1))) := by
  induction rest generalizing place with
  | nil => exact past (List.drop_eq_nil_iff.mp left)
  | cons first rest ih =>
    have found : list[place]? = some first := by
      have head := congrArg (·[0]?) left
      rwa [List.getElem?_drop, Nat.add_zero] at head
    have seen : (Cursor.mk list place).current = first := by
      rw [current, found]
      rfl
    have behind : list.drop (place + 1) = rest := by
      rw [← List.drop_drop, left]
      rfl
    cases ends : first.isEof with
    | true =>
      rw [List.takeWhile_cons_of_neg (by rw [ends]; decide), List.find?_cons_of_pos ends, ← seen]
      exact stays (by rw [isAtEnd, seen, ends])
    | false =>
      have moves : (Cursor.mk list place).advance = ⟨list, place + 1⟩ := if_neg (by rw [isAtEnd, seen, ends]; decide)
      have further := ih behind
      rw [← moves] at further
      rw [List.takeWhile_cons_of_pos (by rw [ends]; rfl), List.find?_cons_of_neg (by rw [ends]; decide)]
      exact seen ▸ further.cons

theorem start (tokens : List Token) :
    (Cursor.start tokens).Shows (Feed.ofTokens tokens).tokens (Feed.ofTokens tokens).stop :=
  ofDrop List.drop_zero

/-- Tokens up to an end marker, and the marker, are told by what is shown of them. -/
theorem unique {others : List Token} {marker : Token} (one : cursor.Shows tokens stop)
    (other : cursor.Shows others marker) (unended : ∀ token ∈ tokens, token.kind ≠ .eof)
    (never : ∀ token ∈ others, token.kind ≠ .eof) (ends : stop.kind = .eof) : tokens = others ∧ stop = marker := by
  have same (count : Nat) : tokens.getD count stop = others.getD count marker := (one count).symm.trans (other count)
  clear one other
  induction tokens generalizing others with
  | nil =>
    cases others with
    | nil => exact ⟨rfl, same 0⟩
    | cons next more =>
      have marked : stop = next := same 0
      exact absurd (marked ▸ ends) (never next List.mem_cons_self)
  | cons first rest ih =>
    cases others with
    | nil =>
      have seen : first = marker := same 0
      have past := same (first :: rest).length
      rw [List.getD_eq_getElem?_getD, List.getElem?_eq_none (Nat.le_refl _)] at past
      have last : stop = marker := past
      exact absurd (seen.trans last.symm ▸ ends) (unended first List.mem_cons_self)
    | cons next more =>
      rw [List.forall_mem_cons] at unended never
      have seen : first = next := same 0
      obtain ⟨others, marked⟩ := ih unended.2 never.2 fun count => same (count + 1)
      exact ⟨by rw [seen, others], marked⟩

end Shows

/-- A place in a list that is no later than its first end marker. -/
structure Inside (before : List Token) (stop : Token) (after : List Token) (cursor : Cursor) : Prop where
  tokens : cursor.tokens = before ++ stop :: after
  position : cursor.position ≤ before.length

namespace Inside
variable {before after : List Token} {stop : Token} {cursor : Cursor}

private theorem current_before (inside : cursor.Inside before stop after) (short : cursor.position < before.length) :
    cursor.current = before[cursor.position] := by
  have found : cursor.tokens[cursor.position]? = some before[cursor.position] := by
    rw [inside.tokens, List.getElem?_append_left short, List.getElem?_eq_getElem short]
  rw [current, found]
  rfl

theorem stop_found (inside : cursor.Inside before stop after) : cursor.tokens[before.length]? = some stop := by
  rw [inside.tokens, List.getElem?_append_right (Nat.le_refl _), Nat.sub_self]
  rfl

theorem current_stop (inside : cursor.Inside before stop after) (reached : cursor.position = before.length) :
    cursor.current = stop := by
  rw [current, reached, inside.stop_found]
  rfl

theorem advance_eq (inside : cursor.Inside before stop after) (unended : ∀ token ∈ before, token.kind ≠ .eof)
    (ends : stop.kind = .eof) : cursor.advance = { cursor with position := min (cursor.position + 1) before.length } := by
  obtain short | reached := Nat.lt_or_eq_of_le inside.position
  · have goesOn : ¬ cursor.isAtEnd = true := by
      rw [isAtEnd, inside.current_before short, Token.isEof_iff]
      exact unended _ (List.getElem_mem short)
    rw [advance, if_neg goesOn, Nat.min_eq_left short]
  · have atEnd : cursor.isAtEnd = true := by
      rw [isAtEnd, inside.current_stop reached, Token.isEof_iff]
      exact ends
    have place : min (cursor.position + 1) before.length = cursor.position := by omega
    rw [advance, if_pos atEnd, place]

theorem iterate_eq (inside : cursor.Inside before stop after) (unended : ∀ token ∈ before, token.kind ≠ .eof)
    (ends : stop.kind = .eof) (count : Nat) :
    advance^[count] cursor = { cursor with position := min (cursor.position + count) before.length } := by
  induction count with
  | zero => rw [Function.iterate_zero_apply, Nat.add_zero, Nat.min_eq_left inside.position]
  | succ count ih =>
    have reached : Inside before stop after { cursor with position := min (cursor.position + count) before.length } :=
      ⟨inside.tokens, Nat.min_le_right _ _⟩
    have place : min (min (cursor.position + count) before.length + 1) before.length =
        min (cursor.position + (count + 1)) before.length := by omega
    rw [Function.iterate_succ_apply', ih, reached.advance_eq unended ends, place]

/-- The tokens that are left before the marker are shown, and then the marker. -/
theorem shows (inside : cursor.Inside before stop after) (unended : ∀ token ∈ before, token.kind ≠ .eof)
    (ends : stop.kind = .eof) : cursor.Shows (before.drop cursor.position) stop := by
  intro count
  have reached : Inside before stop after { cursor with position := min (cursor.position + count) before.length } :=
    ⟨inside.tokens, Nat.min_le_right _ _⟩
  rw [inside.iterate_eq unended ends, List.getD_eq_getElem?_getD, List.getElem?_drop]
  obtain short | passed := Nat.lt_or_ge (cursor.position + count) before.length
  · have place : min (cursor.position + count) before.length = cursor.position + count :=
      Nat.min_eq_left (Nat.le_of_lt short)
    rw [place] at reached ⊢
    rw [reached.current_before short, List.getElem?_eq_getElem short, Option.getD_some]
  · rw [reached.current_stop (Nat.min_eq_right passed), List.getElem?_eq_none passed, Option.getD_none]

theorem synchronize_position (inside : cursor.Inside before stop after) (ends : stop.kind = .eof) :
    cursor.synchronize.position =
      cursor.position + Boundary.distance cursor.previousKind (before.drop cursor.position) := by
  rw [synchronize, toBoundary, inside.tokens, List.drop_append_of_le_length inside.position,
    Boundary.distance_append_stop ends]

/-- No move of the cursor leads beyond the marker. -/
theorem moves (inside : cursor.Inside before stop after) (unended : ∀ token ∈ before, token.kind ≠ .eof)
    (ends : stop.kind = .eof) : cursor.advance.Inside before stop after ∧ cursor.synchronize.Inside before stop after := by
  have distance := Boundary.distance_le cursor.previousKind (before.drop cursor.position)
  rw [List.length_drop] at distance
  refine ⟨⟨?_, ?_⟩, inside.tokens, ?_⟩
  · rw [advance]
    split <;> exact inside.tokens
  · rw [inside.advance_eq unended ends]
    exact Nat.min_le_right _ _
  · have position := inside.position
    rw [inside.synchronize_position ends]
    omega

end Inside

end Cursor

end Lox
