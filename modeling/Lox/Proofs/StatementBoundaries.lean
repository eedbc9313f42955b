import Mathlib.Order.Bounds.Defs
import Lox.Proofs.CursorPlaces

/-! Recovery goes on token by token up to the first boundary between statements and
stays there. A semicolon that was taken before counts too, so that no statement behind
a boundary is passed over. -/

namespace Lox

/-- A place of a token list at which reading can start afresh: at an end marker, behind a semicolon, or at a
token that starts a statement. -/
inductive Boundary.StandsAt (tokens : List Token) (place : Nat) : Prop where
  | atEnd {next : Token} (found : tokens[place]? = some next) (ends : next.kind = .eof)
  | afterSemicolon {last : Token} (moved : 0 < place) (found : tokens[place - 1]? = some last)
      (ends : last.kind = .semicolon)
  | beforeStarter {next : Token} (found : tokens[place]? = some next) (starts : starters.contains next.kind = true)

namespace Cursor

def atBoundary (cursor : Cursor) : Bool := Boundary.isBoundary cursor.previousKind cursor.current

private theorem atBoundary_iff {cursor : Cursor} :
    cursor.atBoundary = true ↔
      cursor.isAtEnd = true ∨ cursor.previousKind = some .semicolon ∨
        Boundary.starters.contains cursor.current.kind = true := by
  rw [atBoundary, Boundary.isBoundary, Bool.or_eq_true, Bool.or_eq_true, beq_iff_eq, or_assoc]
  rfl

private theorem previousKind_eq_some {cursor : Cursor} {kind : Kind} :
    cursor.previousKind = some kind ↔
      0 < cursor.position ∧ ∃ last, cursor.tokens[cursor.position - 1]? = some last ∧ last.kind = kind := by
  rw [previousKind]
  split
  next start => simp only [start, reduceCtorEq, Nat.lt_irrefl, false_and]
  next moved => rw [Option.map_eq_some_iff, and_iff_right (Nat.pos_of_ne_zero moved)]

private theorem advance_of_not_atBoundary {cursor : Cursor} (goesOn : ¬ cursor.atBoundary = true) :
    cursor.advance = { cursor with position := cursor.position + 1 } := by
  have unended : ¬ cursor.isAtEnd = true := fun ended => goesOn (atBoundary_iff.mpr (.inl ended))
  rw [advance, if_neg unended]

namespace Inside
variable {before after : List Token} {stop : Token} {cursor : Cursor}

private theorem current_found (inside : cursor.Inside before stop after) :
    cursor.tokens[cursor.position]? = some cursor.current := by
  have short : cursor.position < cursor.tokens.length := by
    have position := inside.position
    rw [inside.tokens, List.length_append, List.length_cons]
    omega
  rw [current, List.getElem?_eq_getElem short]
  rfl

theorem standsAt_iff (inside : cursor.Inside before stop after) :
    Boundary.StandsAt cursor.tokens cursor.position ↔ cursor.atBoundary = true := by
  have here {next : Token} (found : cursor.tokens[cursor.position]? = some next) : next = cursor.current :=
    Option.some.inj (found.symm.trans inside.current_found)
  rw [atBoundary_iff, previousKind_eq_some]
  constructor
  · rintro (⟨found, ends⟩ | ⟨moved, found, ends⟩ | ⟨found, starts⟩)
    · exact .inl (Token.isEof_iff.mpr (here found ▸ ends))
    · exact .inr (.inl ⟨moved, _, found, ends⟩)
    · exact .inr (.inr (here found ▸ starts))
  · rintro (ended | ⟨moved, last, found, ends⟩ | starts)
    · exact .atEnd inside.current_found (Token.isEof_iff.mp ended)
    · exact .afterSemicolon moved found ends
    · exact .beforeStarter inside.current_found starts

/-- What recovery counts is decided at the token in front. -/
private theorem toBoundary_eq (inside : cursor.Inside before stop after) :
    cursor.toBoundary =
      if cursor.atBoundary then 0
      else Boundary.distance (some cursor.current.kind) (cursor.tokens.drop (cursor.position + 1)) + 1 := by
  obtain ⟨short, same⟩ := List.getElem?_eq_some_iff.mp inside.current_found
  rw [toBoundary, List.drop_eq_getElem_cons short, same, Boundary.distance]
  rfl

theorem stays (inside : cursor.Inside before stop after) (boundary : cursor.atBoundary = true) :
    cursor.toBoundary = 0 ∧ cursor.synchronize = cursor := by
  have none : cursor.toBoundary = 0 := by rw [inside.toBoundary_eq, if_pos boundary]
  refine ⟨none, ?_⟩
  rw [synchronize, none]
  rfl

/-- Anywhere else one token is passed and recovery goes on behind it. -/
theorem goes_on (inside : cursor.Inside before stop after) (goesOn : ¬ cursor.atBoundary = true) :
    cursor.toBoundary = cursor.advance.toBoundary + 1 ∧ cursor.synchronize = cursor.advance.synchronize := by
  have moved := advance_of_not_atBoundary goesOn
  have previous : cursor.advance.previousKind = some cursor.current.kind := by
    rw [moved, previousKind_eq_some]
    exact ⟨Nat.succ_pos _, _, inside.current_found, rfl⟩
  have counted : cursor.toBoundary = cursor.advance.toBoundary + 1 := by
    rw [inside.toBoundary_eq, if_neg goesOn, toBoundary, previous, moved]
  refine ⟨counted, ?_⟩
  rw [synchronize, synchronize, counted, moved, Nat.add_right_comm, Nat.add_assoc]

private theorem atBoundary_stop (inside : cursor.Inside before stop after) (ends : stop.kind = .eof)
    (reached : cursor.position = before.length) : cursor.atBoundary = true := by
  refine atBoundary_iff.mpr (.inl ?_)
  rw [isAtEnd, inside.current_stop reached]
  exact Token.isEof_iff.mpr ends

private theorem advance_inside (inside : cursor.Inside before stop after) (ends : stop.kind = .eof)
    (goesOn : ¬ cursor.atBoundary = true) : cursor.advance.Inside before stop after := by
  have short : cursor.position ≠ before.length := fun reached => goesOn (inside.atBoundary_stop ends reached)
  have position := inside.position
  rw [advance_of_not_atBoundary goesOn]
  exact ⟨inside.tokens, by show cursor.position + 1 ≤ before.length; omega⟩

/-- To show something of every place before an end marker it is enough to show it at the boundaries,
and to take it back over a token at which there is none. -/
@[elab_as_elim]
theorem backwards (ends : stop.kind = .eof) {motive : (cursor : Cursor) → cursor.Inside before stop after → Prop}
    (boundary : ∀ cursor inside, cursor.atBoundary = true → motive cursor inside)
    (passed : ∀ cursor inside nearer, ¬ cursor.atBoundary = true → motive cursor.advance nearer → motive cursor inside)
    (cursor : Cursor) (inside : cursor.Inside before stop after) : motive cursor inside := by
  -- Every token that is passed brings the cursor nearer to the marker.
  induction left : before.length - cursor.position generalizing cursor with
  | zero =>
    have reached := Nat.le_antisymm inside.position (Nat.le_of_sub_eq_zero left)
    exact boundary cursor inside (inside.atBoundary_stop ends reached)
  | succ tokens ih =>
    by_cases found : cursor.atBoundary = true
    · exact boundary cursor inside found
    · refine passed cursor inside (inside.advance_inside ends found) found (ih _ _ ?_)
      rw [advance_of_not_atBoundary found]
      show before.length - (cursor.position + 1) = tokens
      omega

/-- Recovery passes as many tokens as it counts, one after another. -/
theorem synchronize_eq_iterate (inside : cursor.Inside before stop after) (ends : stop.kind = .eof) :
    cursor.synchronize = advance^[cursor.toBoundary] cursor := by
  induction cursor, inside using backwards ends with
  | boundary cursor inside boundary =>
    rw [(inside.stays boundary).1, (inside.stays boundary).2]
    rfl
  | passed cursor inside nearer goesOn ih =>
    rw [(inside.goes_on goesOn).1, (inside.goes_on goesOn).2, ih]
    rfl

/-- Recovery leads to the first boundary that is not behind the cursor. -/
theorem synchronize_isLeast (inside : cursor.Inside before stop after) (ends : stop.kind = .eof) :
    IsLeast {place | cursor.position ≤ place ∧ Boundary.StandsAt cursor.tokens place}
      cursor.synchronize.position := by
  induction cursor, inside using backwards ends with
  | boundary cursor inside boundary =>
    rw [(inside.stays boundary).2]
    exact ⟨⟨Nat.le_refl _, inside.standsAt_iff.mpr boundary⟩, fun place later => later.1⟩
  | passed cursor inside nearer goesOn ih =>
    rw [← (inside.goes_on goesOn).2, advance_of_not_atBoundary goesOn] at ih
    obtain ⟨⟨further, stands⟩, least⟩ := ih
    refine ⟨⟨Nat.le_of_succ_le further, stands⟩, fun place ⟨later, other⟩ => least ⟨?_, other⟩⟩
    -- No boundary stands at the cursor itself.
    refine Nat.lt_of_le_of_ne later fun same => goesOn ?_
    rw [← same] at other
    exact inside.standsAt_iff.mp other

/-- Recovery does not lead beyond the marker, because a boundary stands there. -/
theorem synchronize_inside (inside : cursor.Inside before stop after) (ends : stop.kind = .eof) :
    cursor.synchronize.Inside before stop after := by
  obtain ⟨_, least⟩ := inside.synchronize_isLeast ends
  exact ⟨inside.tokens, least ⟨inside.position, .atEnd inside.stop_found ends⟩⟩

theorem synchronize_atBoundary (inside : cursor.Inside before stop after) (ends : stop.kind = .eof) :
    cursor.synchronize.atBoundary = true := by
  obtain ⟨⟨_, stands⟩, _⟩ := inside.synchronize_isLeast ends
  exact (inside.synchronize_inside ends).standsAt_iff.mp stands

end Inside

end Cursor

/-- From a place no later than an end marker recovery goes to the first boundary between statements, one
token at a time, and tells how many it passed. Once there it passes none. -/
theorem recovery_stops_at_first_boundary {before after : List Token} {stop : Token} {cursor : Cursor}
    (inside : cursor.Inside before stop after) (ends : stop.kind = .eof) :
    cursor.synchronize.tokens = cursor.tokens ∧
    IsLeast {place | cursor.position ≤ place ∧ Boundary.StandsAt cursor.tokens place}
      cursor.synchronize.position ∧
    cursor.synchronize = Cursor.advance^[cursor.toBoundary] cursor ∧
    cursor.toBoundary = cursor.synchronize.position - cursor.position ∧
    cursor.synchronize.synchronize = cursor.synchronize ∧ cursor.synchronize.toBoundary = 0 := by
  obtain ⟨none, same⟩ := (inside.synchronize_inside ends).stays (inside.synchronize_atBoundary ends)
  have counted : cursor.toBoundary = cursor.synchronize.position - cursor.position :=
    (Nat.add_sub_cancel_left cursor.position cursor.toBoundary).symm
  exact ⟨rfl, inside.synchronize_isLeast ends, inside.synchronize_eq_iterate ends, counted, same, none⟩

/-- Between two semicolons, the second of them behind the marker. Recovery stops behind the first, although
no token that starts a statement stands there and one does further on. -/
theorem recovery_stops_at_first_boundary_between_semicolons :
    let name : Token := .simple .identifier "a" 1
    let semicolon : Token := .simple .semicolon ";" 1
    let stop : Token := .endOfFile 1
    let before := [name, name, semicolon, name, .simple .kwPrint "print" 1]
    let cursor : Cursor := ⟨before ++ stop :: [semicolon], 1⟩
    cursor.Inside before stop [semicolon] ∧ stop.kind = .eof ∧
      IsLeast {place | 1 ≤ place ∧ Boundary.StandsAt cursor.tokens place} 3 ∧
      cursor.synchronize = Cursor.advance^[2] cursor ∧ cursor.toBoundary = 3 - 1 ∧
      cursor.synchronize.synchronize = cursor.synchronize ∧ cursor.synchronize.toBoundary = 0 := by
  intro name semicolon stop before cursor
  have inside : cursor.Inside before stop [semicolon] := ⟨rfl, by decide⟩
  obtain ⟨_, first, passed, counted, again, none⟩ := recovery_stops_at_first_boundary inside rfl
  have place : cursor.synchronize.position = 3 := by decide
  have two : cursor.toBoundary = 2 := by decide
  rw [place] at first counted
  rw [two] at passed
  exact ⟨inside, rfl, first, passed, counted, again, none⟩

end Lox
