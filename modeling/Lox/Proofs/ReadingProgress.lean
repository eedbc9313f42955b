import Lox.Proofs.CursorPlaces
import Lox.Proofs.NestedDeclarations

/-! Reading goes forward, and stops at the first end marker. Every declaration takes a
token, also one that is given up, so that no loop over declarations goes on for ever.
What is read depends on what a cursor shows of the tokens, so that whatever stands
behind the marker makes no difference. -/

namespace Lox

namespace Stmt
variable {stop first : Token} {rest : List Token} {pending : Bool}

/-- A declaration is one statement or none; if it is none, it was given up at a boundary. -/
private theorem readOne_cases (stop : Token) (pending : Bool) (first : Token) (rest : List Token) :
    (readOne stop pending first rest).statements.length = 1 ∨
      (readOne stop pending first rest).statements = [] ∧
        ∃ width, (readOne stop pending first rest).width = Boundary.skip (first :: rest) width := by
  have passages : ∀ passage : Passage Stmt, (Batch.ofPassage (first :: rest) passage).statements.length = 1 ∨
      (Batch.ofPassage (first :: rest) passage).statements = [] ∧
        ∃ width, (Batch.ofPassage (first :: rest) passage).width = Boundary.skip (first :: rest) width := by
    intro passage
    obtain ⟨result, width, errors, pending⟩ := passage
    cases result with
    | ok statement => exact .inl rfl
    | error error => exact .inr ⟨rfl, width, rfl⟩
  rw [readOne]
  exact passages _

theorem readOne_progress (stop : Token) (pending : Bool) (first : Token) (rest : List Token) :
    0 < (readOne stop pending first rest).width ∧ (readOne stop pending first rest).width ≤ (first :: rest).length := by
  obtain ⟨placed, moves⟩ := (read_placed_each stop).2.2 pending first rest
  exact ⟨moves, placed.inside⟩

end Stmt

def Batch.all (batches : List Batch) : Batch := batches.foldr (· ++ ·) .empty

private theorem Batch.all_statements (batches : List Batch) : (all batches).statements = batches.flatMap Batch.statements := by
  induction batches with
  | nil => rfl
  | cons first rest ih => rw [List.flatMap_cons, ← ih]; rfl

/-- The rounds of a loop that reads declarations, up to the end of the tokens or one that closes the
loop. If a round took no token, the next one would start where it did, and so would all others: such
a loop has no rounds in this sense. -/
inductive Rounds (stop : Token) (closes : Token → Prop) : Bool → List Token → List Batch → List Token → Prop where
  | atEnd : Rounds stop closes pending [] [] []
  | closed (stops : closes first) : Rounds stop closes pending (first :: rest) [] (first :: rest)
  | next (goesOn : ¬ closes first) (head : Stmt.readOne stop pending first rest = batch)
      (others : Rounds stop closes false ((first :: rest).drop batch.width) batches last) :
      Rounds stop closes pending (first :: rest) (batch :: batches) last

namespace Rounds
variable {stop : Token} {closes : Token → Prop} {pending : Bool} {tokens last : List Token} {batches : List Batch}

theorem terminate (stop : Token) (closes : Token → Prop) (pending : Bool) (tokens : List Token) :
    ∃ batches last, Rounds stop closes pending tokens batches last := by
  induction length : tokens.length using Nat.strongRecOn generalizing pending tokens with
  | ind count ih =>
    cases tokens with
    | nil => exact ⟨[], [], .atEnd⟩
    | cons first rest =>
      by_cases stops : closes first
      · exact ⟨[], first :: rest, .closed stops⟩
      · obtain ⟨moves, inside⟩ := Stmt.readOne_progress stop pending first rest
        have shorter : ((first :: rest).drop (Stmt.readOne stop pending first rest).width).length < count := by
          rw [List.length_drop, ← length]
          exact Nat.sub_lt_self moves inside
        obtain ⟨batches, last, others⟩ := ih _ shorter false _ rfl
        exact ⟨_, last, .next stops rfl others⟩

theorem count_le (rounds : Rounds stop closes pending tokens batches last) :
    batches.length + last.length ≤ tokens.length := by
  induction rounds with
  | atEnd => exact Nat.le_refl 0
  | closed stops => exact Nat.le_of_eq (Nat.zero_add _)
  | @next first pending rest batch batches last goesOn head others ih =>
    obtain ⟨moves, inside⟩ := Stmt.readOne_progress stop pending first rest
    rw [head] at moves inside
    rw [List.length_drop] at ih
    show batches.length + 1 + last.length ≤ _
    omega

private theorem last_closes (rounds : Rounds stop closes pending tokens batches last) : ∀ next ∈ last.head?, closes next := by
  induction rounds with
  | atEnd => exact nofun
  | @closed first rest pending stops =>
    intro next member
    cases member
    exact stops
  | next goesOn head others ih => exact ih

private theorem statements_le (rounds : Rounds stop closes pending tokens batches last) :
    (Batch.all batches).statements.length ≤ batches.length := by
  rw [Batch.all_statements]
  induction rounds with
  | atEnd | closed => exact Nat.le_refl 0
  | @next first pending rest batch batches last goesOn head others ih =>
    have one : batch.statements.length ≤ 1 := by
      rw [← head]
      obtain one | ⟨none, _⟩ := Stmt.readOne_cases stop pending first rest
      · exact Nat.le_of_eq one
      · rw [none]
        exact Nat.zero_le 1
    rw [List.flatMap_cons, List.length_append, List.length_cons]
    omega

theorem readBlock (rounds : Rounds stop (·.kind = .rightBrace) pending tokens batches last) :
    Stmt.readBlock stop pending tokens = Batch.all batches := by
  induction rounds with
  | atEnd =>
    rw [Stmt.readBlock]
    rfl
  | closed stops =>
    rw [Stmt.readBlock, if_pos stops]
    rfl
  | next goesOn head others ih =>
    rw [Stmt.readBlock, if_neg goesOn]
    simp only [head, (Stmt.readOne_splits stop head).1, ih]
    rfl

theorem readAll (rounds : Rounds stop (fun _ => False) pending tokens batches last) (fresh : pending = false) :
    Stmt.readAll stop tokens = Batch.all batches := by
  induction rounds with
  | atEnd =>
    rw [Stmt.readAll]
    rfl
  | closed stops => exact stops.elim
  | next goesOn head others ih =>
    subst fresh
    rw [Stmt.readAll, head, (Stmt.readOne_splits stop head).1, ih rfl]
    rfl

end Rounds

namespace Call

def width (stop : Token) : Call → Nat
  | program tokens => (Stmt.readAll stop tokens).width
  | declaration pending first rest => (Stmt.readOne stop pending first rest).width
  | statement pending tokens => (Stmt.read stop pending tokens).width
  | body pending tokens => (Stmt.readBlock stop pending tokens).width

private theorem width_le (stop : Token) (call : Call) : call.width stop ≤ call.tokens.length := by
  cases call with
  | program tokens => exact (Stmt.readAll_placed stop tokens).inside
  | declaration pending first rest => exact (Stmt.readOne_progress stop pending first rest).2
  | statement pending tokens => exact ((Stmt.read_placed_each stop).1 pending tokens).inside
  | body pending tokens => exact ((Stmt.read_placed_each stop).2.1 pending tokens).inside

end Call

section Places
variable {before : List Token} {stop first : Token} {rest : List Token} {offset : Nat} {pending : Bool}
  (ends : stop.kind = .eof)
include ends

/-- No call takes tokens beyond those of the program. -/
theorem Reaches.width_le {call : Call} (reaches : Reaches stop (.program before) offset call) :
    offset + call.width stop ≤ before.length := by
  have within := reaches.within ends
  have inside : offset ≤ before.length := within.inside
  have width := call.width_le stop
  rw [within.remains] at width
  have left : ((Call.program before).tokens.drop offset).length = before.length - offset := List.length_drop
  omega

private theorem Reaches.declaration_place (reaches : Reaches stop (.program before) offset (.declaration pending first rest)) :
    first :: rest = before.drop offset ∧ before[offset]? = some first := by
  have remains : first :: rest = before.drop offset := (reaches.within ends).remains
  have found : (before.drop offset)[0]? = some first := congrArg (·[0]?) remains.symm
  rw [List.getElem?_drop, Nat.add_zero] at found
  exact ⟨remains, found⟩

/-- A call reads what a cursor at its place shows, and the cursor comes to the end of what the call takes by
advancing once for each token. -/
theorem Reaches.shown {call : Call} (reaches : Reaches stop (.program before) offset call)
    (unended : ∀ token ∈ before, token.kind ≠ .eof) (after : List Token) :
    (Cursor.mk (before ++ stop :: after) offset).Shows call.tokens stop ∧
      Cursor.advance^[call.width stop] ⟨before ++ stop :: after, offset⟩ =
        ⟨before ++ stop :: after, offset + call.width stop⟩ := by
  have within := reaches.within ends
  have inside : Cursor.Inside before stop after ⟨before ++ stop :: after, offset⟩ := ⟨rfl, within.inside⟩
  have remains : call.tokens = before.drop offset := within.remains
  rw [inside.iterate_eq unended ends, Nat.min_eq_left (reaches.width_le ends), remains]
  exact ⟨inside.shows unended ends, rfl⟩

/-- A declaration that is given up leaves the cursor where it finds a boundary, some tokens further on. -/
theorem Reaches.given_up (reaches : Reaches stop (.program before) offset (.declaration pending first rest))
    (dropped : (Stmt.readOne stop pending first rest).statements = []) (after : List Token) :
    ∃ taken, 0 < taken ∧ (Cursor.mk (before ++ stop :: after) (offset + taken)).synchronize.position =
      offset + (Stmt.readOne stop pending first rest).width := by
  have limit : offset + (Stmt.readOne stop pending first rest).width ≤ before.length := reaches.width_le ends
  obtain ⟨remains, _⟩ := reaches.declaration_place ends
  obtain one | ⟨_, width, skips⟩ := Stmt.readOne_cases stop pending first rest
  · rw [dropped] at one
    cases one
  · rw [skips] at limit ⊢
    rw [remains, Boundary.skip] at limit ⊢
    have some : 0 < max width 1 := by omega
    have inside : Cursor.Inside before stop after ⟨before ++ stop :: after, offset + max width 1⟩ :=
      ⟨rfl, by show offset + max width 1 ≤ _; omega⟩
    -- The token before the cursor is one that the declaration has taken.
    have previous : (Cursor.mk (before ++ stop :: after) (offset + max width 1)).previousKind =
        (before.drop offset)[max width 1 - 1]?.map Token.kind := by
      have place : offset + max width 1 - 1 = offset + (max width 1 - 1) := by omega
      have short : offset + (max width 1 - 1) < before.length := by omega
      rw [Cursor.previousKind, if_neg (by show ¬ offset + max width 1 = 0; omega), List.getElem?_drop, place,
        List.getElem?_append_left short]
    refine ⟨max width 1, some, ?_⟩
    rw [inside.synchronize_position ends, previous]
    show offset + max width 1 + _ = _
    rw [List.drop_drop, Nat.add_assoc]

end Places

/-- A list is read by what a cursor shows of it. -/
theorem parse_of_shows {tokens before : List Token} {stop : Token} (shows : (Cursor.start tokens).Shows before stop)
    (unended : ∀ token ∈ before, token.kind ≠ .eof) (ends : stop.kind = .eof) :
    parseProgram tokens = parseProgram (before ++ [stop]) ∧
      parseExpression tokens = parseExpression (before ++ [stop]) := by
  have fed : ∀ token ∈ (Feed.ofTokens tokens).tokens, token.kind ≠ .eof := by
    intro token member isEnd
    have kept := List.all_eq_true.mp List.all_takeWhile token member
    rw [Token.isEof_iff.mpr isEnd] at kept
    cases kept
  obtain ⟨same, marked⟩ := shows.unique (.start tokens) unended fed ends
  have feed : Feed.ofTokens tokens = Feed.ofTokens (before ++ [stop]) := by
    rw [Feed.ofTokens_append unended ends, same, marked]
  rw [parseProgram, parseProgram, parseExpression, parseExpression, feed]
  exact ⟨rfl, rfl⟩

/-- Reading ends at the first end marker, and what follows the marker makes no difference, because no cursor
shows it. Each declaration that is started takes a token, also one that is given up, so that no loop over
declarations has more rounds than there are tokens. -/
theorem reading_stops_at_first_end {before : List Token} {stop : Token}
    (unended : ∀ token ∈ before, token.kind ≠ .eof) (ends : stop.kind = .eof) (after : List Token) :
    (∀ offset pending first rest, Reaches stop (.program before) offset (.declaration pending first rest) →
      let read := Stmt.readOne stop pending first rest
      before[offset]? = some first ∧ first.kind ≠ .eof ∧ offset < offset + read.width ∧
        (read.statements = [] → ∃ taken, 0 < taken ∧
          (Cursor.mk (before ++ stop :: after) (offset + taken)).synchronize.position = offset + read.width)) ∧
    (∀ offset call, Reaches stop (.program before) offset call → offset + call.width stop ≤ before.length ∧
      (Cursor.mk (before ++ stop :: after) offset).Shows call.tokens stop ∧
      Cursor.advance^[call.width stop] ⟨before ++ stop :: after, offset⟩ =
        ⟨before ++ stop :: after, offset + call.width stop⟩) ∧
    (Expr.read stop before).width ≤ before.length ∧
    (∀ cursor : Cursor, cursor.Inside before stop after →
      cursor.advance.position = min (cursor.position + 1) before.length ∧
        cursor.advance.Inside before stop after ∧ cursor.synchronize.Inside before stop after) ∧
    (∃ batches, Rounds stop (fun _ => False) false before batches [] ∧ batches.length ≤ before.length ∧
      parseProgram (before ++ stop :: after) = ⟨(Batch.all batches).statements, (Batch.all batches).errors⟩ ∧
      (Batch.all batches).statements.length ≤ batches.length) ∧
    (∀ pending tokens, ∃ batches last, Rounds stop (·.kind = .rightBrace) pending tokens batches last ∧
      batches.length + last.length ≤ tokens.length ∧ (∀ next ∈ last.head?, next.kind = .rightBrace) ∧
      Stmt.readBlock stop pending tokens = Batch.all batches) ∧
    ((Cursor.start (before ++ stop :: after)).Shows before stop ∧
      ∀ tokens, (Cursor.start tokens).Shows before stop →
        parseProgram tokens = parseProgram (before ++ [stop]) ∧
          parseExpression tokens = parseExpression (before ++ [stop])) ∧
    parseProgram (before ++ stop :: after) = parseProgram (before ++ [stop]) ∧
    parseExpression (before ++ stop :: after) = parseExpression (before ++ [stop]) := by
  have start : (Cursor.start (before ++ stop :: after)).Inside before stop after := ⟨rfl, Nat.zero_le _⟩
  have shows : (Cursor.start (before ++ stop :: after)).Shows before stop := start.shows unended ends
  refine ⟨fun offset pending first rest reaches => ?_,
    fun offset call reaches => ⟨reaches.width_le ends, reaches.shown ends unended after⟩, ?_, fun cursor inside => ?_, ?_,
    fun pending tokens => ?_, ⟨shows, fun tokens same => parse_of_shows same unended ends⟩,
    parse_of_shows shows unended ends⟩
  · obtain ⟨moves, _⟩ := Stmt.readOne_progress stop pending first rest
    obtain ⟨_, found⟩ := reaches.declaration_place ends
    exact ⟨found, unended first (List.mem_of_getElem? found), Nat.lt_add_of_pos_right moves,
      fun dropped => reaches.given_up ends dropped after⟩
  · exact ((Expr.read_placed_each stop).1 before).inside
  · exact ⟨congrArg Cursor.position (inside.advance_eq unended ends), inside.moves unended ends⟩
  · obtain ⟨batches, last, rounds⟩ := Rounds.terminate stop (fun _ => False) false before
    have whole : last = [] := by
      cases last with
      | nil => rfl
      | cons next others => exact (rounds.last_closes next rfl).elim
    subst whole
    exact ⟨batches, rounds, rounds.count_le, by rw [parseProgram_before unended ends, rounds.readAll rfl],
      rounds.statements_le⟩
  · obtain ⟨batches, last, rounds⟩ := Rounds.terminate stop (·.kind = .rightBrace) pending tokens
    exact ⟨batches, last, rounds, rounds.count_le, rounds.last_closes, rounds.readBlock⟩

/-- Two reserved words that start no statement, one in a block and one behind it. The first is given up
where the second stands, and the end of the block with it. Behind the end marker there is more. -/
theorem reading_stops_at_first_end_of_reserved_words :
    let opening : Token := .simple .leftBrace "\x7b" 1
    let reserved : Token := .simple .kwClass "class" 1
    let closing : Token := .simple .rightBrace "\x7d" 1
    let other : Token := .simple .kwReturn "return" 1
    let stop : Token := .endOfFile 1
    let before := [opening, reserved, closing, other]
    let after := [closing, .simple .semicolon ";" 2, .endOfFile 2]
    let read := Stmt.readOne stop false reserved [closing, other]
    (∀ token ∈ before, token.kind ≠ .eof) ∧ stop.kind = .eof ∧
      Reaches stop (.program before) 1 (.declaration false reserved [closing, other]) ∧
      reserved.kind ≠ .eof ∧ 1 < 1 + read.width ∧ read.statements = [] ∧
      (∃ taken, 0 < taken ∧
        (Cursor.mk (before ++ stop :: after) (1 + taken)).synchronize.position = 1 + read.width) ∧
      1 + read.width ≤ before.length ∧
      (Cursor.mk (before ++ stop :: after) 1).Shows [reserved, closing, other] stop ∧
      (Cursor.start (before ++ stop :: after)).Inside before stop after ∧
      (Cursor.start (before ++ stop :: after)).advance.Inside before stop after ∧
      (∃ batches, Rounds stop (fun _ => False) false before batches [] ∧ batches.length ≤ 4) ∧
      parseProgram (before ++ stop :: after) = parseProgram (before ++ [stop]) := by
  intro opening reserved closing other stop before after read
  have unended : ∀ token ∈ before, token.kind ≠ .eof := by decide
  have ends : stop.kind = .eof := rfl
  have opens : opening.kind = .leftBrace := rfl
  have entry : Reaches stop (.program before) 0 (.declaration false opening [reserved, closing, other]) :=
    .further .here .programFirst
  have block : Reaches stop (.program before) 1 (.body false [reserved, closing, other]) :=
    (entry.further (.statement (by decide))).further (.body opens)
  have reaches : Reaches stop (.program before) 1 (.declaration false reserved [closing, other]) :=
    block.further (.bodyFirst (by decide))
  have dropped : read.statements = [] := by decide +kernel
  have start : (Cursor.start (before ++ stop :: after)).Inside before stop after := ⟨rfl, Nat.zero_le _⟩
  obtain ⟨progress, taken, _, moves, ⟨batches, rounds, few, _⟩, _, _, same, _⟩ :=
    reading_stops_at_first_end unended ends after
  obtain ⟨_, going, forward, givenUp⟩ := progress 1 false reserved _ reaches
  obtain ⟨bounded, shown, _⟩ := taken 1 _ reaches
  exact ⟨unended, ends, reaches, going, forward, dropped, givenUp dropped, bounded, shown, start,
    (moves _ start).2.1, ⟨batches, rounds, few⟩, same⟩

end Lox
