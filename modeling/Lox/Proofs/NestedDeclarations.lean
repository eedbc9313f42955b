import Lox.Proofs.DeclarationPlaces

/-! Declarations inside declarations. A declaration that is given up is reported at a
token of its own, unless the statement around it has an error in its header: that
error is still pending when the first declaration of a block starts, and then the
block may lose this declaration without a word. -/

namespace Lox

/-- What is read on the way, from where to the end of the source. -/
inductive Call where
  | program (tokens : List Token)
  | declaration (pending : Bool) (first : Token) (rest : List Token)
  | statement (pending : Bool) (tokens : List Token)
  | body (pending : Bool) (tokens : List Token)

namespace Call

def tokens : Call → List Token
  | program tokens | statement _ tokens | body _ tokens => tokens
  | declaration _ first rest => first :: rest

def pending : Call → Bool
  | program _ => false
  | declaration pending _ _ | statement pending _ | body pending _ => pending

def errors (stop : Token) : Call → List SyntaxError
  | program tokens => (Stmt.readAll stop tokens).errors
  | declaration pending first rest => (Stmt.readOne stop pending first rest).errors
  | statement pending tokens => (Stmt.read stop pending tokens).errors
  | body pending tokens => (Stmt.readBlock stop pending tokens).errors

end Call

/-- One call makes another, some tokens further on. An error that is noticed in the header of an `if`
or a `while` is pending in what follows the header, until a declaration in it is over. -/
inductive Makes (stop : Token) : Call → Nat → Call → Prop where
  | programFirst : Makes stop (.program (first :: rest)) 0 (.declaration false first rest)
  | programNext (head : Stmt.readOne stop false first rest = batch) :
      Makes stop (.program (first :: rest)) batch.width (.program ((first :: rest).drop batch.width))
  | statement (notVar : first.kind ≠ .kwVar) :
      Makes stop (.declaration pending first rest) 0 (.statement pending (first :: rest))
  | body (opens : first.kind = .leftBrace) : Makes stop (.statement pending (first :: rest)) 1 (.body pending rest)
  | bodyFirst (more : first.kind ≠ .rightBrace) :
      Makes stop (.body pending (first :: rest)) 0 (.declaration pending first rest)
  | bodyNext (more : first.kind ≠ .rightBrace) (head : Stmt.readOne stop pending first rest = batch) :
      Makes stop (.body pending (first :: rest)) batch.width (.body false ((first :: rest).drop batch.width))
  | consequence (isIf : keyword.kind = .kwIf)
      (tests : Stmt.readCondition stop .noIfCondition .openIfCondition rest = ⟨.ok test, width, note⟩) :
      Makes stop (.statement pending (keyword :: rest)) (width + 1)
        (.statement (pending || note.isSome) (rest.drop width))
  | alternative (isIf : keyword.kind = .kwIf)
      (tests : Stmt.readCondition stop .noIfCondition .openIfCondition rest = ⟨.ok test, width, note⟩)
      (chooses : Stmt.read stop (pending || note.isSome) (rest.drop width) = ⟨.ok chosen, more, errors, settled⟩)
      (follow : (rest.drop width).drop more = middle :: other) (isElse : middle.kind = .kwElse) :
      Makes stop (.statement pending (keyword :: rest)) (width + 1 + (more + 1)) (.statement settled other)
  | round (isWhile : keyword.kind = .kwWhile)
      (tests : Stmt.readCondition stop .noWhileCondition .openWhileCondition rest = ⟨.ok test, width, note⟩) :
      Makes stop (.statement pending (keyword :: rest)) (width + 1)
        (.statement (pending || note.isSome) (rest.drop width))

inductive Reaches (stop : Token) (caller : Call) : Nat → Call → Prop where
  | here : Reaches stop caller 0 caller
  | further (reaches : Reaches stop caller offset call) (makes : Makes stop call more callee) :
      Reaches stop caller (offset + more) callee

/-- While an error is pending, only the first declaration of a block starts. -/
private theorem Reaches.block_of_pending {stop first : Token} {tokens rest : List Token} {offset : Nat}
    (reaches : Reaches stop (.program tokens) offset (.declaration true first rest)) :
    Reaches stop (.program tokens) offset (.body true (first :: rest)) := by
  cases reaches with
  | further reaches makes =>
    cases makes with
    | bodyFirst more => exact reaches

/-- The callee reads what is left some tokens further on, and reports part of what the caller reports.
An error that is pending in it was pending before, or is one that the caller has reported first. -/
structure Within (stop : Token) (caller : Call) (offset : Nat) (callee : Call) : Prop where
  remains : callee.tokens = caller.tokens.drop offset
  inside : offset ≤ caller.tokens.length
  reports : ∃ earlier later, caller.errors stop = earlier ++ callee.errors stop ++ later ∧
    (callee.pending = true → caller.pending = true ∨ earlier ≠ [])

namespace Within
variable {stop : Token} {caller call callee : Call} {offset more : Nat}

theorem refl (stop : Token) (call : Call) : Within stop call 0 call := by
  refine ⟨rfl, Nat.zero_le _, [], [], ?_, Or.inl⟩
  rw [List.nil_append, List.append_nil]

theorem trans (outer : Within stop caller offset call) (inner : Within stop call more callee) :
    Within stop caller (offset + more) callee := by
  obtain ⟨remains, inside, earlier, later, whole, known⟩ := outer
  obtain ⟨remainsInner, insideInner, before, after, part, knownInner⟩ := inner
  refine ⟨?_, ?_, earlier ++ before, after ++ later, ?_, ?_⟩
  · rw [remainsInner, remains, List.drop_drop]
  · rw [remains, List.length_drop] at insideInner
    omega
  · rw [whole, part]
    simp only [List.append_assoc]
  · intro pending
    rcases knownInner pending with pending | reported
    · rcases known pending with pending | reported
      · exact .inl pending
      · exact .inr fun none => reported (List.append_eq_nil_iff.mp none).1
    · exact .inr fun none => reported (List.append_eq_nil_iff.mp none).2

end Within

/-- A reading has a result exactly when its parts say so. -/
private theorem Reading.eq_ok_iff {α : Type} {reading : Reading α} {value : α} {width : Nat} {note : Option SyntaxError} :
    reading = ⟨.ok value, width, note⟩ ↔
      reading.result.toOption = some value ∧ reading.width = width ∧ reading.note = note := by
  obtain ⟨result, taken, noticed⟩ := reading
  cases result with
  | error error => exact iff_of_false nofun nofun
  | ok other =>
    simp only [Reading.mk.injEq, Except.ok.injEq, Except.toOption, Option.some.injEq]

/-- The errors of a passage come first in any that goes on after it. -/
private theorem Passage.andThen_errors {α β : Type} (first : Passage α) (next : α → Bool → Passage β) :
    ∃ later, (first.andThen next).errors = first.errors ++ later := by
  obtain ⟨result, width, errors, pending⟩ := first
  cases result with
  | error error => exact ⟨[], (List.append_nil errors).symm⟩
  | ok value => exact ⟨_, rfl⟩

/-- The errors of a passage come first in those of the declaration that it is. -/
private theorem Batch.ofPassage_errors (tokens : List Token) (passage : Passage Stmt) :
    ∃ later, (ofPassage tokens passage).errors = passage.errors ++ later := by
  obtain ⟨result, width, errors, pending⟩ := passage
  cases result with
  | error error => exact ⟨_, rfl⟩
  | ok statement => exact ⟨[], (List.append_nil errors).symm⟩

namespace Within
variable {stop first keyword middle : Token} {rest other : List Token} {pending settled : Bool} {batch : Batch}
  {test : Expr} {chosen : Stmt} {width more : Nat} {note : Option SyntaxError} {errors : List SyntaxError}

private theorem programFirst : Within stop (.program (first :: rest)) 0 (.declaration false first rest) := by
  have whole : (Call.program (first :: rest)).errors stop = (Stmt.readOne stop false first rest).errors ++
      (Stmt.readAll stop (rest.drop ((Stmt.readOne stop false first rest).width - 1))).errors := by
    simp only [Call.errors, Stmt.readAll]
    rfl
  exact ⟨rfl, Nat.zero_le _, [], _, whole, fun never => absurd never Bool.false_ne_true⟩

private theorem programNext (head : Stmt.readOne stop false first rest = batch) :
    Within stop (.program (first :: rest)) batch.width (.program ((first :: rest).drop batch.width)) := by
  obtain ⟨splits, inside⟩ := Stmt.readOne_splits stop head
  refine ⟨rfl, inside, batch.errors, [], ?_, fun never => absurd never Bool.false_ne_true⟩
  simp only [Call.errors, Stmt.readAll, head, splits, List.append_nil]
  rfl

private theorem statement (notVar : first.kind ≠ .kwVar) :
    Within stop (.declaration pending first rest) 0 (.statement pending (first :: rest)) := by
  obtain ⟨later, same⟩ := Batch.ofPassage_errors (first :: rest) (Stmt.read stop pending (first :: rest))
  refine ⟨rfl, Nat.zero_le _, [], later, ?_, Or.inl⟩
  rw [Call.errors, Stmt.readOne, if_neg notVar, same]
  rfl

private theorem body (opens : first.kind = .leftBrace) :
    Within stop (.statement pending (first :: rest)) 1 (.body pending rest) := by
  obtain ⟨later, same⟩ : ∃ later, (Call.statement pending (first :: rest)).errors stop =
      (Stmt.readBlock stop pending rest).errors ++ later := by
    simp only [Call.errors, Stmt.read, opens]
    exact ⟨_, rfl⟩
  exact ⟨rfl, Nat.succ_le_succ (Nat.zero_le _), [], later, same, Or.inl⟩

private theorem bodyFirst (more : first.kind ≠ .rightBrace) :
    Within stop (.body pending (first :: rest)) 0 (.declaration pending first rest) := by
  obtain ⟨later, same⟩ : ∃ later, (Call.body pending (first :: rest)).errors stop =
      (Stmt.readOne stop pending first rest).errors ++ later := by
    rw [Call.errors, Stmt.readBlock, if_neg more]
    exact ⟨_, rfl⟩
  exact ⟨rfl, Nat.zero_le _, [], later, same, Or.inl⟩

private theorem bodyNext (more : first.kind ≠ .rightBrace) (head : Stmt.readOne stop pending first rest = batch) :
    Within stop (.body pending (first :: rest)) batch.width (.body false ((first :: rest).drop batch.width)) := by
  obtain ⟨splits, inside⟩ := Stmt.readOne_splits stop head
  refine ⟨rfl, inside, batch.errors, [], ?_, fun never => absurd never Bool.false_ne_true⟩
  rw [Call.errors, Stmt.readBlock, if_neg more]
  simp only [head, splits, List.append_nil]
  rfl

/-- What is noticed in a header is reported, unless an error is pending. -/
private theorem header_reports (pending : Bool) (note : Option SyntaxError) (known : (pending || note.isSome) = true) :
    pending = true ∨ (if pending then [] else note.toList) ≠ [] := by
  cases pending with
  | true => exact .inl rfl
  | false =>
    cases note with
    | none => cases known
    | some error => exact .inr (List.cons_ne_nil _ _)

/-- A header is read inside its tokens, however much it takes. -/
private theorem header_inside {unopened unclosed : SyntaxFault} {reading : Reading Expr} (keyword : Token)
    (tests : Stmt.readCondition stop unopened unclosed rest = reading) :
    reading.width + 1 ≤ (keyword :: rest).length := by
  have placed := Stmt.readCondition_placed stop unopened unclosed rest
  rw [tests] at placed
  exact Nat.succ_le_succ placed.inside

private theorem consequence (isIf : keyword.kind = .kwIf)
    (tests : Stmt.readCondition stop .noIfCondition .openIfCondition rest = ⟨.ok test, width, note⟩) :
    Within stop (.statement pending (keyword :: rest)) (width + 1)
      (.statement (pending || note.isSome) (rest.drop width)) := by
  obtain ⟨later, same⟩ : ∃ later, (Call.statement pending (keyword :: rest)).errors stop =
      (if pending then [] else note.toList) ++
        ((Stmt.read stop (pending || note.isSome) (rest.drop width)).errors ++ later) := by
    simp only [Call.errors, Stmt.read, isIf, tests, Reading.afterToken, Passage.ofReading]
    obtain ⟨later, same⟩ := Passage.andThen_errors (Stmt.read stop (pending || note.isSome) (rest.drop width)) _
    exact ⟨later, congrArg _ same⟩
  rw [← List.append_assoc] at same
  exact ⟨rfl, header_inside keyword tests, _, later, same, header_reports pending note⟩

private theorem round (isWhile : keyword.kind = .kwWhile)
    (tests : Stmt.readCondition stop .noWhileCondition .openWhileCondition rest = ⟨.ok test, width, note⟩) :
    Within stop (.statement pending (keyword :: rest)) (width + 1)
      (.statement (pending || note.isSome) (rest.drop width)) := by
  have same : (Call.statement pending (keyword :: rest)).errors stop =
      (if pending then [] else note.toList) ++ (Stmt.read stop (pending || note.isSome) (rest.drop width)).errors := by
    simp only [Call.errors, Stmt.read, isWhile, tests, Reading.afterToken, Passage.ofReading]
    rfl
  refine ⟨rfl, header_inside keyword tests, _, [], ?_, header_reports pending note⟩
  rw [List.append_nil, same]
  rfl

private theorem alternative (atEnd : stop.kind = .eof) (isIf : keyword.kind = .kwIf)
    (tests : Stmt.readCondition stop .noIfCondition .openIfCondition rest = ⟨.ok test, width, note⟩)
    (chooses : Stmt.read stop (pending || note.isSome) (rest.drop width) = ⟨.ok chosen, more, errors, settled⟩)
    (follow : (rest.drop width).drop more = middle :: other) (isElse : middle.kind = .kwElse) :
    Within stop (.statement pending (keyword :: rest)) (width + 1 + (more + 1)) (.statement settled other) := by
  rw [List.drop_drop] at follow
  have inside := congrArg List.length follow
  rw [List.length_drop, List.length_cons] at inside
  refine ⟨?_, ?_, (if pending then [] else note.toList) ++ errors, [], ?_, ?_⟩
  · show other = rest.drop (width + 1 + more)
    rw [Nat.add_right_comm, ← List.drop_drop, follow]
    rfl
  · show width + 1 + (more + 1) ≤ rest.length + 1
    omega
  · simp only [Call.errors, Stmt.read, isIf, tests, Reading.afterToken, Passage.ofReading, Passage.andThen, chooses]
    rw [List.append_nil, List.append_assoc]
    congr 2
    split
    next empty =>
      rw [tests, chooses, List.drop_drop, follow] at empty
      cases empty
    next found =>
      rw [tests, chooses, List.drop_drop, follow] at found
      cases found
      rw [if_pos isElse]
      rfl
  · intro stays
    by_cases header : (pending || note.isSome) = true
    · rcases header_reports pending note header with before | reported
      · exact .inl before
      · exact .inr fun none => reported (List.append_eq_nil_iff.mp none).1
    · rw [Bool.not_eq_true] at header
      have candid := ((Grammar.read_follows_each atEnd).1 _ (rest.drop width) header).candid
      rw [chooses] at candid
      right
      intro none
      have quiet : settled = false := candid (List.append_eq_nil_iff.mp none).2
      rw [quiet] at stays
      cases stays

end Within

section Calls
variable {stop : Token} (atEnd : stop.kind = .eof)
include atEnd

theorem Makes.within {caller callee : Call} {offset : Nat} (makes : Makes stop caller offset callee) :
    Within stop caller offset callee := by
  cases makes with
  | programFirst => exact .programFirst
  | programNext head => exact .programNext head
  | statement notVar => exact .statement notVar
  | body opens => exact .body opens
  | bodyFirst more => exact .bodyFirst more
  | bodyNext more head => exact .bodyNext more head
  | consequence isIf tests => exact .consequence isIf tests
  | alternative isIf tests chooses follow isElse => exact .alternative atEnd isIf tests chooses follow isElse
  | round isWhile tests => exact .round isWhile tests

theorem Reaches.within {caller callee : Call} {offset : Nat} (reaches : Reaches stop caller offset callee) :
    Within stop caller offset callee := by
  induction reaches with
  | here => exact .refl stop _
  | further reaches makes ih => exact ih.trans (makes.within atEnd)

/-- A declaration that starts afresh is not given up without reporting an error. -/
private theorem Stmt.readOne_reports {first : Token} {rest : List Token}
    (dropped : (readOne stop false first rest).statements = []) : (readOne stop false first rest).errors ≠ [] := by
  intro silent
  obtain ⟨tree, taken, after, same, _⟩ := (Grammar.read_follows_each atEnd).2.2 false first rest rfl silent
  rw [same] at dropped
  cases dropped

end Calls

/-- A declaration that is given up reports an error at its first token or later, unless it is the
first one of a block and an error of a statement around it has been reported before and is pending. -/
theorem dropped_declarations_report {tokens rest : List Token} {offset : Nat} {pending : Bool} {first : Token}
    (ended : Ended tokens)
    (reached : Reaches (Feed.ofTokens tokens).stop (.program (Feed.ofTokens tokens).tokens) offset
      (.declaration pending first rest))
    (dropped : (Stmt.readOne (Feed.ofTokens tokens).stop pending first rest).statements = []) :
    tokens[offset]? = some first ∧
      ∃ earlier own later, (Stmt.readOne (Feed.ofTokens tokens).stop pending first rest).errors = own ∧
        (parseProgram tokens).errors = earlier ++ own ++ later ∧
        (∃ last, Ascends tokens offset own last) ∧
        (own = [] → earlier ≠ [] ∧
          Reaches (Feed.ofTokens tokens).stop (.program (Feed.ofTokens tokens).tokens) offset
            (.body true (first :: rest))) := by
  obtain ⟨before, stop, after, rfl, isEnd, feed⟩ := ended.split
  rw [feed] at reached dropped ⊢
  obtain ⟨remains, inside, earlier, later, whole, known⟩ := reached.within isEnd
  have remains : first :: rest = before.drop offset := remains
  have inside : offset ≤ before.length := inside
  have parsed : (parseProgram (before ++ stop :: after)).errors = (Call.program before).errors stop := by
    simp only [parseProgram, feed]
    rfl
  refine ⟨?_, earlier, _, later, rfl, parsed.trans whole, ?_, ?_⟩
  · have found : (before.drop offset)[0]? = some first := congrArg (·[0]?) remains.symm
    rw [List.getElem?_drop, Nat.add_zero] at found
    rw [List.getElem?_append_left (List.getElem?_eq_some_iff.mp found).1]
    exact found
  · have placed := ((Stmt.read_placed_each stop).2.2 pending first rest).1.errors
    rw [remains, drop_append_stop inside] at placed
    have whole := placed.later.extend after
    rw [List.append_assoc] at whole
    exact ⟨_, whole.widen (Nat.le_refl _) (Nat.le_refl _)⟩
  · intro silent
    cases pending with
    | false => exact absurd silent (Stmt.readOne_reports isEnd dropped)
    | true =>
      rcases known rfl with before | reported
      · cases before
      · exact ⟨reported, reached.block_of_pending⟩

/-- In `if (nil = nil) { var; }` the declaration is given up and nothing is said about it, since the
assignment in the header has been reported and is pending when the block starts. -/
theorem silent_declaration_in_branch :
    let equals : Token := .simple .equal "=" 1
    let header : List Token := [.simple .kwIf "if" 1, .simple .leftParen "(" 1, .simple .kwNil "nil" 1, equals,
      .simple .kwNil "nil" 1, .simple .rightParen ")" 1]
    let keyword : Token := .simple .kwVar "var" 1
    let after : List Token := [.simple .semicolon ";" 1, .simple .rightBrace "\x7d" 1]
    let opening : Token := .simple .leftBrace "\x7b" 1
    let tokens := header ++ opening :: keyword :: after
    let stop : Token := .endOfFile 1
    Ended (tokens ++ [stop]) ∧ Reaches stop (.program tokens) 7 (.declaration true keyword after) ∧
      (Stmt.readOne stop true keyword after).statements = [] ∧ (Stmt.readOne stop true keyword after).errors = [] ∧
      (parseProgram (tokens ++ [stop])).errors = [⟨equals, .badAssignmentTarget⟩] := by
  intro equals header keyword after opening tokens stop
  have tests : Stmt.readCondition stop .noIfCondition .openIfCondition tokens.tail =
      ⟨.ok (.literal .nil), 5, some ⟨equals, .badAssignmentTarget⟩⟩ :=
    Reading.eq_ok_iff.mpr (by decide +kernel)
  have whole : Reaches stop (.program tokens) 0 (.statement false tokens) :=
    .further (.further .here .programFirst) (.statement (by decide))
  have branch : Reaches stop (.program tokens) 6 (.statement true (opening :: keyword :: after)) :=
    whole.further (.consequence rfl tests)
  have block : Reaches stop (.program tokens) 7 (.body true (keyword :: after)) := branch.further (.body rfl)
  have reached : Reaches stop (.program tokens) 7 (.declaration true keyword after) :=
    block.further (.bodyFirst (by decide))
  refine ⟨⟨stop, ?_, rfl⟩, reached, ?_, ?_, ?_⟩
  all_goals decide +kernel

/-- Without an error in the header, the declaration in a loop is reported at the token after `var`. -/
theorem dropped_declarations_report_in_loop :
    let header : List Token := [.simple .kwWhile "while" 1, .simple .leftParen "(" 1, .simple .kwNil "nil" 1,
      .simple .rightParen ")" 1]
    let keyword : Token := .simple .kwVar "var" 1
    let semicolon : Token := .simple .semicolon ";" 1
    let after : List Token := [semicolon, .simple .rightBrace "\x7d" 1]
    let opening : Token := .simple .leftBrace "\x7b" 1
    let tokens := header ++ opening :: keyword :: after
    let stop : Token := .endOfFile 1
    let whole := tokens ++ [stop]
    Ended whole ∧
      Reaches (Feed.ofTokens whole).stop (.program (Feed.ofTokens whole).tokens) 5 (.declaration false keyword after) ∧
      (Stmt.readOne (Feed.ofTokens whole).stop false keyword after).statements = [] ∧
      (parseProgram whole).errors = [⟨semicolon, .noVariableName⟩] ∧ whole[5]? = some keyword ∧
      ∃ earlier own later, (Stmt.readOne (Feed.ofTokens whole).stop false keyword after).errors = own ∧
        (parseProgram whole).errors = earlier ++ own ++ later ∧
        (∃ last, Ascends whole 5 own last) ∧
        (own = [] → earlier ≠ [] ∧
          Reaches (Feed.ofTokens whole).stop (.program (Feed.ofTokens whole).tokens) 5
            (.body true (keyword :: after))) := by
  intro header keyword semicolon after opening tokens stop whole
  have tests : Stmt.readCondition stop .noWhileCondition .openWhileCondition tokens.tail =
      ⟨.ok (.literal .nil), 3, none⟩ :=
    Reading.eq_ok_iff.mpr (by decide +kernel)
  have ended : Ended whole := ⟨stop, by decide, rfl⟩
  have all : Reaches stop (.program tokens) 0 (.statement false tokens) :=
    .further (.further .here .programFirst) (.statement (by decide))
  have round : Reaches stop (.program tokens) 4 (.statement false (opening :: keyword :: after)) :=
    all.further (.round rfl tests)
  have block : Reaches stop (.program tokens) 5 (.body false (keyword :: after)) := round.further (.body rfl)
  have reached : Reaches stop (.program tokens) 5 (.declaration false keyword after) :=
    block.further (.bodyFirst (by decide))
  have dropped : (Stmt.readOne stop false keyword after).statements = [] := by decide +kernel
  have errors : (parseProgram whole).errors = [⟨semicolon, .noVariableName⟩] := by decide +kernel
  have reports := dropped_declarations_report ended reached dropped
  exact ⟨ended, reached, dropped, errors, reports⟩

end Lox
