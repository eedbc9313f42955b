import Lox.Proofs.MissingSemicolons

/-! Reading up to a missing semicolon. An unclosed declaration fails right behind its tokens, and
bodies that are read with errors leave the statements around them as they are. -/

namespace Lox
open Grammar Reading

namespace Reading
variable {α β : Type} {reading : Reading α} {width : Nat}

/-- The reading ends with an error behind some tokens, and has noticed nothing before. -/
def FailsAt (width : Nat) (reading : Reading α) : Prop := ∃ error, reading = ⟨.error error, width, none⟩

private theorem FailsAt.map (fails : reading.FailsAt width) (change : α → β) : (reading.map change).FailsAt width := by
  obtain ⟨error, rfl⟩ := fails
  exact ⟨error, rfl⟩

private theorem FailsAt.afterToken (fails : reading.FailsAt width) : reading.afterToken.FailsAt (width + 1) := by
  obtain ⟨error, rfl⟩ := fails
  exact ⟨error, rfl⟩

private theorem expect_fails {stop : Token} {kind : Kind} {fault : SyntaxFault} {tokens : List Token} (atEnd : stop.kind ≠ kind)
    (absent : ∀ next ∈ tokens.head?, next.kind ≠ kind) : (expect stop kind fault tokens).FailsAt 0 := by
  cases tokens with
  | nil =>
    rw [expect, if_neg atEnd]
    exact ⟨_, rfl⟩
  | cons next rest =>
    rw [expect, if_neg (absent next rfl)]
    exact ⟨_, rfl⟩

/-- What was read cleanly is not closed by another token. -/
private theorem closedBy_fails {stop : Token} {kind : Kind} {fault : SyntaxFault} {tokens rest : List Token} {value : α}
    (follow : tokens.drop width = rest) (atEnd : stop.kind ≠ kind) (absent : ∀ next ∈ rest.head?, next.kind ≠ kind) :
    ((done value width).closedBy stop kind fault tokens).FailsAt width := by
  have fails : (expect stop kind fault rest).FailsAt 0 := expect_fails atEnd absent
  obtain ⟨error, same⟩ := fails
  rw [closedBy, done_andThen, done_width, follow, same]
  exact ⟨error, rfl⟩

end Reading

namespace Passage
variable {α β : Type} {passage : Passage α} {width more limit others : Nat}

def FailsAt (width : Nat) (passage : Passage α) : Prop := ∃ error, passage = ⟨.error error, width, [], false⟩

theorem FailsAt.ofReading {reading : Reading α} (fails : reading.FailsAt width) :
    (ofReading false reading).FailsAt width := by
  obtain ⟨error, rfl⟩ := fails
  exact ⟨error, rfl⟩

private theorem FailsAt.map (fails : passage.FailsAt width) (change : α → β) : (passage.map change).FailsAt width := by
  obtain ⟨error, rfl⟩ := fails
  exact ⟨error, rfl⟩

private theorem FailsAt.afterToken (fails : passage.FailsAt width) : passage.afterToken.FailsAt (width + 1) := by
  obtain ⟨error, rfl⟩ := fails
  exact ⟨error, rfl⟩

private theorem FailsAt.after (fails : passage.FailsAt width) (count : Nat) :
    (passage.after count).FailsAt (count + width) := by
  obtain ⟨error, rfl⟩ := fails
  exact ⟨error, rfl⟩

theorem FailsAt.andThen (fails : passage.FailsAt width) (next : α → Bool → Passage β) :
    (passage.andThen next).FailsAt width := by
  obtain ⟨error, rfl⟩ := fails
  exact ⟨error, rfl⟩

/-- The passage has a result after some tokens, with no more errors than a limit, and none is pending. -/
def Yields (width limit : Nat) (passage : Passage α) : Prop :=
  ∃ value errors, passage = ⟨.ok value, width, errors, false⟩ ∧ errors.length ≤ limit

theorem Yields.done (value : α) (width : Nat) : (done value width).Yields width 0 := ⟨value, [], rfl, Nat.le_refl 0⟩

theorem Yields.map (yields : passage.Yields width limit) (change : α → β) :
    (passage.map change).Yields width limit := by
  obtain ⟨value, errors, rfl, few⟩ := yields
  exact ⟨change value, errors, rfl, few⟩

private theorem Yields.afterToken (yields : passage.Yields width limit) : passage.afterToken.Yields (width + 1) limit := by
  obtain ⟨value, errors, rfl, few⟩ := yields
  exact ⟨value, errors, rfl, few⟩

private theorem Yields.after (yields : passage.Yields width limit) (count : Nat) :
    (passage.after count).Yields (count + width) limit := by
  obtain ⟨value, errors, rfl, few⟩ := yields
  exact ⟨value, errors, rfl, few⟩

theorem Yields.width_eq (yields : passage.Yields width limit) : passage.width = width := by
  obtain ⟨value, errors, rfl, _⟩ := yields
  rfl

/-- One passage after another: their widths and their limits add up. -/
theorem Yields.andThen {next : α → Bool → Passage β} (yields : passage.Yields width limit)
    (further : ∀ value, (next value false).Yields more others) :
    (passage.andThen next).Yields (width + more) (limit + others) := by
  obtain ⟨value, errors, rfl, few⟩ := yields
  obtain ⟨last, rest, same, fewer⟩ := further value
  refine ⟨last, errors ++ rest, ?_, ?_⟩
  · simp only [Passage.andThen, same]
  · rw [List.length_append]
    omega

end Passage

/-- A declaration that fails is given up, and its error reported. -/
private theorem Batch.ofPassage_fails {passage : Passage Stmt} {width : Nat} (fails : passage.FailsAt width)
    (tokens : List Token) : ∃ error, ofPassage tokens passage = ⟨[], Boundary.skip tokens width, [error]⟩ := by
  obtain ⟨error, rfl⟩ := fails
  exact ⟨error, rfl⟩

/-- A declaration that has a result is read, whatever it reports. -/
theorem Batch.ofPassage_yields {passage : Passage Stmt} {width limit : Nat} (yields : passage.Yields width limit)
    (tokens : List Token) :
    ∃ tree errors, ofPassage tokens passage = ⟨[tree], width, errors⟩ ∧ errors.length ≤ limit := by
  obtain ⟨tree, errors, rfl, few⟩ := yields
  exact ⟨tree, errors, rfl, few⟩

namespace Grammar

theorem header_append (keyword first last : Token) (tokens after rest : List Token) :
    keyword :: first :: (tokens ++ last :: after) ++ rest =
      keyword :: first :: (tokens ++ last :: (after ++ rest)) := by
  simp only [List.cons_append, List.append_assoc]

private theorem header_length (keyword first last : Token) (tokens after : List Token) :
    (keyword :: first :: (tokens ++ last :: after)).length = tokens.length + 3 + after.length := by
  simp only [List.length_cons, List.length_append]
  omega

variable {stop : Token} (atEnd : stop.kind = .eof)

section Fails
variable {valued : Bool} {tokens rest : List Token} {value : Expr}
include atEnd

private theorem readClosed_fails {fault : SyntaxFault} (derives : Expression tokens value) (closes : Closes rest)
    (absent : ∀ next ∈ rest.head?, next.kind ≠ .semicolon) :
    (Stmt.readClosed stop fault (tokens ++ rest)).FailsAt tokens.length := by
  rw [Stmt.readClosed, derives.complete _ closes]
  exact closedBy_fails List.drop_left (kind_apart atEnd (by decide)) absent

/-- Where no semicolon follows, an unclosed statement fails right behind its tokens. -/
theorem Unclosed.fails (unclosed : Unclosed valued tokens) (closes : valued = true → Closes rest)
    (absent : ∀ next ∈ rest.head?, next.kind ≠ .semicolon) :
    (Stmt.read stop false (tokens ++ rest)).FailsAt tokens.length := by
  induction unclosed with
  | expression derives =>
    obtain ⟨first, more, rfl, member⟩ := derives.starts
    rw [List.cons_append, read_of_expression _ member, ← List.cons_append]
    exact .ofReading ((readClosed_fails atEnd derives (closes rfl) absent).map _)
  | print isPrint derives =>
    simp only [List.cons_append, Stmt.read, isPrint]
    exact .ofReading ((readClosed_fails atEnd derives (closes rfl) absent).map _).afterToken
  | breakLoop isBreak =>
    simp only [List.cons_append, List.nil_append, Stmt.read, isBreak]
    exact .ofReading ((expect_fails (kind_apart atEnd (by decide)) absent).map _).afterToken
  | ifThen isIf opens test shuts consequence ih =>
    rw [header_append, header_length, read_if_eq isIf opens test shuts]
    exact ((ih closes).andThen _).after _
  | ifElse isIf opens test shuts consequence complete isElse alternative ih =>
    have inner others := @Statement.read_done stop _ _ consequence others (settled_of_complete complete others)
    rw [header_append, header_length, List.append_assoc, List.cons_append, List.length_append, List.length_cons,
      read_ifElse_eq isIf opens test shuts (inner _) List.drop_left isElse]
    exact (((ih closes).map _).afterToken.after _).after _
  | whileLoop isWhile opens test shuts body ih =>
    rw [header_append, header_length, read_while_eq isWhile opens test shuts]
    exact ((ih closes).map _).after _

private theorem readDeclaration_fails {name : Token} (isName : name.kind = .identifier)
    (absent : ∀ next ∈ rest.head?, next.kind ≠ .semicolon ∧ next.kind ≠ .equal) :
    (Stmt.readDeclaration stop (name :: rest)).FailsAt 1 := by
  have noSemicolon : ∀ next ∈ rest.head?, next.kind ≠ .semicolon := fun next member => (absent next member).1
  have unclosed : ((done none 0 : Reading (Option Expr)).closedBy stop .semicolon .openDeclaration rest).FailsAt 0 :=
    closedBy_fails rfl (kind_apart atEnd (by decide)) noSemicolon
  simp only [Stmt.readDeclaration, if_pos isName]
  cases rest with
  | nil => exact (unclosed.map _).afterToken
  | cons next rest =>
    simp only [if_neg (absent next rfl).2]
    exact (unclosed.map _).afterToken

private theorem readDeclaration_fails_value {name equals : Token} (isName : name.kind = .identifier)
    (isEqual : equals.kind = .equal) (derives : Expression tokens value) (closes : Closes rest)
    (absent : ∀ next ∈ rest.head?, next.kind ≠ .semicolon) :
    (Stmt.readDeclaration stop (name :: equals :: (tokens ++ rest))).FailsAt (tokens.length + 2) := by
  have unclosed : ((done (some value) (tokens.length + 1)).closedBy stop .semicolon .openDeclaration
      (equals :: (tokens ++ rest))).FailsAt (tokens.length + 1) :=
    closedBy_fails List.drop_left (kind_apart atEnd (by decide)) absent
  simp only [Stmt.readDeclaration, if_pos isName, if_pos isEqual, derives.complete _ closes]
  exact (unclosed.map _).afterToken

/-- Before another declaration, an unclosed one is given up with an error right behind its tokens. -/
theorem UnclosedDeclaration.fails {first : Token} (unclosed : UnclosedDeclaration valued (first :: tokens))
    (closes : valued = true → Closes rest)
    (absent : ∀ next ∈ rest.head?, next.kind ≠ .semicolon ∧ next.kind ≠ .equal) :
    ∃ error, Stmt.readOne stop false first (tokens ++ rest) =
      ⟨[], Boundary.skip (first :: tokens ++ rest) (first :: tokens).length, [error]⟩ := by
  have noSemicolon : ∀ next ∈ rest.head?, next.kind ≠ .semicolon := fun next member => (absent next member).1
  rw [Stmt.readOne]
  apply Batch.ofPassage_fails
  generalize same : first :: tokens = all at unclosed
  cases unclosed with
  | declare isVar isName =>
    cases same
    rw [if_pos isVar]
    exact .ofReading (readDeclaration_fails atEnd isName absent).afterToken
  | withValue isVar isName isEqual derives =>
    cases same
    rw [if_pos isVar]
    exact .ofReading (readDeclaration_fails_value atEnd isName isEqual derives (closes rfl) noSemicolon).afterToken
  | statement inner =>
    have apart : ∀ kind ∈ statementStarters, kind ≠ .kwVar := by decide
    have fails := inner.fails atEnd closes noSemicolon
    obtain ⟨next, more, rfl, member⟩ := inner.starts
    cases same
    rw [if_neg (apart _ member)]
    exact fails

end Fails

section Yields
variable {keyword first middle last : Token} {tokens chosen other rest : List Token} {condition : Expr}
  {limit more : Nat}

theorem read_while_yields (isWhile : keyword.kind = .kwWhile) (opens : first.kind = .leftParen)
    (test : Expression tokens condition) (closes : last.kind = .rightParen)
    (body : (Stmt.read stop false (chosen ++ rest)).Yields chosen.length limit) :
    (Stmt.read stop false (keyword :: first :: (tokens ++ last :: chosen) ++ rest)).Yields
      (keyword :: first :: (tokens ++ last :: chosen)).length limit := by
  rw [header_append, header_length, read_while_eq isWhile opens test closes]
  exact (body.map _).after _

theorem read_if_yields (isIf : keyword.kind = .kwIf) (opens : first.kind = .leftParen)
    (test : Expression tokens condition) (closes : last.kind = .rightParen)
    (consequence : (Stmt.read stop false (chosen ++ rest)).Yields chosen.length limit)
    (alone : ∀ next ∈ rest.head?, next.kind ≠ .kwElse) :
    (Stmt.read stop false (keyword :: first :: (tokens ++ last :: chosen) ++ rest)).Yields
      (keyword :: first :: (tokens ++ last :: chosen)).length limit := by
  rw [header_append, header_length, read_if_eq isIf opens test closes, consequence.width_eq,
    List.drop_left]
  have branch : ∀ value, (elseBranch stop condition rest value false).Yields 0 0 := by
    intro value
    rw [elseBranch_alone condition value alone]
    exact .done _ 0
  exact (consequence.andThen branch).after _

theorem read_ifElse_yields (isIf : keyword.kind = .kwIf) (opens : first.kind = .leftParen)
    (test : Expression tokens condition) (closes : last.kind = .rightParen)
    (consequence : (Stmt.read stop false (chosen ++ middle :: (other ++ rest))).Yields chosen.length limit)
    (isElse : middle.kind = .kwElse) (alternative : (Stmt.read stop false (other ++ rest)).Yields other.length more) :
    (Stmt.read stop false (keyword :: first :: (tokens ++ last :: (chosen ++ middle :: other)) ++ rest)).Yields
      (keyword :: first :: (tokens ++ last :: (chosen ++ middle :: other))).length (limit + more) := by
  rw [header_append, header_length, List.append_assoc, List.cons_append,
    read_if_eq isIf opens test closes, consequence.width_eq, List.drop_left, List.length_append, List.length_cons]
  have branch : ∀ value, (elseBranch stop condition (middle :: (other ++ rest)) value false).Yields
      (other.length + 1) more := by
    intro value
    rw [elseBranch, if_pos isElse]
    exact (alternative.map _).afterToken
  exact (consequence.andThen branch).after _

end Yields

theorem Statement.read_yields {tokens rest : List Token} {tree : Stmt} (statement : Statement tokens tree)
    (settled : Settled tree rest) : (Stmt.read stop false (tokens ++ rest)).Yields tokens.length 0 := by
  rw [statement.read_done settled]
  exact .done tree _

end Grammar

end Lox
