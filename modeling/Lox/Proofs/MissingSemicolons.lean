import Lox.Proofs.AppendedOperands
import Lox.Proofs.ClauseReading
import Lox.Proofs.LoneExpressions

/-! Programs with a semicolon missing. The gap stands behind a statement without a
body, so it is either at the end of a declaration or inside a block. -/

namespace Lox

/-- A token of another kind than those in front stands behind them. -/
private theorem split_behind {front others before after : List Token} {gap : Token} {kind : Kind}
    (split : front ++ others = before ++ gap :: after) (same : gap.kind = kind)
    (apart : ∀ token ∈ front, token.kind ≠ kind) :
    ∃ skipped, before = front ++ skipped ∧ others = skipped ++ gap :: after := by
  rcases List.append_eq_append_iff.mp split with ⟨skipped, whole, others⟩ | ⟨rest, whole, others⟩
  · exact ⟨skipped, whole, others⟩
  · cases rest with
    | nil =>
      rw [List.append_nil] at whole
      exact ⟨[], by rw [List.append_nil, whole], others.symm⟩
    | cons next rest =>
      cases others
      have inside : gap ∈ front := by
        rw [whole]
        exact List.mem_append_right _ List.mem_cons_self
      exact absurd same (apart gap inside)

/-- A token of two lists in a row stands in the first or in the second. -/
private theorem split_append {first second before after : List Token} {gap : Token}
    (split : first ++ second = before ++ gap :: after) :
    (∃ rest, first = before ++ gap :: rest ∧ after = rest ++ second) ∨
      ∃ skipped, before = first ++ skipped ∧ second = skipped ++ gap :: after := by
  rcases List.append_eq_append_iff.mp split with ⟨skipped, same, others⟩ | ⟨rest, same, others⟩
  · exact .inr ⟨skipped, same, others⟩
  · cases rest with
    | nil =>
      rw [List.append_nil] at same
      exact .inr ⟨[], by rw [List.append_nil, same], others.symm⟩
    | cons next rest =>
      cases others
      exact .inl ⟨rest, same, rfl⟩

theorem head_of_append {first second : List Token} {holds : Token → Prop}
    (each : ∀ next ∈ (first ++ second).head?, holds next) : ∀ next ∈ first.head?, holds next := by
  cases first with
  | nil => exact fun _ member => by cases member
  | cons next rest => exact each

namespace Grammar

/-- A statement without its last semicolon; the flag says whether an expression stands there. -/
inductive Unclosed : Bool → List Token → Prop where
  | expression (value : Expression tokens tree) : Unclosed true tokens
  | print (isPrint : keyword.kind = .kwPrint) (value : Expression tokens tree) : Unclosed true (keyword :: tokens)
  | ifThen (isIf : keyword.kind = .kwIf) (opens : first.kind = .leftParen) (test : Expression tokens condition)
      (closes : last.kind = .rightParen) (consequence : Unclosed valued chosen) :
      Unclosed valued (keyword :: first :: (tokens ++ last :: chosen))
  | ifElse (isIf : keyword.kind = .kwIf) (opens : first.kind = .leftParen) (test : Expression tokens condition)
      (closes : last.kind = .rightParen) (consequence : Statement chosen tree)
      (complete : awaitsElse tree = false) (isElse : middle.kind = .kwElse) (alternative : Unclosed valued other) :
      Unclosed valued (keyword :: first :: (tokens ++ last :: (chosen ++ middle :: other)))
  | whileLoop (isWhile : keyword.kind = .kwWhile) (opens : first.kind = .leftParen)
      (test : Expression tokens condition) (closes : last.kind = .rightParen) (body : Unclosed valued after) :
      Unclosed valued (keyword :: first :: (tokens ++ last :: after))
  | breakLoop (isBreak : keyword.kind = .kwBreak) : Unclosed false [keyword]

/-- A declaration without its last semicolon, which may be that of a statement deep inside it. -/
inductive UnclosedDeclaration : Bool → List Token → Prop where
  | declare (isVar : keyword.kind = .kwVar) (isName : name.kind = .identifier) :
      UnclosedDeclaration false [keyword, name]
  | withValue (isVar : keyword.kind = .kwVar) (isName : name.kind = .identifier) (isEqual : equals.kind = .equal)
      (value : Expression tokens tree) : UnclosedDeclaration true (keyword :: name :: equals :: tokens)
  | statement (inner : Unclosed valued tokens) : UnclosedDeclaration valued tokens

mutual

/-- The tokens before and after a gap in a block of a statement; the flag says whether the statement
awaits an `else`. -/
inductive Gapped : List Token → List Token → Bool → Prop where
  | block (opens : first.kind = .leftBrace) (body : GappedProgram before after) (closes : last.kind = .rightBrace) :
      Gapped (first :: before) (after ++ [last]) false
  | ifThen (isIf : keyword.kind = .kwIf) (opens : first.kind = .leftParen) (test : Expression tokens condition)
      (closes : last.kind = .rightParen) (consequence : Gapped before after awaits) :
      Gapped (keyword :: first :: (tokens ++ last :: before)) after true
  | consequence (isIf : keyword.kind = .kwIf) (opens : first.kind = .leftParen) (test : Expression tokens condition)
      (closes : last.kind = .rightParen) (consequence : Gapped before after false) (isElse : middle.kind = .kwElse)
      (alternative : Statement other second) :
      Gapped (keyword :: first :: (tokens ++ last :: before)) (after ++ middle :: other) (awaitsElse second)
  | alternative (isIf : keyword.kind = .kwIf) (opens : first.kind = .leftParen) (test : Expression tokens condition)
      (closes : last.kind = .rightParen) (consequence : Statement chosen tree) (complete : awaitsElse tree = false)
      (isElse : middle.kind = .kwElse) (alternative : Gapped before after awaits) :
      Gapped (keyword :: first :: (tokens ++ last :: (chosen ++ middle :: before))) after awaits
  | whileLoop (isWhile : keyword.kind = .kwWhile) (opens : first.kind = .leftParen)
      (test : Expression tokens condition) (closes : last.kind = .rightParen) (body : Gapped before after awaits) :
      Gapped (keyword :: first :: (tokens ++ last :: before)) after awaits

inductive GappedProgram : List Token → List Token → Prop where
  | inside (first : Gapped before after awaits) (rest : Program others trees) : GappedProgram before (after ++ others)
  | behind (first : UnclosedDeclaration valued before) (rest : Program others trees) : GappedProgram before others
  | later (first : Declaration tokens tree) (rest : GappedProgram before after) : GappedProgram (tokens ++ before) after

end

section Gap
variable {before after : List Token} {semicolon : Token}

private theorem Derives.no_semicolon {rule : Rule} {tokens : List Token} {value : Expr} (derives : Derives rule tokens value) :
    ∀ token ∈ tokens, token.kind ≠ .semicolon := by
  intro token member same
  have allowed := derives.kinds token member
  rw [same] at allowed
  exact absurd allowed (by decide)

/-- The only semicolon of a simple declaration is its last token. -/
private theorem gap_at_end {front : List Token} {last : Token} (ends : semicolon.kind = .semicolon)
    (split : front ++ [last] = before ++ semicolon :: after) (apart : ∀ token ∈ front, token.kind ≠ .semicolon) :
    before = front ∧ after = [] := by
  obtain ⟨skipped, rfl, same⟩ := split_behind split ends apart
  have length := congrArg List.length same
  rw [List.length_append, List.length_cons, List.length_cons, List.length_nil] at length
  refine ⟨?_, List.length_eq_zero_iff.mp (by omega)⟩
  rw [List.length_eq_zero_iff.mp (show skipped.length = 0 by omega), List.append_nil]

private theorem gap_behind_header {keyword first last : Token} {tokens rest : List Token} {condition : Expr}
    (ends : semicolon.kind = .semicolon)
    (split : keyword :: first :: (tokens ++ last :: rest) = before ++ semicolon :: after)
    (starts : keyword.kind ≠ .semicolon) (opens : first.kind = .leftParen) (test : Expression tokens condition)
    (closes : last.kind = .rightParen) :
    ∃ skipped, before = keyword :: first :: (tokens ++ last :: skipped) ∧ rest = skipped ++ semicolon :: after := by
  have front : ∀ others, keyword :: first :: (tokens ++ last :: others) =
      (keyword :: first :: (tokens ++ [last])) ++ others := by
    intro others
    simp only [List.cons_append, List.append_assoc, List.nil_append]
  have apart : ∀ token ∈ keyword :: first :: (tokens ++ [last]), token.kind ≠ .semicolon := by
    simp only [List.forall_mem_cons, List.forall_mem_append]
    exact ⟨starts, kind_apart opens (by decide), test.no_semicolon, kind_apart closes (by decide), List.forall_mem_nil _⟩
  rw [front] at split
  obtain ⟨skipped, rfl, same⟩ := split_behind split ends apart
  exact ⟨skipped, (front skipped).symm, same⟩

mutual

/-- Without one of its semicolons, a statement lacks its last token or has a gap in a block. -/
theorem Statement.gap {tokens before after : List Token} {tree : Stmt} (statement : Statement tokens tree)
    (ends : semicolon.kind = .semicolon) (split : tokens = before ++ semicolon :: after)
    (notElse : ∀ next ∈ after.head?, next.kind ≠ .kwElse) :
    (after = [] ∧ ∃ valued, Unclosed valued before) ∨ Gapped before after (awaitsElse tree) := by
  cases statement with
  | expression value closes =>
    obtain ⟨rfl, rfl⟩ := gap_at_end ends split value.no_semicolon
    exact .inl ⟨rfl, true, .expression value⟩
  | @print tokens value keyword last isPrint derives closes =>
    have apart : ∀ token ∈ keyword :: tokens, token.kind ≠ .semicolon :=
      List.forall_mem_cons.mpr ⟨kind_apart isPrint (by decide), derives.no_semicolon⟩
    obtain ⟨rfl, rfl⟩ := gap_at_end ends split apart
    exact .inl ⟨rfl, true, .print isPrint derives⟩
  | @breakLoop keyword last isBreak closes =>
    have apart : ∀ token ∈ [keyword], token.kind ≠ .semicolon :=
      List.forall_mem_singleton.mpr (kind_apart isBreak (by decide))
    obtain ⟨rfl, rfl⟩ := gap_at_end ends split apart
    exact .inl ⟨rfl, false, .breakLoop isBreak⟩
  | @block tokens statements first last opens body closes =>
    have apart : ∀ token ∈ [first], token.kind ≠ .semicolon :=
      List.forall_mem_singleton.mpr (kind_apart opens (by decide))
    obtain ⟨inner, rfl, same⟩ := split_behind split ends apart
    rcases split_append same with ⟨behind, part, rfl⟩ | ⟨skipped, rfl, part⟩
    · exact .inr (.block opens (body.gap ends part (head_of_append notElse)) closes)
    · obtain ⟨more, _, empty⟩ := @split_behind [last] [] skipped after semicolon _ part ends
        (List.forall_mem_singleton.mpr (kind_apart closes (by decide)))
      cases more <;> cases empty
  | ifThen isIf opens test closes consequence =>
    obtain ⟨skipped, rfl, same⟩ := gap_behind_header ends split (kind_apart isIf (by decide)) opens test closes
    rcases consequence.gap ends same notElse with ⟨last, valued, unclosed⟩ | gapped
    · exact .inl ⟨last, valued, .ifThen isIf opens test closes unclosed⟩
    · exact .inr (.ifThen isIf opens test closes gapped)
  | @ifElse tokens condition chosen tree other second keyword first last middle isIf opens test closes consequence
      complete isElse alternative =>
    obtain ⟨skipped, rfl, same⟩ := gap_behind_header ends split (kind_apart isIf (by decide)) opens test closes
    rcases split_append same with ⟨behind, part, rfl⟩ | ⟨skipped, rfl, part⟩
    · rcases consequence.gap ends part (head_of_append notElse) with ⟨rfl, _⟩ | gapped
      · exact absurd isElse (notElse middle rfl)
      · rw [complete] at gapped
        have whole : Gapped _ _ (awaitsElse second) := .consequence isIf opens test closes gapped isElse alternative
        exact .inr whole
    · obtain ⟨skipped, rfl, inner⟩ := @split_behind [middle] other skipped after semicolon _ part ends
        (List.forall_mem_singleton.mpr (kind_apart isElse (by decide)))
      rcases alternative.gap ends inner notElse with ⟨last, valued, unclosed⟩ | gapped
      · exact .inl ⟨last, valued, .ifElse isIf opens test closes consequence complete isElse unclosed⟩
      · exact .inr (.alternative isIf opens test closes consequence complete isElse gapped)
  | whileLoop isWhile opens test closes body =>
    obtain ⟨skipped, rfl, same⟩ := gap_behind_header ends split (kind_apart isWhile (by decide)) opens test closes
    rcases body.gap ends same notElse with ⟨last, valued, unclosed⟩ | gapped
    · exact .inl ⟨last, valued, .whileLoop isWhile opens test closes unclosed⟩
    · exact .inr (.whileLoop isWhile opens test closes gapped)

theorem Declaration.gap {tokens before after : List Token} {tree : Stmt} (declaration : Declaration tokens tree)
    (ends : semicolon.kind = .semicolon) (split : tokens = before ++ semicolon :: after)
    (notElse : ∀ next ∈ after.head?, next.kind ≠ .kwElse) :
    (after = [] ∧ ∃ valued, UnclosedDeclaration valued before) ∨ ∃ awaits, Gapped before after awaits := by
  cases declaration with
  | @declare keyword name last isVar isName closes =>
    have apart : ∀ token ∈ [keyword, name], token.kind ≠ .semicolon := by
      rw [List.forall_mem_cons, List.forall_mem_singleton]
      exact ⟨kind_apart isVar (by decide), kind_apart isName (by decide)⟩
    obtain ⟨rfl, rfl⟩ := gap_at_end ends split apart
    exact .inl ⟨rfl, false, .declare isVar isName⟩
  | @withValue tokens value keyword name equals last isVar isName isEqual derives closes =>
    have apart : ∀ token ∈ keyword :: name :: equals :: tokens, token.kind ≠ .semicolon := by
      simp only [List.forall_mem_cons]
      exact ⟨kind_apart isVar (by decide), kind_apart isName (by decide), kind_apart isEqual (by decide),
        derives.no_semicolon⟩
    obtain ⟨rfl, rfl⟩ := gap_at_end ends split apart
    exact .inl ⟨rfl, true, .withValue isVar isName isEqual derives⟩
  | statement inner =>
    rcases inner.gap ends split notElse with ⟨last, valued, unclosed⟩ | gapped
    · exact .inl ⟨last, valued, .statement unclosed⟩
    · exact .inr ⟨_, gapped⟩

/-- Without one of its semicolons, a program has a gap behind a declaration or inside one. -/
theorem Program.gap {tokens before after : List Token} {trees : List Stmt} (program : Program tokens trees)
    (ends : semicolon.kind = .semicolon) (split : tokens = before ++ semicolon :: after)
    (notElse : ∀ next ∈ after.head?, next.kind ≠ .kwElse) :
    GappedProgram before after := by
  cases program with
  | nil => cases before <;> cases split
  | cons first rest =>
    rcases split_append split with ⟨behind, part, rfl⟩ | ⟨skipped, rfl, part⟩
    · rcases first.gap ends part (head_of_append notElse) with ⟨rfl, valued, unclosed⟩ | ⟨awaits, gapped⟩
      · exact .behind unclosed rest
      · exact .inside gapped rest
    · exact .later first (rest.gap ends part notElse)

end

end Gap

section Starts
variable {valued awaits : Bool} {tokens before after : List Token}

theorem Unclosed.starts (unclosed : Unclosed valued tokens) :
    ∃ first rest, tokens = first :: rest ∧ first.kind ∈ statementStarters := by
  cases unclosed with
  | expression value =>
    obtain ⟨first, rest, rfl, member⟩ := value.starts
    exact ⟨first, rest, rfl, List.mem_append_right _ member⟩
  | print kind | ifThen kind | ifElse kind | whileLoop kind | breakLoop kind => exact ⟨_, _, rfl, by rw [kind]; decide⟩

theorem UnclosedDeclaration.starts (unclosed : UnclosedDeclaration valued tokens) :
    ∃ first rest, tokens = first :: rest ∧ first.kind ∈ Kind.kwVar :: statementStarters := by
  cases unclosed with
  | declare kind | withValue kind => exact ⟨_, _, rfl, by rw [kind]; decide⟩
  | statement inner =>
    obtain ⟨first, rest, same, member⟩ := inner.starts
    exact ⟨first, rest, same, List.mem_cons_of_mem _ member⟩

theorem Gapped.starts (gapped : Gapped before after awaits) :
    ∃ first rest, before = first :: rest ∧ first.kind ∈ statementStarters := by
  cases gapped with
  | block kind | ifThen kind | consequence kind | alternative kind | whileLoop kind =>
    exact ⟨_, _, rfl, by rw [kind]; decide⟩

theorem GappedProgram.starts (gapped : GappedProgram before after) :
    ∃ first rest, before = first :: rest ∧ first.kind ∈ Kind.kwVar :: statementStarters := by
  cases gapped with
  | inside first rest =>
    obtain ⟨next, more, same, member⟩ := first.starts
    exact ⟨next, more, same, List.mem_cons_of_mem _ member⟩
  | behind first rest => exact first.starts
  | later first rest =>
    obtain ⟨next, more, rfl, member⟩ := first.starts
    exact ⟨next, _, rfl, member⟩

def EndsOpen (tokens : List Token) : Prop := ∃ front last, tokens = front ++ [last] ∧ last.kind ≠ .semicolon

private theorem EndsOpen.behind (ends : EndsOpen tokens) (front : List Token) : EndsOpen (front ++ tokens) := by
  obtain ⟨others, last, rfl, apart⟩ := ends
  exact ⟨front ++ others, last, (List.append_assoc _ _ _).symm, apart⟩

private theorem EndsOpen.cons (ends : EndsOpen tokens) (first : Token) : EndsOpen (first :: tokens) := ends.behind [first]

private theorem Derives.ends_open {rule : Rule} {value : Expr} (derives : Derives rule tokens value) : EndsOpen tokens := by
  obtain ⟨first, rest, same, _⟩ := derives.starts
  have nonempty : tokens ≠ [] := List.ne_nil_of_length_eq_add_one (congrArg List.length same)
  exact ⟨tokens.dropLast, tokens.getLast nonempty, (List.dropLast_concat_getLast nonempty).symm,
    derives.no_semicolon _ (List.getLast_mem nonempty)⟩

theorem Unclosed.ends_open (unclosed : Unclosed valued tokens) : EndsOpen tokens := by
  induction unclosed with
  | expression value => exact value.ends_open
  | print isPrint value => exact value.ends_open.cons _
  | ifThen isIf opens test closes consequence ih | whileLoop isWhile opens test closes body ih =>
    exact (((ih.cons _).behind _).cons _).cons _
  | ifElse isIf opens test closes consequence complete isElse alternative ih =>
    exact (((((ih.cons _).behind _).cons _).behind _).cons _).cons _
  | breakLoop isBreak => exact ⟨[], _, rfl, kind_apart isBreak (by decide)⟩

theorem UnclosedDeclaration.ends_open (unclosed : UnclosedDeclaration valued tokens) : EndsOpen tokens := by
  cases unclosed with
  | @declare keyword name isVar isName => exact ⟨[keyword], name, rfl, kind_apart isName (by decide)⟩
  | withValue isVar isName isEqual value => exact ((value.ends_open.cons _).cons _).cons _
  | statement inner => exact inner.ends_open

end Starts

section Joins
variable {before tokens : List Token} {value : Expr} {semicolon : Token}

/-- What starts with a minus sign goes on after an unclosed statement that ends in an expression. -/
theorem Unclosed.joins {valued : Bool} (unclosed : Unclosed valued before) (ended : valued = true)
    (right : Expression tokens value) (signed : ∀ next ∈ tokens.head?, next.kind = .minus)
    (closes : semicolon.kind = .semicolon) : ∃ tree, Statement (before ++ (tokens ++ [semicolon])) tree := by
  induction unclosed with
  | expression left =>
    obtain ⟨joined, derived⟩ := left.expression_joins rfl right signed
    rw [← List.append_assoc]
    exact ⟨_, .expression derived closes⟩
  | print isPrint left =>
    obtain ⟨joined, derived⟩ := left.expression_joins rfl right signed
    rw [List.cons_append, ← List.append_assoc]
    exact ⟨_, .print isPrint derived closes⟩
  | ifThen isIf opens test shuts consequence ih =>
    obtain ⟨tree, derived⟩ := ih ended
    simp only [List.cons_append, List.append_assoc] at derived ⊢
    exact ⟨_, .ifThen isIf opens test shuts derived⟩
  | ifElse isIf opens test shuts consequence complete isElse alternative ih =>
    obtain ⟨tree, derived⟩ := ih ended
    simp only [List.cons_append, List.append_assoc] at derived ⊢
    exact ⟨_, .ifElse isIf opens test shuts consequence complete isElse derived⟩
  | whileLoop isWhile opens test shuts body ih =>
    obtain ⟨tree, derived⟩ := ih ended
    simp only [List.cons_append, List.append_assoc] at derived ⊢
    exact ⟨_, .whileLoop isWhile opens test shuts derived⟩
  | breakLoop => cases ended

theorem UnclosedDeclaration.joins {valued : Bool} (unclosed : UnclosedDeclaration valued before) (ended : valued = true)
    (right : Expression tokens value) (signed : ∀ next ∈ tokens.head?, next.kind = .minus)
    (closes : semicolon.kind = .semicolon) : ∃ tree, Declaration (before ++ (tokens ++ [semicolon])) tree := by
  cases unclosed with
  | declare => cases ended
  | withValue isVar isName isEqual left =>
    obtain ⟨joined, derived⟩ := left.expression_joins rfl right signed
    simp only [List.cons_append, ← List.append_assoc]
    exact ⟨_, .withValue isVar isName isEqual derived closes⟩
  | statement inner =>
    obtain ⟨tree, derived⟩ := inner.joins ended right signed closes
    exact ⟨tree, .statement derived⟩

end Joins

end Grammar

end Lox
