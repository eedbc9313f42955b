import Lox.Proofs.ExpressionGrammar

/-! Two expressions in a row are one expression if the second starts with a minus
sign: the sign then stands between operands. Nothing else can be read on after an
expression. -/

namespace Lox.Grammar

/-- An operator that binds tighter than a level is one of its operands' operators. -/
private theorem operand_of_tighter {inner level : Level} (apart : inner ≠ level)
    (bounded : Level.height (some inner) ≤ Level.height (some level)) :
    ∃ next, (joint level).operand = .joined next ∧ Level.height (some inner) ≤ Level.height (some next) := by
  cases level <;> cases inner
  all_goals first | exact absurd rfl apart | exact absurd bounded (by decide) | exact ⟨_, rfl, by decide⟩

/-- An operator of a level, or of a tighter one, may go on after an expression of the level. -/
private theorem Derives.appended {rule : Rule} {tokens after : List Token} {value second : Expr} {inner level : Level}
    {operator : Token} (derives : Derives rule tokens value) (same : rule = .joined level)
    (bounded : Level.height (some inner) ≤ Level.height (some level))
    (isOperator : operator.kind ∈ (joint inner).operators) (right : Derives (joint inner).operand after second) :
    ∃ whole, Derives (.joined level) (tokens ++ operator :: after) whole := by
  induction derives generalizing level with
  | @operand other tokens value operand ih =>
    cases same
    by_cases reached : inner = other
    · subst reached
      exact ⟨_, .operation (.operand operand) isOperator right⟩
    · obtain ⟨next, tighter, further⟩ := operand_of_tighter reached bounded
      obtain ⟨whole, derived⟩ := ih tighter further
      rw [← tighter] at derived
      exact ⟨whole, .operand derived⟩
  | @operation other before last first middle third left isMiddle operand _ ih =>
    cases same
    by_cases reached : inner = other
    · subst reached
      exact ⟨_, .operation (.operation left isMiddle operand) isOperator right⟩
    · obtain ⟨next, tighter, further⟩ := operand_of_tighter reached bounded
      obtain ⟨whole, derived⟩ := ih tighter further
      rw [← tighter] at derived
      rw [List.append_assoc, List.cons_append]
      exact ⟨_, .operation left isMiddle derived⟩
  | _ => cases same

/-- What starts with a minus sign goes on after an expression without an assignment. -/
theorem Derives.joins {rule : Rule} {before tokens : List Token} {first value : Expr}
    (derives : Derives rule tokens value) (signed : ∀ next ∈ tokens.head?, next.kind = .minus)
    (left : Derives (.joined .disjunction) before first) :
    ∃ whole, Derives (.joined .disjunction) (before ++ tokens) whole := by
  have bounded : ∀ level, Level.height (some level) ≤ Level.height (some .disjunction) := by
    intro level
    cases level <;> decide
  induction derives with
  | value inner ih | operand inner ih => exact ih signed
  | @operation level tokens after value operator second operand isOperator right ih =>
    obtain ⟨next, more, rfl, _⟩ := operand.starts
    obtain ⟨whole, derived⟩ := ih signed
    rw [← List.append_assoc]
    exact derived.appended rfl (bounded level) isOperator right
  | @signed tokens operand sign isOperator inner ih =>
    have isMinus : sign.kind ∈ (joint .sum).operators := by
      rw [signed sign rfl]
      decide
    exact left.appended rfl (bounded .sum) isMinus (.operand inner)
  | primary inner ih =>
    obtain ⟨next, more, rfl, member⟩ := inner.starts
    rw [signed next rfl] at member
    exact absurd member (by decide)
  | literal kind =>
    have isMinus := signed _ rfl
    rcases kind with kind | kind <;> rw [kind] at isMinus <;> cases isMinus
  | assign kind | truth kind | falsehood kind | nothing kind | name kind | grouping kind =>
    have isMinus := signed _ rfl
    rw [kind] at isMinus
    cases isMinus

/-- What starts with a minus sign goes on after any expression. -/
theorem Derives.expression_joins {rule : Rule} {before tokens : List Token} {first value : Expr}
    (left : Derives rule before first) (whole : rule = .assignment) (right : Expression tokens value)
    (signed : ∀ next ∈ tokens.head?, next.kind = .minus) : ∃ joined, Expression (before ++ tokens) joined := by
  induction left with
  | assign isName isEqual inner ih =>
    obtain ⟨joined, derived⟩ := ih rfl
    exact ⟨_, .assign isName isEqual derived⟩
  | value inner =>
    obtain ⟨joined, derived⟩ := right.joins signed inner
    exact ⟨joined, .value derived⟩
  | _ => cases whole

end Lox.Grammar
