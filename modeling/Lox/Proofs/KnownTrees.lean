import Lox.Proofs.PrintedTrees

/-! Trees that are read of sources are known by their printed forms, up to line numbers.
A string may be printed like anything else and an infinite number like a name, so that
the sources must do without them. -/

namespace Lox
open Piece Grammar Operation

/-! Whatever is derived of spelled tokens can be recovered. -/

namespace Grammar

private theorem joint_node_recovered {level : Level} {left right : Expr} {operator : Token} (spelled : operator.Spelled)
    (isOperator : operator.kind ∈ (joint level).operators) (first : left.Recovered) (second : right.Recovered) :
    ((joint level).node left operator right).Recovered := by
  have rule := joint_operators_ruled level _ isOperator
  cases level with
  | disjunction | conjunction => exact .logical spelled rule first second
  | equality | comparison | sum | product => exact .binary spelled rule first second

private theorem literal_recovered {token : Token} (spelled : token.Spelled)
    (isLiteral : token.kind = .number ∨ token.kind = .string) :
    (Expr.literal (token.literal.getD .nil)).Recovered := by
  cases spelled with
  | fixed kind _ fixed =>
    have named : kind = .number ∨ kind = .string := isLiteral
    rcases named with rfl | rfl <;> cases fixed
  | name => rcases isLiteral with same | same <;> cases same
  | number digits _ _ printed => exact .number printed

theorem Derives.recovered {rule : Rule} {tokens : List Token} {value : Expr} (derives : Derives rule tokens value)
    (spelled : ∀ token ∈ tokens, token.Spelled) : value.Recovered := by
  induction derives with
  | assign isName isEqual right ih =>
    rw [List.forall_mem_cons, List.forall_mem_cons] at spelled
    exact .assign spelled.1 isName (ih spelled.2.2)
  | value inner ih | operand inner ih | primary inner ih => exact ih spelled
  | operation left isOperator right first second =>
    rw [List.forall_mem_append, List.forall_mem_cons] at spelled
    exact joint_node_recovered spelled.2.1 isOperator (first spelled.1) (second spelled.2.2)
  | signed isOperator inner ih =>
    rw [List.forall_mem_cons] at spelled
    refine .unary spelled.1 ?_ (ih spelled.2)
    rcases isOperator with same | same <;> rw [same] <;> decide
  | literal isLiteral => exact literal_recovered (spelled _ (List.mem_singleton_self _)) isLiteral
  | truth => exact .bool true
  | falsehood => exact .bool false
  | nothing => exact .nothing
  | name isName => exact .var (spelled _ (List.mem_singleton_self _)) isName
  | grouping opens inner closes ih =>
    rw [List.forall_mem_cons, List.forall_mem_append] at spelled
    exact .grouping (ih spelled.2.1)

mutual

theorem Statement.recovered {tokens : List Token} {tree : Stmt} :
    Statement tokens tree → (∀ token ∈ tokens, token.Spelled) → tree.Recovered
  | .expression value _, spelled => .expression (value.recovered (List.forall_mem_append.mp spelled).1)
  | .print _ value _, spelled => by
    rw [List.forall_mem_cons, List.forall_mem_append] at spelled
    exact .print (value.recovered spelled.2.1)
  | .block _ body _, spelled => by
    rw [List.forall_mem_cons, List.forall_mem_append] at spelled
    exact .block (Program.recovered body spelled.2.1)
  | .ifThen _ _ test _ consequence, spelled => by
    simp only [List.forall_mem_cons, List.forall_mem_append] at spelled
    obtain ⟨_, _, condition, _, chosen⟩ := spelled
    exact .ifThen (test.recovered condition) (Statement.recovered consequence chosen)
  | .ifElse _ _ test _ consequence _ _ alternative, spelled => by
    simp only [List.forall_mem_cons, List.forall_mem_append] at spelled
    obtain ⟨_, _, condition, _, chosen, _, other⟩ := spelled
    exact .ifElse (test.recovered condition) (Statement.recovered consequence chosen)
      (Statement.recovered alternative other)
  | .whileLoop _ _ test _ body, spelled => by
    simp only [List.forall_mem_cons, List.forall_mem_append] at spelled
    obtain ⟨_, _, condition, _, inner⟩ := spelled
    exact .whileLoop (test.recovered condition) (Statement.recovered body inner)
  | .breakLoop isBreak _, spelled => .breakLoop (spelled _ List.mem_cons_self) isBreak

theorem Declaration.recovered {tokens : List Token} {tree : Stmt} :
    Declaration tokens tree → (∀ token ∈ tokens, token.Spelled) → tree.Recovered
  | .declare _ isName _, spelled => .declare (spelled _ (List.mem_cons_of_mem _ List.mem_cons_self)) isName
  | .withValue _ isName _ value _, spelled => by
    simp only [List.forall_mem_cons, List.forall_mem_append] at spelled
    obtain ⟨_, name, _, initial, _⟩ := spelled
    exact .declareWith name isName (value.recovered initial)
  | .statement inner, spelled => Statement.recovered inner spelled

theorem Program.recovered {tokens : List Token} {trees : List Stmt} :
    Program tokens trees → (∀ token ∈ tokens, token.Spelled) → ∀ tree ∈ trees, tree.Recovered
  | .nil, _ => nofun
  | .cons first rest, spelled => by
    rw [List.forall_mem_append] at spelled
    exact List.forall_mem_cons.mpr ⟨Declaration.recovered first spelled.1, Program.recovered rest spelled.2⟩

end

end Grammar

/-! Tokens of a source are spelled, but for strings and infinite numbers. -/

def Value.isInfinite : Value → Bool
  | number value => value.isInf
  | _ => false

def Token.Plain (token : Token) : Prop := token.kind ≠ .string ∧ ∀ value ∈ token.literal, value.isInfinite = false

instance (token : Token) : Decidable token.Plain := inferInstanceAs (Decidable (_ ∧ _))

private theorem Piece.Chosen.free {chars text : List Char} (wins : Chosen chars ⟨.lexeme .identifier, text⟩) :
    Kind.ofWord (String.ofList text) = .identifier := by
  by_contra other
  -- The reserved word is as long as the name, and would have been chosen before it.
  obtain ⟨reserved, spelled⟩ := word_keyword rfl other
  have member : text ∈ (Kind.ofWord (String.ofList text)).rule := by
    rw [mem_fixed (Kind.isFixed_of_keyword reserved), spelled, String.toList_ofList]
  obtain same | shorter | ⟨_, same, _⟩ := wins.2 ⟨.lexeme (Kind.ofWord (String.ofList text)), text⟩ ⟨wins.1.1, member⟩
  · exact other (Form.lexeme.inj (congrArg Piece.form same))
  · exact Nat.lt_irrefl _ shorter
  · exact other (Form.lexeme.inj same)

namespace Scan

private theorem literal_fixed {kind : Kind} (fixed : kind.isFixed = true) (text : List Char) : literal? kind text = none := by
  cases kind with
  | identifier | string | number | eof => cases fixed
  | _ => rfl

private theorem number_spelled {text : List Char} (finite : (Decimal.ofChars text).toFloat.isInf = false) (line : Nat) :
    (token .number text line).Spelled := by
  obtain infinite | form := (Decimal.ofChars text).toFloat_signed
  · rw [finite] at infinite
    cases infinite
  · obtain ⟨digits, printed, reads⟩ := numberText_digits form
    have same : digits.toFloat = (Decimal.ofChars text).toFloat := reads
    rw [← same] at printed
    rw [token, literal?, ← same]
    exact .number digits _ line printed

private theorem token_spelled {chars text : List Char} {kind : Kind} {line : Nat} (wins : Chosen chars ⟨.lexeme kind, text⟩)
    (plain : (token kind text line).Plain) : (token kind text line).Spelled := by
  have member : text ∈ kind.rule := wins.1.2
  by_cases fixed : kind.isFixed = true
  · have name := (mem_fixed fixed).mp member
    rw [token, literal_fixed fixed, name, String.ofList_toList]
    exact .fixed kind line fixed
  cases kind with
  | identifier =>
    obtain ⟨first, rest, same, starts, continues⟩ := mem_started.mp member
    exact .name (String.ofList text) line first rest (String.toList_ofList.trans same) starts continues wins.free
  | number => exact number_spelled (plain.2 _ rfl) line
  | string => exact absurd rfl plain.1
  | eof => exact (Language.notMem_zero _ member).elim
  | _ => exact absurd rfl fixed

theorem lexemes_spelled {chars : List Char} {pieces : List Piece} (cuts : Cuts chars pieces) (line : Nat)
    (plain : ∀ token ∈ lexemes line pieces, token.Plain) : ∀ token ∈ lexemes line pieces, token.Spelled := by
  induction cuts generalizing line with
  | done => exact List.forall_mem_nil _
  | @chosen chars after piece pieces split wins further ih =>
    obtain ⟨form, text⟩ := piece
    simp only [lexemes] at plain ⊢
    cases form with
    | lexeme kind =>
      rw [List.forall_mem_cons] at plain ⊢
      exact ⟨token_spelled wins plain.1, ih _ plain.2⟩
    | _ => exact ih _ plain
  | unexpected nothing further ih => exact ih _ plain

end Scan

/-- There is neither a string in the source nor an infinite number. What is printed of these may also be
printed of another tree. -/
def Plain (source : String) : Prop := ∀ token ∈ (scan source).tokens, token.Plain

instance (source : String) : Decidable (Plain source) := inferInstanceAs (Decidable (∀ _ ∈ _, _))

theorem Plain.spelled {source : String} (plain : Plain source) : ∀ token ∈ lexemes source, token.Spelled := by
  refine Scan.lexemes_spelled (cut_cuts source.toList) 1 fun token member => plain token ?_
  rw [scan_tokens]
  exact List.mem_append_left _ member

namespace Plain
variable {source : String}

private theorem statements_recovered (plain : Plain source) (silent : (parseProgram (scan source).tokens).errors = []) :
    ∀ tree ∈ statements source, tree.Recovered :=
  (statements_derived silent).recovered plain.spelled

private theorem expression_recovered {tree : Expr} (plain : Plain source)
    (accepted : parseExpression (scan source).tokens = .ok tree) : tree.Recovered :=
  (expression_derived accepted).recovered plain.spelled

end Plain

theorem Expr.Recovered.eq_of_text {tree other : Expr} (known : tree.Recovered) (knownToo : other.Recovered)
    (same : tree.text = other.text) : tree.renumber (fun _ => 0) = other.renumber fun _ => 0 := by
  rw [← phrase_text, ← phrase_text] at same
  rw [← known.back, ← knownToo.back, Phrase.eq_of_text known.sound knownToo.sound same]

theorem Stmt.Recovered.eq_of_text {tree other : Stmt} (known : tree.Recovered) (knownToo : other.Recovered)
    (same : tree.text = other.text) : tree.renumber (fun _ => 0) = other.renumber fun _ => 0 := by
  rw [← phrase_text, ← phrase_text] at same
  rw [← known.back, ← knownToo.back, Phrase.eq_of_text known.sound knownToo.sound same]

/-- Trees of sources without strings and infinite numbers that are printed alike are alike, but for
the lines of their tokens. -/
theorem printed_trees_are_known {first second : String} (plain : Plain first) (plainToo : Plain second) :
    ((parseProgram (scan first).tokens).errors = [] → (parseProgram (scan second).tokens).errors = [] →
      ∀ tree ∈ statements first, ∀ other ∈ statements second,
        tree.text = other.text → tree.renumber (fun _ => 0) = other.renumber fun _ => 0) ∧
    ∀ tree other, parseExpression (scan first).tokens = .ok tree → parseExpression (scan second).tokens = .ok other →
      tree.text = other.text → tree.renumber (fun _ => 0) = other.renumber fun _ => 0 := by
  constructor
  · intro silent silentToo tree member other memberToo
    exact (plain.statements_recovered silent tree member).eq_of_text (plainToo.statements_recovered silentToo other memberToo)
  · intro tree other accepted acceptedToo
    exact (plain.expression_recovered accepted).eq_of_text (plainToo.expression_recovered acceptedToo)

/-- The same statement on other lines, with other spellings of its numbers. -/
theorem printed_trees_are_known_respelled :
    let first := "if (a == 1.0) \x7b print -b; \x7d // or nothing\nelse x = 2 * (3 + y);"
    let second := "if (a == 1)\n\x7b\n  print -b;\n\x7d else x = 02 * (3.00 + y);"
    let printed := "(if (== a 1) (block (print (- b))) (; (= x (* 2 (group (+ 3 y))))))"
    Plain first ∧ Plain second ∧ (parseProgram (scan first).tokens).errors = [] ∧
      (parseProgram (scan second).tokens).errors = [] ∧
      ∃ tree other, statements first = [tree] ∧ statements second = [other] ∧ tree.text = printed ∧
        other.text = printed ∧ tree.renumber (fun _ => 0) = other.renumber fun _ => 0 := by
  intro first second printed
  have plain : Plain first := by decide +kernel
  have plainToo : Plain second := by decide +kernel
  have silent : (parseProgram (scan first).tokens).errors = [] := by decide +kernel
  have silentToo : (parseProgram (scan second).tokens).errors = [] := by decide +kernel
  have texts : (statements first).map Stmt.text = [printed] := by decide +kernel
  have textsToo : (statements second).map Stmt.text = [printed] := by decide +kernel
  obtain ⟨tree, only, text⟩ := List.map_eq_singleton_iff.mp texts
  obtain ⟨other, onlyToo, textToo⟩ := List.map_eq_singleton_iff.mp textsToo
  have known := (printed_trees_are_known plain plainToo).1 silent silentToo
  rw [only, onlyToo] at known
  have same := known tree (List.mem_singleton_self _) other (List.mem_singleton_self _) (text.trans textToo.symm)
  exact ⟨plain, plainToo, silent, silentToo, tree, other, only, onlyToo, text, textToo, same⟩

end Lox
