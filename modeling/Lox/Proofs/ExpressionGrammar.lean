import Lox.Expr.Reader
import Lox.Proofs.CleanReading
import Lox.Proofs.Grammar

/-! Reading an expression follows the grammar: a clean reading has derived what
it took, and what is derived is read cleanly wherever it cannot go on. -/

namespace Lox.Grammar
open Reading

def Opens (tokens : List Token) (width : Nat) (derived : List Token → Prop) : Prop :=
  ∃ taken rest, tokens = taken ++ rest ∧ taken.length = width ∧ derived taken

def operandRule : Option Level → Rule
  | none => .unary
  | some level => .joined level

private theorem joint_operand (level : Level) : (joint level).operand = operandRule level.tighter := by
  cases level <;> rfl

private theorem joint_node (level : Level) : (joint level).node = level.node := by
  cases level <;> rfl

private theorem mem_joint_operators (level : Level) (kind : Kind) :
    kind ∈ (joint level).operators ↔ level.operators.contains kind = true := by
  cases level <;> simp only [joint, Level.operators, KindSet.contains_ofList, decide_eq_true_eq]

private theorem unaryOperators_contains (kind : Kind) :
    Level.unaryOperators.contains kind = true ↔ kind = .bang ∨ kind = .minus := by
  simp only [Level.unaryOperators, KindSet.contains_ofList, decide_eq_true_eq, List.mem_cons,
    List.not_mem_nil, or_false]

/-- Nothing but a name is derived as a variable, at whatever level. -/
private theorem Derives.of_var {rule : Rule} {tokens : List Token} {name : Token}
    (derives : Derives rule tokens (.var name)) : tokens = [name] ∧ name.kind = .identifier := by
  generalize same : Expr.var name = tree at derives
  induction derives with
  | value inner ih | operand inner ih | primary inner ih => exact ih same
  | @operation level before after first operator second left isOperator right =>
    rw [joint_node] at same
    cases level <;> cases same
  | name isName =>
    cases same
    exact ⟨rfl, isName⟩
  | assign | signed | literal | truth | falsehood | nothing | grouping => cases same

section Soundness
variable {stop : Token}

/-- Every clean result of a reading stands for a derivation of what was taken. -/
def Sound (rule : Rule) (tokens : List Token) (reading : Reading Expr) : Prop :=
  ∀ value width, reading = done value width → Opens tokens width (Derives rule · value)

/-- Operators are read after an operand as if they had been read together with it. -/
def Extends (level : Level) (left : Expr) (tokens : List Token) (reading : Reading Expr) : Prop :=
  ∀ value width, reading = done value width → Opens tokens width fun taken =>
    ∀ before, Derives (.joined level) before left → Derives (.joined level) (before ++ taken) value

private theorem assignTo_eq_done {target value result : Expr} {equals : Token} {width : Nat} :
    Expr.assignTo target equals value = done result width ↔
      ∃ name, target = .var name ∧ result = .assign name value ∧ width = 0 := by
  constructor
  · intro clean
    cases target with
    | var name =>
      cases clean
      exact ⟨name, rfl, rfl, rfl⟩
    | literal | grouping | unary | binary | dangling | logical | assign => cases clean
  · rintro ⟨name, rfl, rfl, rfl⟩
    rfl

private theorem Sound.operand {level : Level} {tokens : List Token} {reading : Reading Expr}
    (next : Nat → Expr → Reading Expr)
    (first : Sound (operandRule level.tighter) tokens reading)
    (more : ∀ left, Extends level left (tokens.drop reading.width) (next reading.width left)) :
    Sound (.joined level) tokens (reading.andThen (next reading.width)) := by
  intro value width whole
  obtain ⟨left, taken, chained, operand, clean, rfl⟩ := andThen_eq_done.mp whole
  obtain ⟨before, rest, rfl, rfl, derives⟩ := first _ _ operand
  have follows := more left _ _ clean
  rw [operand, done, List.drop_left] at follows
  obtain ⟨after, rest, rfl, rfl, extended⟩ := follows
  refine ⟨before ++ after, rest, by rw [List.append_assoc], by rw [List.length_append], ?_⟩
  exact extended before (.operand (by rwa [joint_operand]))

private theorem Extends.operator {level : Level} {left : Expr} {operator : Token} {tokens : List Token}
    {reading : Reading Expr} (next : Nat → Expr → Reading Expr)
    (isOperator : level.operators.contains operator.kind = true)
    (first : Sound (operandRule level.tighter) tokens reading)
    (more : ∀ right, Extends level (level.node left operator right) (tokens.drop reading.width)
      (next reading.width right)) :
    Extends level left (operator :: tokens) (reading.afterToken.andThen (next reading.width)) := by
  intro value width whole
  obtain ⟨right, taken, chained, shifted, clean, rfl⟩ := andThen_eq_done.mp whole
  obtain ⟨taken, operand, rfl⟩ := afterToken_eq_done.mp shifted
  obtain ⟨second, rest, rfl, rfl, derives⟩ := first _ _ operand
  have follows := more right _ _ clean
  rw [operand, done, List.drop_left] at follows
  obtain ⟨after, rest, rfl, rfl, extended⟩ := follows
  refine ⟨operator :: second ++ after, rest, by simp, by simp; omega, ?_⟩
  intro before previous
  rw [← List.append_assoc]
  apply extended
  rw [← joint_node]
  exact .operation previous ((mem_joint_operators level _).mpr isOperator) (by rwa [joint_operand])

private theorem Sound.atom {first : Token} {rest : List Token} {value : Expr}
    (derives : Derives .primary [first] value) : Sound .primary (first :: rest) (done value 1) := by
  intro other width clean
  cases clean
  exact ⟨[first], rest, rfl, rfl, derives⟩

private theorem Sound.fail {rule : Rule} {tokens : List Token} {token : Token} {fault : SyntaxFault} :
    Sound rule tokens (Reading.fail token fault) :=
  fun _ _ clean => absurd clean fail_ne_done

private theorem Sound.signed {first : Token} {rest : List Token} {reading : Reading Expr}
    (isOperator : Level.unaryOperators.contains first.kind = true) (inner : Sound .unary rest reading) :
    Sound .unary (first :: rest) (reading.afterToken.map (.unary first)) := by
  intro value width whole
  obtain ⟨operand, shifted, rfl⟩ := map_eq_done.mp whole
  obtain ⟨width, clean, rfl⟩ := afterToken_eq_done.mp shifted
  obtain ⟨taken, rest, rfl, rfl, derives⟩ := inner _ _ clean
  exact ⟨first :: taken, rest, rfl, rfl, .signed ((unaryOperators_contains _).mp isOperator) derives⟩

private theorem Sound.grouping (atEnd : stop.kind = .eof) {first : Token} {rest : List Token} {reading : Reading Expr}
    (opens : first.kind = .leftParen) (inner : Sound .assignment rest reading) :
    Sound .primary (first :: rest)
      ((reading.closedBy stop .rightParen .openGrouping rest).map .grouping).afterToken := by
  intro value width whole
  obtain ⟨width, shifted, rfl⟩ := afterToken_eq_done.mp whole
  obtain ⟨value, closed, rfl⟩ := map_eq_done.mp shifted
  obtain ⟨width, closing, more, clean, follow, closes, rfl⟩ :=
    (closedBy_eq_done atEnd (by decide)).mp closed
  obtain ⟨taken, rest, rfl, rfl, derives⟩ := inner _ _ clean
  rw [List.drop_left] at follow
  subst follow
  exact ⟨first :: taken ++ [closing], more, by simp, by simp, .grouping opens derives closes⟩

/-- The value of an assignment is read only after what turned out to be its target. -/
private theorem Sound.assign {tokens : List Token}
    (target : Sound (.joined .disjunction) tokens (Expr.readLevel stop (some .disjunction) tokens))
    (value : ∀ equals rest, tokens.drop (Expr.readLevel stop (some .disjunction) tokens).width = equals :: rest →
      Sound .assignment rest (Expr.read stop rest)) :
    Sound .assignment tokens (Expr.read stop tokens) := by
  intro result width whole
  rw [Expr.read, andThen_eq_done] at whole
  obtain ⟨left, taken, more, operand, clean, rfl⟩ := whole
  obtain ⟨before, after, rfl, rfl, derives⟩ := target _ _ operand
  split at clean
  next =>
    cases clean
    exact ⟨before, after, rfl, rfl, .value derives⟩
  next equals rest follow =>
    have inner := value equals rest follow
    rw [operand, done, List.drop_left] at follow
    subst follow
    split at clean
    next isEqual =>
      obtain ⟨right, width, assigned, shifted, assigns, rfl⟩ := andThen_eq_done.mp clean
      obtain ⟨width, read, rfl⟩ := afterToken_eq_done.mp shifted
      obtain ⟨name, rfl, rfl, rfl⟩ := assignTo_eq_done.mp assigns
      obtain ⟨taken, rest, rfl, rfl, derived⟩ := inner _ _ read
      obtain ⟨rfl, isName⟩ := derives.of_var
      exact ⟨name :: equals :: taken, rest, rfl, by simp; omega, .assign isName isEqual derived⟩
    next =>
      cases clean
      exact ⟨before, equals :: rest, rfl, rfl, .value derives⟩

/-- What is read cleanly was derived, whichever rule the reading is for. -/
theorem read_sound_each (atEnd : stop.kind = .eof) :
    (∀ tokens, Sound .assignment tokens (Expr.read stop tokens)) ∧
    (∀ level tokens, Sound (operandRule level) tokens (Expr.readLevel stop level tokens)) ∧
    (∀ level left tokens, Extends level left tokens (Expr.readChain stop level left tokens)) ∧
    ∀ first rest, Sound .primary (first :: rest) (Expr.readPrimary stop first rest) := by
  apply Expr.read.mutual_induct stop
  case case1 =>
    intro tokens target inner value
    exact .assign inner value
  case case2 =>
    intro level
    rw [Expr.readLevel]
    exact .fail
  case case3 =>
    intro first rest isOperator inner
    rw [Expr.readLevel, if_pos isOperator]
    exact .signed isOperator inner
  case case4 =>
    intro first rest noOperator inner value width whole
    rw [Expr.readLevel, if_neg noOperator] at whole
    obtain ⟨taken, rest, split, rfl, derives⟩ := inner value width whole
    exact ⟨taken, rest, split, rfl, .primary derives⟩
  case case5 =>
    -- A missing left operand is noticed, so that nothing read here is clean.
    intro level first rest dangles right inner chain value width whole
    rw [Expr.readLevel, if_pos dangles] at whole
    obtain ⟨left, taken, more, opening, _, _⟩ := andThen_eq_done.mp whole
    obtain ⟨operand, _, _, _, noticed, _⟩ := andThen_eq_done.mp opening
    exact absurd noticed noted_ne_done
  case case6 =>
    intro level first rest regular operand inner chain
    rw [Expr.readLevel, if_neg regular]
    exact .operand (fun width left => Expr.readChain stop level left ((first :: rest).drop width)) inner chain
  case case7 =>
    intro level left value width clean
    rw [Expr.readChain] at clean
    cases clean
    exact ⟨[], [], rfl, rfl, fun before derives => by rwa [List.append_nil]⟩
  case case8 =>
    intro level left operator rest isOperator right inner chain
    rw [Expr.readChain, if_pos isOperator]
    exact .operator
      (fun width operand => Expr.readChain stop level (level.node left operator operand) (rest.drop width))
      isOperator inner chain
  case case9 =>
    intro level left operator rest noOperator value width clean
    rw [Expr.readChain, if_neg noOperator] at clean
    cases clean
    exact ⟨[], operator :: rest, rfl, rfl, fun before derives => by rwa [List.append_nil]⟩
  case case16 =>
    intro first rest opens inner
    rw [Expr.readPrimary, opens]
    exact .grouping atEnd opens inner
  case case17 =>
    intro first rest notFalse notTrue notNil notNumber notString notName notOpening
    rw [Expr.readPrimary]
    split
    all_goals first | contradiction | exact .fail
  all_goals
    intro first rest isAtom
    rw [Expr.readPrimary, isAtom]
    refine .atom ?_
  · exact .falsehood isAtom
  · exact .truth isAtom
  · exact .nothing isAtom
  · exact .literal (.inl isAtom)
  · exact .literal (.inr isAtom)
  · exact .name isAtom

end Soundness

def atoms : List Kind := [.number, .string, .kwTrue, .kwFalse, .kwNil, .identifier, .leftParen]

def starters : Rule → List Kind
  | .primary => atoms
  | _ => .bang :: .minus :: atoms

theorem Derives.starts {rule : Rule} {tokens : List Token} {value : Expr} (derives : Derives rule tokens value) :
    ∃ first rest, tokens = first :: rest ∧ first.kind ∈ starters rule := by
  induction derives with
  | assign isName isEqual right ih => exact ⟨_, _, rfl, by rw [isName]; decide⟩
  | value inner ih => exact ih
  | @operand level tokens value inner ih =>
    obtain ⟨first, rest, same, member⟩ := ih
    refine ⟨first, rest, same, ?_⟩
    cases level <;> exact member
  | operation left isOperator right before after =>
    obtain ⟨first, rest, rfl, member⟩ := before
    exact ⟨first, _, rfl, member⟩
  | signed isOperator inner ih =>
    refine ⟨_, _, rfl, ?_⟩
    rcases isOperator with kind | kind <;> rw [kind] <;> decide
  | primary inner ih =>
    obtain ⟨first, rest, same, member⟩ := ih
    exact ⟨first, rest, same, List.mem_cons_of_mem _ (List.mem_cons_of_mem _ member)⟩
  | literal isLiteral =>
    refine ⟨_, [], rfl, ?_⟩
    rcases isLiteral with kind | kind <;> rw [kind] <;> decide
  | truth kind | falsehood kind | nothing kind | name kind => exact ⟨_, [], rfl, by rw [kind]; decide⟩
  | grouping opens inner closes ih => exact ⟨_, _, rfl, by rw [opens]; decide⟩

/-- No operator stands where its left operand should, if an expression starts there. -/
private theorem dangles_of_starter {rule : Rule} {kind : Kind} (level : Level) (member : kind ∈ starters rule) :
    level.dangles kind = false := by
  have larger : kind ∈ starters .unary := by
    cases rule with
    | primary => exact List.mem_cons_of_mem _ (List.mem_cons_of_mem _ member)
    | assignment | joined | unary => exact member
  have regular : ∀ kind ∈ starters .unary, level.dangles kind = false := by
    cases level <;> decide
  exact regular kind larger

private theorem not_unaryOperator_of_atom {kind : Kind} (member : kind ∈ atoms) :
    ¬ Level.unaryOperators.contains kind = true := by
  have apart : ∀ kind ∈ atoms, Level.unaryOperators.contains kind = false := by decide
  simp only [apart kind member, Bool.false_eq_true, not_false_eq_true]

private theorem operators_apart {first second : Level} {kind : Kind} (left : first.operators.contains kind = true)
    (right : second.operators.contains kind = true) : first = second := by
  have apart : ∀ kind ∈ (joint first).operators, kind ∈ (joint second).operators → first = second := by
    cases first <;> cases second <;> decide
  exact apart kind ((mem_joint_operators _ _).mpr left) ((mem_joint_operators _ _).mpr right)

def Ends (level : Option Level) (rest : List Token) : Prop :=
  ∀ next ∈ rest.head?, ∀ inner, Level.height (some inner) < Level.height level →
    inner.operators.contains next.kind = false

def Closes (rest : List Token) : Prop :=
  ∀ next ∈ rest.head?, next.kind ≠ .equal ∧ ∀ level : Level, level.operators.contains next.kind = false

section Completeness
variable {stop : Token}

private theorem readChain_stops {level : Level} (left : Expr) {rest : List Token}
    (ends : ∀ next ∈ rest.head?, level.operators.contains next.kind = false) :
    Expr.readChain stop level left rest = done left 0 := by
  cases rest with
  | nil => rw [Expr.readChain]
  | cons next rest =>
    have absent := ends next rfl
    rw [Expr.readChain, if_neg (by simp only [absent, Bool.false_eq_true, not_false_eq_true])]

/-- What is derived is read from the front of any tokens that cannot belong to it. -/
def Complete (stop : Token) (tokens : List Token) (value : Expr) : Rule → Prop
  | .assignment => ∀ rest, Closes rest → Expr.read stop (tokens ++ rest) = done value tokens.length
  | .joined level => ∀ rest, Ends (some level) rest →
    Expr.readLevel stop (some level) (tokens ++ rest) =
      (Expr.readChain stop level value rest).after tokens.length
  | .unary => ∀ rest, Expr.readLevel stop none (tokens ++ rest) = done value tokens.length
  | .primary => ∀ first more, tokens = first :: more → ∀ rest,
    Expr.readPrimary stop first (more ++ rest) = done value tokens.length

/-- An operand is read up to an operator that is no tighter than those around it. -/
private theorem Complete.operand_read {level : Level} {tokens : List Token} {value : Expr}
    (complete : Complete stop tokens value (operandRule level.tighter)) {rest : List Token}
    (ends : Ends (some level) rest) :
    Expr.readLevel stop level.tighter (tokens ++ rest) = done value tokens.length := by
  have lower := Level.height_tighter level
  cases tighter : level.tighter with
  | none =>
    rw [tighter] at complete
    exact complete rest
  | some inner =>
    rw [tighter] at complete lower
    have inside : Ends (some inner) rest := fun next member other less =>
      ends next member other (Nat.lt_trans less lower)
    rw [complete rest inside, readChain_stops value fun next member => ends next member inner lower, after_done,
      Nat.add_zero]

private theorem Complete.operand {rule : Rule} {level : Level} {tokens : List Token} {value : Expr}
    (complete : Complete stop tokens value (operandRule level.tighter))
    (starts : ∃ first rest, tokens = first :: rest ∧ first.kind ∈ starters rule) :
    Complete stop tokens value (.joined level) := by
  intro rest ends
  have read := complete.operand_read ends
  obtain ⟨first, more, rfl, member⟩ := starts
  rw [List.cons_append] at read ⊢
  rw [Expr.readLevel, if_neg (by simp [dangles_of_starter level member]), read, done_andThen, done,
    ← List.cons_append, List.drop_left]

/-- The chain of a level goes on after an operator and its right operand. -/
private theorem Complete.operation {level : Level} {before after : List Token} {operator : Token} {first second : Expr}
    (isOperator : level.operators.contains operator.kind = true)
    (left : Complete stop before first (.joined level))
    (right : Complete stop after second (operandRule level.tighter)) :
    Complete stop (before ++ operator :: after) (level.node first operator second) (.joined level) := by
  intro rest ends
  have between : Ends (some level) (operator :: (after ++ rest)) := by
    intro next member inner less
    cases member
    refine Bool.eq_false_iff.mpr fun other => ?_
    obtain rfl := operators_apart isOperator other
    exact absurd less (Nat.lt_irrefl _)
  have read := right.operand_read ends
  rw [List.append_assoc, List.cons_append, left _ between, Expr.readChain, if_pos isOperator, read]
  simp only [afterToken_done, done_andThen, done_width, List.drop_left, after_after, List.length_append,
    List.length_cons]

private theorem Complete.unary {first : Token} {tokens : List Token} {value : Expr}
    (complete : Complete stop (first :: tokens) value .primary) (member : first.kind ∈ atoms) :
    Complete stop (first :: tokens) value .unary := by
  intro rest
  rw [List.cons_append, Expr.readLevel, if_neg (not_unaryOperator_of_atom member)]
  exact complete first tokens rfl rest

/-- What is complete as an operand without operators is complete at every level. -/
private theorem Complete.lift {tokens : List Token} {value : Expr} (complete : Complete stop tokens value .unary)
    (starts : ∃ first rest, tokens = first :: rest ∧ first.kind ∈ starters .unary) (level : Option Level) :
    Complete stop tokens value (operandRule level) :=
  match level with
  | none => complete
  | some level => .operand (Complete.lift complete starts level.tighter) starts
termination_by Level.height level
decreasing_by exact Level.height_tighter level

private theorem Complete.name {token : Token} (isName : token.kind = .identifier) :
    Complete stop [token] (.var token) .primary := by
  intro first more same rest
  cases same
  rw [Expr.readPrimary, isName]
  rfl

/-- A name before an equals sign is read as the target of an assignment. -/
private theorem Complete.assign {name equals : Token} {tokens : List Token} {value : Expr}
    (isName : name.kind = .identifier) (isEqual : equals.kind = .equal)
    (right : Complete stop tokens value .assignment) :
    Complete stop (name :: equals :: tokens) (.assign name value) .assignment := by
  intro rest closes
  have target : Complete stop [name] (.var name) (.joined .disjunction) := by
    refine Complete.lift (Complete.unary (.name isName) ?_) ⟨name, [], rfl, ?_⟩ (some .disjunction)
    · rw [isName]; decide
    · rw [isName]; decide
  have noOperator : ∀ level : Level, level.operators.contains equals.kind = false := by
    rw [isEqual]
    intro level
    cases level <;> decide
  have read : Expr.readLevel stop (some .disjunction) (name :: equals :: (tokens ++ rest)) = done (.var name) 1 := by
    have chained := target (equals :: (tokens ++ rest)) (fun next member inner _ => by cases member; exact noOperator inner)
    rw [readChain_stops _ (fun next member => by cases member; exact noOperator _)] at chained
    exact chained
  rw [List.cons_append, List.cons_append, Expr.read, read, done_andThen]
  change (if equals.kind = .equal then
      (Expr.read stop (tokens ++ rest)).afterToken.andThen (Expr.assignTo (.var name) equals)
    else done (.var name) 0).after 1 = _
  rw [if_pos isEqual, right rest closes, afterToken_done, done_andThen]
  rw [Expr.assignTo, after_done, after_done, List.length_cons, List.length_cons]
  congr 1
  omega

/-- An expression without an assignment of its own is read up to what closes it. -/
private theorem Complete.value {tokens : List Token} {value : Expr}
    (inner : Complete stop tokens value (.joined .disjunction)) : Complete stop tokens value .assignment := by
  intro rest closes
  have read : Expr.readLevel stop (some .disjunction) (tokens ++ rest) = done value tokens.length := by
    rw [inner rest fun next member level _ => (closes next member).2 level,
      readChain_stops value fun next member => (closes next member).2 _, after_done, Nat.add_zero]
  rw [Expr.read, read, done_andThen]
  split
  next => rfl
  next equals after follow =>
    rw [done_width, List.drop_left] at follow
    subst follow
    rw [if_neg (closes equals rfl).1]
    rfl

theorem closes_of_kind {closing : Token} (rest : List Token)
    (kind : closing.kind = .semicolon ∨ closing.kind = .rightParen) : Closes (closing :: rest) := by
  intro next member
  cases member
  rcases kind with kind | kind <;> rw [kind]
  all_goals exact ⟨by decide, fun level => by cases level <;> decide⟩

/-- Whatever a rule derives is read by the function for the rule. -/
theorem Derives.complete {rule : Rule} {tokens : List Token} {value : Expr} (derives : Derives rule tokens value) :
    Complete stop tokens value rule := by
  induction derives with
  | assign isName isEqual right ih => exact .assign isName isEqual ih
  | value inner ih => exact .value ih
  | @operand level tokens value inner ih =>
    rw [joint_operand] at ih
    exact .operand ih inner.starts
  | @operation level before after first operator second left isOperator right leftRead rightRead =>
    rw [joint_operand] at rightRead
    rw [joint_node]
    exact .operation ((mem_joint_operators _ _).mp isOperator) leftRead rightRead
  | signed isOperator inner ih =>
    intro rest
    rw [List.cons_append, Expr.readLevel, if_pos ((unaryOperators_contains _).mpr isOperator), ih rest]
    rfl
  | primary inner ih =>
    obtain ⟨first, more, rfl, member⟩ := inner.starts
    exact .unary ih member
  | name isName => exact .name isName
  | grouping opens inner closes ih =>
    intro first more same rest
    cases same
    rw [Expr.readPrimary, opens, List.append_assoc, List.singleton_append]
    simp only [ih _ (closes_of_kind rest (.inr closes)), closedBy_done List.drop_left closes, map_done, afterToken_done,
      List.length_cons, List.length_append, List.length_nil]
  | literal isLiteral =>
    intro first more same rest
    cases same
    rcases isLiteral with kind | kind <;> rw [Expr.readPrimary, kind] <;> rfl
  | truth kind | falsehood kind | nothing kind =>
    intro first more same rest
    cases same
    rw [Expr.readPrimary, kind]
    rfl

end Completeness

end Lox.Grammar
