import Lox.Proofs.MatchedRuns

/-! A name that a program does not mention is nothing to it. Whatever the name is bound
to, and wherever, the program does the same, and leaves it as it was. -/

namespace Lox

namespace Expr

theorem rename_id (tree : Expr) : tree.rename id = tree := by
  induction tree with
  | literal | var => rfl
  | grouping inner ih => rw [rename, ih]
  | unary operator operand ih | dangling operator operand ih => rw [rename, ih]
  | binary left operator right ihLeft ihRight | logical left operator right ihLeft ihRight =>
    rw [rename, ihLeft, ihRight]
  | assign name value ih =>
    rw [rename, ih]
    rfl

private theorem targets_mentioned {name : String} {tree : Expr} (target : name ∈ tree.targets) : name ∈ tree.names := by
  induction tree with
  | literal | var => cases target
  | grouping inner ih => exact ih target
  | unary operator operand ih | dangling operator operand ih => exact ih target
  | binary left operator right ihLeft ihRight | logical left operator right ihLeft ihRight =>
    exact List.mem_append.mpr ((List.mem_append.mp target).imp ihLeft ihRight)
  | assign other value ih => exact List.mem_cons.mpr ((List.mem_cons.mp target).imp_right ih)

end Expr

namespace Stmt

theorem rename_id (tree : Stmt) : tree.rename id = tree := by
  induction tree with
  | expression value | print value => rw [rename, Expr.rename_id]
  | declare name initial =>
    cases initial with
    | none => rfl
    | some value =>
      rw [rename, Option.map_some, Expr.rename_id]
      rfl
  | block body ih => rw [rename, renameAll_eq, List.map_congr_left ih, List.map_id']
  | ifThen condition consequence ih => rw [rename, Expr.rename_id, ih]
  | ifElse condition consequence alternative ih other => rw [rename, Expr.rename_id, ih, other]
  | whileLoop condition body ih => rw [rename, Expr.rename_id, ih]
  | breakLoop keyword => rfl

private theorem mem_targetsAll {name : String} {body : List Stmt} (target : name ∈ targetsAll body) :
    ∃ tree ∈ body, name ∈ tree.targets := by
  induction body with
  | nil => cases target
  | cons first rest ih =>
    obtain here | further := List.mem_append.mp target
    · exact ⟨first, List.mem_cons_self, here⟩
    · obtain ⟨tree, member, assigned⟩ := ih further
      exact ⟨tree, List.mem_cons_of_mem _ member, assigned⟩

private theorem targets_mentioned {name : String} {tree : Stmt} (target : name ∈ tree.targets) : name ∈ tree.names := by
  induction tree with
  | expression value | print value => exact Expr.targets_mentioned target
  | declare other initial =>
    cases initial with
    | none => cases target
    | some value => exact List.mem_cons_of_mem _ (Expr.targets_mentioned target)
  | block body ih =>
    obtain ⟨inner, member, assigned⟩ := mem_targetsAll target
    exact mem_namesAll member (ih inner member assigned)
  | ifThen condition inner ih | whileLoop condition inner ih =>
    exact List.mem_append.mpr ((List.mem_append.mp target).imp Expr.targets_mentioned ih)
  | ifElse condition consequence alternative ih other =>
    simp only [targets, names, List.mem_append] at target ⊢
    exact target.imp Expr.targets_mentioned (Or.imp ih other)
  | breakLoop keyword => cases target

private theorem declared_mentioned {name : String} {tree : Stmt} (declares : name ∈ tree.declared) : name ∈ tree.names := by
  induction tree with
  | expression | print | block | breakLoop => cases declares
  | declare other initial =>
    obtain rfl := List.mem_singleton.mp declares
    cases initial <;> exact List.mem_cons_self
  | ifThen condition inner ih | whileLoop condition inner ih => exact List.mem_append_right _ (ih declares)
  | ifElse condition consequence alternative ih other =>
    exact List.mem_append_right _ (List.mem_append.mpr ((List.mem_append.mp declares).imp ih other))

end Stmt

namespace Environment

/-- The scopes stand in the same way, and have the same values for all names but one. -/
structure AgreesBeside (hidden : String) (one other : Environment) : Prop extends Aligned one other where
  values : ∀ position name, name ≠ hidden → other.valueAt position name = one.valueAt position name

namespace AgreesBeside
variable {hidden : String} {one other after last : Environment}

theorem refl (hidden : String) (environment : Environment) : AgreesBeside hidden environment environment :=
  ⟨.refl environment, fun _ _ _ => rfl⟩

private theorem set_hidden (agree : AgreesBeside hidden one other) {position : Nat} (inside : position < other.depth)
    (value : Value) : AgreesBeside hidden one (other.setAt position hidden value) := by
  refine ⟨agree.toAligned.trans (.setAt ..), fun index name apart => ?_⟩
  rw [valueAt_setAt inside, if_neg (fun both => apart both.2)]
  exact agree.values index name apart

theorem set (agree : AgreesBeside hidden one other) {position : Nat} (inside : position < one.depth) (name : String)
    (value : Value) : AgreesBeside hidden (one.setAt position name value) (other.setAt position name value) := by
  refine ⟨agree.toAligned.set .., fun index other apart => ?_⟩
  rw [valueAt_setAt inside, valueAt_setAt (agree.depth ▸ inside), agree.values index other apart]

private theorem lookup (agree : AgreesBeside hidden one other) {name : String} (seen : name ≠ hidden) :
    other.resolve? name = one.resolve? name ∧ other.find? name = one.find? name :=
  lookup_everywhere agree.toAligned fun position => agree.values position name seen

private theorem push (agree : AgreesBeside hidden one other) : AgreesBeside hidden one.push other.push := by
  refine ⟨agree.toAligned.push, fun position name apart => ?_⟩
  rw [push_valueAt, push_valueAt]
  exact agree.values position name apart

private theorem pop (outer : AgreesBeside hidden one other) (inner : AgreesBeside hidden after last)
    {targets declared more further : List String} (begun : one.push.Balanced targets declared after)
    (twin : other.push.Balanced more further last) : AgreesBeside hidden after.pop last.pop := by
  refine ⟨outer.toAligned.pop inner.toAligned begun twin, fun position name apart => ?_⟩
  rw [valueAt, valueAt, twin.pop_getElem?, begun.pop_getElem?, outer.depth]
  split
  · exact inner.values position name apart
  · rfl

theorem mirror (hidden : String) : Mirror hidden id (AgreesBeside hidden) where
  current agree := agree.current
  find agree seen := (agree.lookup seen).2
  resolve agree seen := (agree.lookup seen).1
  unbound _ _ _ := rfl
  set value agree _ place := by
    obtain rfl | resolved := place
    · exact agree.set (Environment.inside _) _ value
    · exact agree.set (binds_of_resolveFrom (Environment.inside _) resolved).1 _ value
  push agree := agree.push
  pop outer inner begun twin := outer.pop inner begun twin

end AgreesBeside
end Environment

namespace State

/-- The states came about side by side: their scopes agree beside the name, for which each has the values
that it had before, and the same text was printed in both. -/
structure Beside (hidden : String) (one other after last : State) : Prop where
  agree : after.environment.AgreesBeside hidden last.environment
  output : ∃ printed, after.output = one.output ++ printed ∧ last.output = other.output ++ printed
  first : ∀ position, after.environment.valueAt position hidden = one.environment.valueAt position hidden
  second : ∀ position, last.environment.valueAt position hidden = other.environment.valueAt position hidden

end State

/-- A statement leaves a name that it does not mention alone. -/
theorem Stmt.exec_unmentioned {hidden : String} {tree : Stmt} (unmentioned : hidden ∉ tree.names) (fuel : Nat)
    (state : State) :
    (tree.exec fuel state).Attains fun after =>
      ∀ position, after.environment.valueAt position hidden = state.environment.valueAt position hidden := by
  refine (tree.exec_balanced fuel state).mono fun after balanced position => ?_
  obtain same | target | ⟨_, declares⟩ := balanced.environment.values position hidden
  · exact same
  · exact absurd (targets_mentioned target) unmentioned
  · exact absurd (declared_mentioned declares) unmentioned

/-- Two states that agree but for a name which a statement does not mention: it has the same outcome in
both, prints the same, and leaves them in agreement, and the name as it is in each. -/
theorem unmentioned_names_do_nothing {hidden : String} {tree : Stmt} (unmentioned : hidden ∉ tree.names)
    {one other : State} (loops : other.loops = one.loops)
    (agree : one.environment.AgreesBeside hidden other.environment) :
    (tree.Diverges one ↔ tree.Diverges other) ∧
      ∀ fuel, (tree.exec fuel one).Matches (State.Beside hidden one other) (tree.exec fuel other) := by
  have start : State.Alike (Environment.AgreesBeside hidden) one.output other.output one other :=
    ⟨agree, loops, "", String.append_empty.symm, String.append_empty.symm⟩
  have matched : ∀ fuel, (tree.exec fuel one).Matches (State.Beside hidden one other) (tree.exec fuel other) := by
    intro fuel
    have runs := Stmt.exec_matches (Environment.AgreesBeside.mirror hidden) unmentioned fuel start
    rw [Stmt.rename_id] at runs
    have kept := runs.attaining (Stmt.exec_unmentioned unmentioned fuel one)
      (Stmt.exec_unmentioned unmentioned fuel other)
    exact kept.mono fun after last both => ⟨both.1.environment, both.1.output, both.2.1, both.2.2⟩
  exact ⟨forall_congr' fun fuel => (matched fuel).halted_iff .outOfFuel, matched⟩

/-- One round of a loop, which prints and changes a variable and declares another, beside a name that stands
in two scopes of one of the states and in none of the other. -/
theorem unmentioned_names_do_nothing_loop :
    let name (text : String) : Token := .simple .identifier text 1
    let change : Stmt := .expression (.assign (name "a") (.literal .nil))
    let gone : Expr := .unary (.simple .bang "!" 2) (.var (name "a"))
    let leave : Stmt := .ifThen gone (.breakLoop (.simple .kwBreak "break" 2))
    let body : List Stmt := [.declare (name "b") (some (.var (name "a"))), .print (.var (name "b")), change, leave]
    let tree : Stmt := .whileLoop (.literal (.bool true)) (.block body)
    let one (value : Value) : State := (State.new.define (name "a") value).enter
    let other (value : Value) : State :=
      { one value with environment := ((one value).environment.setAt 0 "x" .nil).setAt 1 "x" (.string "own") }
    let before := one (.bool true)
    let beside := other (.bool true)
    let after := (one .nil).print "true\n"
    let last := (other .nil).print "true\n"
    "x" ∉ tree.names ∧ beside.loops = before.loops ∧
      before.environment.AgreesBeside "x" beside.environment ∧ (tree.Diverges before ↔ tree.Diverges beside) ∧
      tree.exec 1 before = .done .normal after ∧ tree.exec 1 beside = .done .normal last ∧
      State.Beside "x" before beside after last := by
  intro name change gone leave body tree one other before beside after last
  have unmentioned : "x" ∉ tree.names := by decide +kernel
  have outer := (Environment.AgreesBeside.refl "x" before.environment).set_hidden Nat.two_pos .nil
  have agree : before.environment.AgreesBeside "x" beside.environment := outer.set_hidden (by decide) (.string "own")
  have first : tree.exec 1 before = .done .normal after := by decide +kernel
  have second : tree.exec 1 beside = .done .normal last := by decide +kernel
  have loops : beside.loops = before.loops := rfl
  obtain ⟨diverges, matched⟩ := unmentioned_names_do_nothing unmentioned loops agree
  have runs := matched 1
  rw [first, second] at runs
  cases runs with
  | done states => exact ⟨unmentioned, loops, agree, diverges, first, second, states⟩

end Lox
