import Lox.Proofs.BalancedRuns

/-! Runs of one program in two environments, which may call things differently. If no
single lookup, assignment or declaration can tell the environments apart, the runs
match to their ends. -/

namespace Lox

def Token.rename (token : Token) (change : String → String) : Token := { token with lexeme := change token.lexeme }

namespace Expr

def names : Expr → List String
  | literal _ => []
  | grouping inner => inner.names
  | unary _ operand => operand.names
  | binary left _ right | logical left _ right => left.names ++ right.names
  | dangling _ right => right.names
  | var name => [name.lexeme]
  | assign name value => name.lexeme :: value.names

/-- The expression under other names. Operators are not names, whatever their spelling. -/
def rename (change : String → String) : Expr → Expr
  | literal value => literal value
  | grouping inner => grouping (inner.rename change)
  | unary operator operand => unary operator (operand.rename change)
  | binary left operator right => binary (left.rename change) operator (right.rename change)
  | dangling operator right => dangling operator (right.rename change)
  | logical left operator right => logical (left.rename change) operator (right.rename change)
  | var name => var (name.rename change)
  | assign name value => assign (name.rename change) (value.rename change)

end Expr

namespace Stmt

mutual

def names : Stmt → List String
  | expression value | print value => value.names
  | declare name none => [name.lexeme]
  | declare name (some initial) => name.lexeme :: initial.names
  | block body => namesAll body
  | ifThen condition consequence => condition.names ++ consequence.names
  | ifElse condition consequence alternative => condition.names ++ (consequence.names ++ alternative.names)
  | whileLoop condition body => condition.names ++ body.names
  | breakLoop _ => []

def namesAll : List Stmt → List String
  | [] => []
  | first :: rest => first.names ++ namesAll rest

end

private theorem namesAll_eq (body : List Stmt) : namesAll body = body.flatMap names := by
  induction body with
  | nil => rfl
  | cons first rest ih => rw [namesAll, ih, List.flatMap_cons]

theorem mem_namesAll {name : String} {tree : Stmt} {body : List Stmt} (member : tree ∈ body)
    (used : name ∈ tree.names) : name ∈ namesAll body := by
  rw [namesAll_eq]
  exact List.mem_flatMap.mpr ⟨tree, member, used⟩

mutual

def rename (change : String → String) : Stmt → Stmt
  | expression value => expression (value.rename change)
  | print value => print (value.rename change)
  | declare name initial => declare (name.rename change) (initial.map (·.rename change))
  | block body => block (renameAll change body)
  | ifThen condition consequence => ifThen (condition.rename change) (consequence.rename change)
  | ifElse condition consequence alternative =>
    ifElse (condition.rename change) (consequence.rename change) (alternative.rename change)
  | whileLoop condition body => whileLoop (condition.rename change) (body.rename change)
  | breakLoop keyword => breakLoop keyword

def renameAll (change : String → String) : List Stmt → List Stmt
  | [] => []
  | first :: rest => first.rename change :: renameAll change rest

end

theorem renameAll_eq (change : String → String) (body : List Stmt) :
    renameAll change body = body.map (rename change) := by
  induction body with
  | nil => rfl
  | cons first rest ih => rw [renameAll, ih, List.map_cons]

def Diverges (tree : Stmt) (state : State) : Prop := ∀ fuel, tree.exec fuel state = .halted .outOfFuel

end Stmt

namespace Run
variable {σ τ α β : Type}

/-- The runs end alike: with the same value, with the same error or halted for the same reason, and if they
reach states these are related. -/
inductive Matches (related : σ → σ → Prop) : Run σ α → Run σ α → Prop where
  | done (states : related one other) : Matches related (.done value one) (.done value other)
  | failed (states : related one other) : Matches related (.failed error one) (.failed error other)
  | halted : Matches related (.halted cause) (.halted cause)

namespace Matches
variable {related wider : σ → σ → Prop} {run other : Run σ α}

theorem mono (matched : run.Matches related other) (implies : ∀ one other, related one other → wider one other) :
    run.Matches wider other := by
  cases matched with
  | done states => exact .done (implies _ _ states)
  | failed states => exact .failed (implies _ _ states)
  | halted => exact .halted

/-- Going on after a value may lead to states that are related in another way, as those of errors are then, too. -/
theorem andThen_wider {next last : α → σ → Run σ β} (first : run.Matches related other)
    (implies : ∀ one other, related one other → wider one other)
    (rest : ∀ value one other, related one other → (next value one).Matches wider (last value other)) :
    (run.andThen next).Matches wider (other.andThen last) := by
  cases first with
  | done states => exact rest _ _ _ states
  | failed states => exact .failed (implies _ _ states)
  | halted => exact .halted

theorem andThen {next last : α → σ → Run σ β} (first : run.Matches related other)
    (rest : ∀ value one other, related one other → (next value one).Matches related (last value other)) :
    (run.andThen next).Matches related (other.andThen last) :=
  first.andThen_wider (fun _ _ => id) rest

theorem mapState {mapped : τ → τ → Prop} {change switch : σ → τ} (inner : run.Matches related other)
    (same : ∀ one other, related one other → mapped (change one) (switch other)) :
    (run.mapState change).Matches mapped (other.mapState switch) := by
  cases inner with
  | done states => exact .done (same _ _ states)
  | failed states => exact .failed (same _ _ states)
  | halted => exact .halted

private theorem mapState_const (outcome : Run Unit α) {one other : σ} (states : related one other) :
    (outcome.mapState fun _ => one).Matches related (outcome.mapState fun _ => other) := by
  cases outcome with
  | done => exact .done states
  | failed => exact .failed states
  | halted => exact .halted

/-- What each of the runs attains holds of the states in which they end. -/
theorem attaining {property further : σ → Prop} (matched : run.Matches related other) (one : run.Attains property)
    (second : other.Attains further) :
    run.Matches (fun after last => related after last ∧ property after ∧ further last) other := by
  cases matched with
  | done states => exact .done ⟨states, one _ rfl, second _ rfl⟩
  | failed states => exact .failed ⟨states, one _ rfl, second _ rfl⟩
  | halted => exact .halted

theorem self {property : σ → Prop} (attains : run.Attains property) :
    run.Matches (fun one other => one = other ∧ property one) run := by
  cases run with
  | done => exact .done ⟨rfl, attains _ rfl⟩
  | failed => exact .failed ⟨rfl, attains _ rfl⟩
  | halted => exact .halted

theorem eq (matched : run.Matches Eq other) : run = other := by
  cases matched with
  | done states | failed states => rw [states]
  | halted => rfl

theorem halted_iff (matched : run.Matches related other) (cause : Halt) :
    run = .halted cause ↔ other = .halted cause := by
  cases matched with
  | done | failed => exact ⟨nofun, nofun⟩
  | halted => exact Iff.rfl

end Matches
end Run

namespace Operation
variable {σ : Type} {related : σ → σ → Prop} {one other : σ}

private theorem unary_matches (operator : Token) (operand : Value) (states : related one other) :
    (unary operator operand one).Matches related (unary operator operand other) := by
  rw [unary_mapState, unary_mapState operator operand other]
  exact .mapState_const _ states

private theorem binary_matches (operator : Token) (left right : Value) (states : related one other) :
    (binary operator left right one).Matches related (binary operator left right other) := by
  rw [binary_mapState, binary_mapState operator left right other]
  exact .mapState_const _ states

end Operation

namespace Environment
variable {one other : Environment}

/-- Scope for scope, the environments are linked in the same way. Which names are bound in them is left open.
-/
structure Aligned (one other : Environment) : Prop where
  depth : other.depth = one.depth
  current : other.current = one.current
  links : ∀ position : Nat, other.frames[position]?.map Frame.parent = one.frames[position]?.map Frame.parent

namespace Aligned
variable {after last : Environment}

theorem refl (environment : Environment) : Aligned environment environment := ⟨rfl, rfl, fun _ => rfl⟩

theorem trans (first : Aligned one other) (second : Aligned other last) : Aligned one last :=
  ⟨second.depth.trans first.depth, second.current.trans first.current,
    fun position => (second.links position).trans (first.links position)⟩

theorem setAt (environment : Environment) (position : Nat) (name : String) (value : Value) :
    Aligned environment (environment.setAt position name value) :=
  ⟨setAt_depth .., rfl, setAt_links environment position name value⟩

theorem set (aligned : Aligned one other) (position : Nat) (name new : String) (value : Value) :
    Aligned (one.setAt position name value) (other.setAt position new value) := by
  refine ⟨?_, aligned.current, fun index => ?_⟩
  · rw [setAt_depth, setAt_depth, aligned.depth]
  · rw [setAt_links, setAt_links, aligned.links]

theorem push (aligned : Aligned one other) : Aligned one.push other.push := by
  refine ⟨?_, aligned.depth, fun position => ?_⟩
  · rw [push_depth, push_depth, aligned.depth]
  · rw [push_getElem?, push_getElem?, aligned.depth, aligned.current]
    split
    · rfl
    · exact aligned.links position

theorem pop (outer : Aligned one other) (inner : Aligned after last) {targets declared more further : List String}
    (begun : one.push.Balanced targets declared after) (twin : other.push.Balanced more further last) :
    Aligned after.pop last.pop := by
  refine ⟨?_, ?_, fun position => ?_⟩
  · rw [twin.leave.depth, begun.leave.depth, outer.depth]
  · rw [twin.leave.current, begun.leave.current, outer.current]
  · rw [twin.pop_getElem?, begun.pop_getElem?, outer.depth]
    split
    · exact inner.links position
    · rfl

end Aligned

variable {name new : String} {position : Nat}

private theorem resolveFrom_missing (missing : one.frames[position]? = none) : one.resolveFrom name position = none := by
  rw [resolveFrom]
  split
  next => rfl
  next found => cases missing.symm.trans found

/-- Two names are looked up alike if they have the same values in the scopes that are passed. -/
private theorem resolveFrom_congr (within : Nat → Prop) (aligned : Aligned one other)
    (values : ∀ position, within position → other.valueAt position new = one.valueAt position name)
    (outward : ∀ (position : Nat) (frame : Frame) (parent : Nat), within position → one.frames[position]? = some frame →
      frame.find? name = none → frame.parent = some parent → within parent) (start : within position) :
    other.resolveFrom new position = one.resolveFrom name position ∧
      ∀ owner, one.resolveFrom name position = some owner → within owner := by
  induction position using Nat.strongRecOn with
  | ind position ih =>
    have link := aligned.links position
    have value := values position start
    cases found : one.frames[position]? with
    | none =>
      rw [found, Option.map_none, Option.map_eq_none_iff] at link
      rw [resolveFrom_missing found, resolveFrom_missing link]
      exact ⟨rfl, nofun⟩
    | some frame =>
      rw [found, Option.map_some, Option.map_eq_some_iff] at link
      obtain ⟨twin, present, same⟩ := link
      rw [valueAt, valueAt, found, present, Option.bind_some, Option.bind_some] at value
      cases binds : frame.find? name with
      | some bound =>
        rw [resolveFrom_here name found binds, resolveFrom_here new present (value.trans binds)]
        refine ⟨rfl, fun owner here => ?_⟩
        cases here
        exact start
      | none =>
        cases parent : frame.parent with
        | none =>
          rw [resolveFrom_last name found binds parent,
            resolveFrom_last new present (value.trans binds) (same.trans parent)]
          exact ⟨rfl, nofun⟩
        | some outer =>
          have below := one.linked position frame outer found parent
          rw [resolveFrom_outer name found binds parent,
            resolveFrom_outer new present (value.trans binds) (same.trans parent)]
          exact ih outer below (outward position frame outer start found binds parent)

/-- The same from the innermost scopes on, with the values that are found. -/
theorem lookup_congr (within : Nat → Prop) (aligned : Aligned one other)
    (values : ∀ position, within position → other.valueAt position new = one.valueAt position name)
    (outward : ∀ (position : Nat) (frame : Frame) (parent : Nat), within position → one.frames[position]? = some frame →
      frame.find? name = none → frame.parent = some parent → within parent) (start : within one.current) :
    other.resolve? new = one.resolve? name ∧ other.find? new = one.find? name ∧
      ∀ owner, one.resolve? name = some owner → within owner := by
  obtain ⟨same, inside⟩ := resolveFrom_congr within aligned values outward start
  have resolve : other.resolve? new = one.resolve? name := by rw [resolve?, resolve?, aligned.current, same]
  refine ⟨resolve, ?_, inside⟩
  rw [find?, find?, resolve]
  cases owner : one.resolve? name with
  | none => rfl
  | some position => exact values position (inside position owner)

/-- Two names with the same values in all scopes are looked up alike. -/
theorem lookup_everywhere (aligned : Aligned one other)
    (values : ∀ position, other.valueAt position new = one.valueAt position name) :
    other.resolve? new = one.resolve? name ∧ other.find? new = one.find? name := by
  have looked := lookup_congr (fun _ => True) aligned (fun position _ => values position)
    (fun _ _ _ _ _ _ _ => trivial) trivial
  exact ⟨looked.1, looked.2.1⟩

end Environment

/-- Related environments answer to every name but `hidden` in the same way, and stay related. What is
`name` in the first one is `change name` in the second. -/
structure Environment.Mirror (hidden : String) (change : String → String)
    (related : Environment → Environment → Prop) : Prop where
  current : ∀ {one other}, related one other → other.current = one.current
  find : ∀ {one other name}, related one other → name ≠ hidden → other.find? (change name) = one.find? name
  resolve : ∀ {one other name}, related one other → name ≠ hidden → other.resolve? (change name) = one.resolve? name
  unbound : ∀ {one other name}, related one other → name ≠ hidden → one.find? name = none → change name = name
  set : ∀ {one other name position} value, related one other → name ≠ hidden →
    position = one.current ∨ one.resolve? name = some position →
      related (one.setAt position name value) (other.setAt position (change name) value)
  push : ∀ {one other}, related one other → related one.push other.push
  pop : ∀ {one other after last targets declared more further}, related one other → related after last →
    one.push.Balanced targets declared after → other.push.Balanced more further last → related after.pop last.pop

namespace Environment.Mirror
variable {hidden : String} {change : String → String} {related : Environment → Environment → Prop}
  {one other : Environment} {name : Token}

theorem get (mirror : Mirror hidden change related) (same : related one other) (seen : name.lexeme ≠ hidden) :
    other.get (name.rename change) = one.get name := by
  have find : other.find? (name.rename change).lexeme = one.find? name.lexeme := mirror.find same seen
  rw [Environment.get, Environment.get, find]
  cases found : one.find? name.lexeme with
  | some value => rfl
  | none =>
    have kept : name.rename change = name := by rw [Token.rename, mirror.unbound same seen found]
    rw [kept]

theorem define (mirror : Mirror hidden change related) (same : related one other) (seen : name.lexeme ≠ hidden)
    (value : Value) : related (one.define name.lexeme value) (other.define (name.rename change).lexeme value) := by
  rw [Environment.define, Environment.define, mirror.current same]
  exact mirror.set value same seen (.inl rfl)

theorem assign (mirror : Mirror hidden change related) (same : related one other) (seen : name.lexeme ≠ hidden)
    (value : Value) :
    Run.Matches related
      (match one.assign name value with
        | .ok changed => .done value changed
        | .error error => .failed error one)
      (match other.assign (name.rename change) value with
        | .ok changed => .done value changed
        | .error error => .failed error other) := by
  have resolve : other.resolve? (name.rename change).lexeme = one.resolve? name.lexeme := mirror.resolve same seen
  rw [Environment.assign, Environment.assign, resolve]
  cases found : one.resolve? name.lexeme with
  | some position => exact .done (mirror.set value same seen (.inr found))
  | none =>
    have missing : one.find? name.lexeme = none := by rw [find?, found, Option.bind_none]
    have kept : name.rename change = name := by rw [Token.rename, mirror.unbound same seen missing]
    rw [kept]
    exact .failed same

end Environment.Mirror

/-- The environments are related, as many loops are running, and the same text has been printed since
`first` and `second` were. -/
structure State.Alike (related : Environment → Environment → Prop) (first second : String)
    (one other : State) : Prop where
  environment : related one.environment other.environment
  loops : other.loops = one.loops
  output : ∃ printed, one.output = first ++ printed ∧ other.output = second ++ printed

section Runs
variable {hidden : String} {change : String → String} {related : Environment → Environment → Prop}
  {first second : String}

namespace State.Alike
variable {one other : State}

theorem printLine (alike : Alike related first second one other) (text : String) :
    Alike related first second (one.printLine text) (other.printLine text) := by
  obtain ⟨printed, begun, same⟩ := alike.output
  refine ⟨alike.environment, alike.loops, printed ++ text ++ "\n", ?_, ?_⟩
  · simp only [State.printLine, print, begun, String.append_assoc]
  · simp only [State.printLine, print, same, String.append_assoc]

private theorem enterLoop (alike : Alike related first second one other) :
    Alike related first second one.enterLoop other.enterLoop :=
  ⟨alike.environment, congrArg (· + 1) alike.loops, alike.output⟩

private theorem leaveLoop (alike : Alike related first second one other) :
    Alike related first second one.leaveLoop other.leaveLoop :=
  ⟨alike.environment, congrArg (· - 1) alike.loops, alike.output⟩

end State.Alike

variable (mirror : Environment.Mirror hidden change related)
include mirror

theorem Expr.eval_matches {tree : Expr} (unused : hidden ∉ tree.names) {one other : Environment}
    (same : related one other) : (tree.eval one).Matches related ((tree.rename change).eval other) := by
  induction tree generalizing one other with
  | literal value => exact .done same
  | grouping inner ih => exact ih unused same
  | unary operator operand ih =>
    exact (ih unused same).andThen fun value _ _ states => Operation.unary_matches operator value states
  | binary left operator right ihLeft ihRight =>
    simp only [names, List.mem_append, not_or] at unused
    refine (ihLeft unused.1 same).andThen fun one _ _ middle => ?_
    exact (ihRight unused.2 middle).andThen fun other _ _ states => Operation.binary_matches operator one other states
  | dangling operator right => exact .halted
  | logical left operator right ihLeft ihRight =>
    simp only [names, List.mem_append, not_or] at unused
    refine (ihLeft unused.1 same).andThen fun one _ _ middle => ?_
    split
    · exact .halted
    · exact .done middle
    · exact ihRight unused.2 middle
  | var name =>
    simp only [names, List.mem_singleton] at unused
    simp only [rename, eval, mirror.get same (Ne.symm unused)]
    cases one.get name with
    | ok value => exact .done same
    | error error => exact .failed same
  | assign name value ih =>
    simp only [names, List.mem_cons, not_or] at unused
    exact (ih unused.2 same).andThen fun result _ _ states => mirror.assign states (Ne.symm unused.1) result

theorem State.eval_matches {tree : Expr} (unused : hidden ∉ tree.names) {one other : State}
    (alike : Alike related first second one other) :
    (one.eval tree).Matches (Alike related first second) (other.eval (tree.rename change)) :=
  (Expr.eval_matches mirror unused alike.environment).mapState fun _ _ same => ⟨same, alike.loops, alike.output⟩

omit mirror in
private theorem repeatWhile_matches {alike : State → State → Prop} {test tested : State → Run State Value}
    {round rounded : State → Run State Completion}
    (tests : ∀ one other, alike one other → (test one).Matches alike (tested other))
    (rounds : ∀ one other, alike one other → (round one).Matches alike (rounded other)) (fuel : Nat) {one other : State}
    (start : alike one other) :
    (repeatWhile test round fuel one).Matches alike (repeatWhile tested rounded fuel other) := by
  induction fuel generalizing one other with
  | zero => exact .halted
  | succ fuel ih =>
    rw [repeatWhile_succ, repeatWhile_succ]
    refine (tests _ _ start).andThen fun value _ _ middle => ?_
    split
    · refine (rounds _ _ middle).andThen fun completion _ _ next => ?_
      cases completion with
      | normal => exact ih next
      | broke => exact .done next
    · exact .done middle

namespace Stmt

omit mirror in
theorem execAll_matches {alike : State → State → Prop} {fuel : Nat} {body : List Stmt}
    (each : ∀ tree ∈ body, ∀ one other, alike one other →
      (tree.exec fuel one).Matches alike ((tree.rename change).exec fuel other)) {one other : State}
    (start : alike one other) :
    (execAll fuel one body).Matches alike (execAll fuel other (renameAll change body)) := by
  induction body generalizing one other with
  | nil => exact .done start
  | cons tree rest ih =>
    rw [List.forall_mem_cons] at each
    refine (each.1 _ _ start).andThen fun completion _ _ middle => ?_
    cases completion with
    | normal => exact ih each.2 middle
    | broke => exact .done middle

theorem exec_matches {tree : Stmt} (unused : hidden ∉ tree.names) (fuel : Nat) {one other : State}
    (alike : State.Alike related first second one other) :
    (tree.exec fuel one).Matches (State.Alike related first second) ((tree.rename change).exec fuel other) := by
  induction tree generalizing one other with
  | expression value => exact (State.eval_matches mirror unused alike).andThen fun _ _ _ states => .done states
  | print value =>
    exact (State.eval_matches mirror unused alike).andThen fun value _ _ states => .done (states.printLine value.text)
  | declare name initial =>
    cases initial with
    | none =>
      simp only [names, List.mem_singleton] at unused
      exact .done ⟨mirror.define alike.environment (Ne.symm unused) .nil, alike.loops, alike.output⟩
    | some initial =>
      simp only [names, List.mem_cons, not_or] at unused
      refine (State.eval_matches mirror unused.2 alike).andThen fun value _ _ states => .done ?_
      exact ⟨mirror.define states.environment (Ne.symm unused.1) value, states.loops, states.output⟩
  | block body ih =>
    have inside : ∀ tree ∈ body, hidden ∉ tree.names := fun tree member used => unused (mem_namesAll member used)
    have begun : State.Alike related first second one.enter other.enter :=
      ⟨mirror.push alike.environment, alike.loops, alike.output⟩
    have inner := execAll_matches (fun tree member _ _ => ih tree member (inside tree member)) begun
    have scopes := inner.attaining (execAll_balanced (fun tree _ => tree.exec_balanced fuel) one.enter)
      (execAll_balanced (fun tree _ => tree.exec_balanced fuel) other.enter)
    refine scopes.mapState fun after last both => ?_
    obtain ⟨states, one, other⟩ := both
    have left := mirror.pop alike.environment states.environment one.environment other.environment
    exact ⟨left, states.loops, states.output⟩
  | ifThen condition consequence ih =>
    simp only [names, List.mem_append, not_or] at unused
    refine (State.eval_matches mirror unused.1 alike).andThen fun value _ _ middle => ?_
    split
    · exact ih unused.2 middle
    · exact .done middle
  | ifElse condition consequence alternative ihFirst ihSecond =>
    simp only [names, List.mem_append, not_or] at unused
    refine (State.eval_matches mirror unused.1 alike).andThen fun value _ _ middle => ?_
    split
    · exact ihFirst unused.2.1 middle
    · exact ihSecond unused.2.2 middle
  | whileLoop condition body ih =>
    simp only [names, List.mem_append, not_or] at unused
    have loop := repeatWhile_matches (fun _ _ => State.eval_matches mirror unused.1) (fun _ _ => ih unused.2) fuel
      alike.enterLoop
    exact loop.mapState fun _ _ states => states.leaveLoop
  | breakLoop keyword =>
    simp only [rename, exec, alike.loops]
    split
    · exact .failed alike
    · exact .done alike

end Stmt

end Runs

end Lox
