import Lox.Proofs.MatchedRuns
import Mathlib.Logic.Equiv.Basic

/-! A variable that a block begins with may have any name which the rest of the block
does not mention, whatever the two names stand for around the block or further in. -/

namespace Lox

namespace Expr

theorem rename_congr {change other : String → String} {tree : Expr}
    (same : ∀ name ∈ tree.names, change name = other name) : tree.rename change = tree.rename other := by
  induction tree with
  | literal => rfl
  | grouping inner ih => rw [rename, rename, ih same]
  | unary operator operand ih | dangling operator operand ih => rw [rename, rename, ih same]
  | binary left operator right ihLeft ihRight | logical left operator right ihLeft ihRight =>
    simp only [names, List.forall_mem_append] at same
    rw [rename, rename, ihLeft same.1, ihRight same.2]
  | var name => rw [rename, rename, Token.rename, Token.rename, same name.lexeme List.mem_cons_self]
  | assign name value ih =>
    simp only [names, List.forall_mem_cons] at same
    rw [rename, rename, Token.rename, Token.rename, same.1, ih same.2]

end Expr

namespace Stmt
variable {change other : String → String}

theorem rename_congr {tree : Stmt} (same : ∀ name ∈ tree.names, change name = other name) :
    tree.rename change = tree.rename other := by
  induction tree with
  | expression value | print value => rw [rename, rename, Expr.rename_congr same]
  | declare name initial =>
    cases initial with
    | none =>
      simp only [rename, Token.rename, same name.lexeme List.mem_cons_self, Option.map_none]
    | some value =>
      simp only [names, List.forall_mem_cons] at same
      simp only [rename, Token.rename, same.1, Option.map_some, Expr.rename_congr same.2]
  | block body ih =>
    rw [rename, rename, renameAll_eq, renameAll_eq]
    have each : ∀ tree ∈ body, tree.rename change = tree.rename other := fun tree member =>
      ih tree member fun name used => same name (mem_namesAll member used)
    rw [List.map_congr_left each]
  | ifThen condition consequence ih =>
    simp only [names, List.forall_mem_append] at same
    rw [rename, rename, Expr.rename_congr same.1, ih same.2]
  | ifElse condition consequence alternative ihFirst ihSecond =>
    simp only [names, List.forall_mem_append] at same
    rw [rename, rename, Expr.rename_congr same.1, ihFirst same.2.1, ihSecond same.2.2]
  | whileLoop condition body ih =>
    simp only [names, List.forall_mem_append] at same
    rw [rename, rename, Expr.rename_congr same.1, ih same.2]
  | breakLoop keyword => rfl

private theorem renameAll_congr {body : List Stmt} (same : ∀ name ∈ namesAll body, change name = other name) :
    renameAll change body = renameAll other body := by
  rw [renameAll_eq, renameAll_eq]
  exact List.map_congr_left fun tree member => rename_congr fun name used => same name (mem_namesAll member used)

/-- Where a name does not occur, putting it in for another one is swapping the two. -/
private theorem renameAll_swap (x : String) {y : String} {body : List Stmt} (fresh : y ∉ namesAll body) :
    renameAll (fun name => if name = x then y else name) body = renameAll (Equiv.swap x y) body := by
  refine renameAll_congr fun name used => ?_
  have apart : name ≠ y := fun same => fresh (same ▸ used)
  rw [Equiv.swap_apply_def, if_neg apart]

end Stmt

namespace Environment

private theorem eq_of_frames {one other : Environment} (frames : one.frames = other.frames)
    (current : one.current = other.current) : one = other := by
  cases one
  cases frames
  cases current
  rfl

/-- From the scope at `base` inwards, `x` in one environment is what `y` is in the other, and `y` what `x` is.
The scopes around it are the same. -/
structure Swapped (x y : String) (base : Nat) (one other : Environment) : Prop extends Aligned one other where
  around : ∀ position < base, other.frames[position]? = one.frames[position]?
  values : ∀ position, base ≤ position → ∀ name,
    other.valueAt position (Equiv.swap x y name) = one.valueAt position name
  entered : base ≤ one.current
  bound : one.Binds base x
  outward : ∀ position, base < position → position < one.depth →
    ∃ parent, one.frames[position]?.map Frame.parent = some (some parent) ∧ base ≤ parent

namespace Swapped
variable {x y name : String} {base position : Nat} {one other after last : Environment}

/-- Where the variable is missing, it is not the base yet. -/
private theorem outer (swapped : Swapped x y base one other) {frame : Frame} (inside : base ≤ position)
    (found : one.frames[position]? = some frame) (missing : frame.find? x = none) :
    ∃ parent, frame.parent = some parent ∧ base ≤ parent := by
  have beyond : base ≠ position := by
    rintro rfl
    obtain ⟨value, bound⟩ := swapped.bound
    rw [valueAt, found, Option.bind_some, missing] at bound
    cases bound
  have present : position < one.depth := (List.getElem?_eq_some_iff.mp found).1
  have around := swapped.outward position (Nat.lt_of_le_of_ne inside beyond) present
  simpa only [found, Option.map_some, Option.some_inj] using around

private theorem resolves (swapped : Swapped x y base one other) (inside : base ≤ position) (present : position < one.depth) :
    one.resolveFrom x position ≠ none := by
  induction position using Nat.strongRecOn with
  | ind position ih =>
    have found := List.getElem?_eq_getElem present
    generalize one.frames[position] = frame at found
    cases binds : frame.find? x with
    | some value =>
      rw [resolveFrom_here x found binds]
      exact Option.some_ne_none _
    | none =>
      obtain ⟨parent, link, further⟩ := swapped.outer inside found binds
      have outward := one.linked position frame parent found link
      rw [resolveFrom_outer x found binds link]
      exact ih parent outward further (Nat.lt_trans outward present)

/-- The variable itself is looked up no further out than at the base. All names but the two are looked up
as they are. -/
private theorem lookup (swapped : Swapped x y base one other) (seen : name ≠ y) :
    other.resolve? (Equiv.swap x y name) = one.resolve? name ∧ other.find? (Equiv.swap x y name) = one.find? name ∧
      ∀ owner, one.resolve? name = some owner → base ≤ owner ∨ Equiv.swap x y name = name := by
  obtain rfl | apart := eq_or_ne name x
  · have outward : ∀ (position : Nat) (frame : Frame) (parent : Nat), base ≤ position →
        one.frames[position]? = some frame → frame.find? name = none → frame.parent = some parent → base ≤ parent := by
      intro position frame parent inside found missing link
      obtain ⟨around, same, further⟩ := swapped.outer inside found missing
      cases link.symm.trans same
      exact further
    obtain ⟨resolve, find, inside⟩ := lookup_congr (base ≤ ·) swapped.toAligned
      (fun position inside => swapped.values position inside name) outward swapped.entered
    exact ⟨resolve, find, fun owner resolved => .inl (inside owner resolved)⟩
  · have kept : Equiv.swap x y name = name := Equiv.swap_apply_of_ne_of_ne apart seen
    have values : ∀ position, other.valueAt position (Equiv.swap x y name) = one.valueAt position name := by
      intro position
      obtain outside | inside := Nat.lt_or_ge position base
      · rw [kept, valueAt, valueAt, swapped.around position outside]
      · exact swapped.values position inside name
    obtain ⟨resolve, find⟩ := lookup_everywhere swapped.toAligned values
    exact ⟨resolve, find, fun _ _ => .inr kept⟩

/-- A variable may be set in both, under its name in each, but the two in the scopes around not. -/
private theorem set (swapped : Swapped x y base one other) (inside : position < one.depth)
    (place : base ≤ position ∨ Equiv.swap x y name = name) (value : Value) :
    Swapped x y base (one.setAt position name value) (other.setAt position (Equiv.swap x y name) value) where
  toAligned := swapped.toAligned.set ..
  around index outside := by
    by_cases here : index = position
    · have kept := place.resolve_left (Nat.not_le.mpr (here ▸ outside))
      simp only [setAt, kept, List.getElem?_modify, swapped.around index outside]
    · rw [setAt_apart _ _ here, setAt_apart _ _ here, swapped.around index outside]
  values index further which := by
    simp only [valueAt_setAt inside, valueAt_setAt (swapped.depth ▸ inside), (Equiv.swap x y).injective.eq_iff,
      swapped.values index further]
  entered := swapped.entered
  bound := (binds_setAt inside ..).mpr (.inr swapped.bound)
  outward index beyond present := by
    rw [setAt_depth] at present
    rw [setAt_links]
    exact swapped.outward index beyond present

private theorem push (swapped : Swapped x y base one other) : Swapped x y base one.push other.push where
  toAligned := swapped.toAligned.push
  around position outside := by
    rw [push_getElem?, push_getElem?, swapped.depth, swapped.current, swapped.around position outside]
  values position inside name := by
    rw [push_valueAt, push_valueAt]
    exact swapped.values position inside name
  entered := Nat.le_trans swapped.entered (Nat.le_of_lt one.inside)
  bound := by
    obtain ⟨value, binds⟩ := swapped.bound
    exact ⟨value, (push_valueAt ..).trans binds⟩
  outward position beyond present := by
    rw [push_depth] at present
    rw [push_getElem?]
    split
    · exact ⟨one.current, rfl, swapped.entered⟩
    next new => exact swapped.outward position beyond (Nat.lt_of_le_of_ne (Nat.le_of_lt_succ present) new)

private theorem pop (outer : Swapped x y base one other) (inner : Swapped x y base after last)
    {targets declared more further : List String} (begun : one.push.Balanced targets declared after)
    (twin : other.push.Balanced more further last) : Swapped x y base after.pop last.pop where
  toAligned := outer.toAligned.pop inner.toAligned begun twin
  around position outside := by
    rw [twin.pop_getElem?, begun.pop_getElem?, outer.depth, inner.around position outside]
  values position inside name := by
    rw [valueAt, valueAt, twin.pop_getElem?, begun.pop_getElem?, outer.depth]
    split
    · exact inner.values position inside name
    · rfl
  entered := begun.leave.current ▸ outer.entered
  bound := (begun.pop_binds base x).mpr outer.bound
  outward position beyond present := by
    have outside : position < one.depth := begun.leave.depth ▸ present
    have deeper : one.depth ≤ after.depth := by
      rw [begun.depth, push_depth]
      exact Nat.le_succ _
    rw [begun.pop_getElem?, if_pos outside]
    exact inner.outward position beyond (Nat.lt_of_lt_of_le outside deeper)

theorem mirror (x y : String) (base : Nat) : Mirror y (Equiv.swap x y) (Swapped x y base) where
  current swapped := swapped.current
  find swapped seen := (swapped.lookup seen).2.1
  resolve swapped seen := (swapped.lookup seen).1
  unbound {one other name} swapped seen missing := by
    refine Equiv.swap_apply_of_ne_of_ne (fun same => ?_) seen
    subst same
    obtain ⟨owner, resolved⟩ := Option.ne_none_iff_exists'.mp (swapped.resolves swapped.entered one.inside)
    obtain ⟨value, bound⟩ := (binds_of_resolveFrom one.inside resolved).2
    rw [find?, resolve?, resolved, Option.bind_some] at missing
    exact Option.some_ne_none value (bound.symm.trans missing)
  set {one other name position} value swapped seen place := by
    obtain rfl | resolved := place
    · exact swapped.set one.inside (.inl swapped.entered) value
    · exact swapped.set (binds_of_resolveFrom one.inside resolved).1 ((swapped.lookup seen).2.2 _ resolved) value
  push swapped := swapped.push
  pop outer inner begun twin := outer.pop inner begun twin

/-- A variable of a scope that has been entered without a declaration so far. -/
theorem define {before : Environment} {targets : List String} (begun : before.push.Balanced targets [] after)
    (x y : String) (value : Value) : Swapped x y before.depth (after.define x value) (after.define y value) where
  toAligned := (Aligned.refl after).set ..
  around position outside := by
    have apart : position ≠ after.current := begun.current ▸ Nat.ne_of_lt outside
    exact (setAt_apart _ _ apart).trans (setAt_apart _ _ apart).symm
  values position further name := by
    have missing : ∀ name, after.valueAt position name = none := by
      intro name
      refine Option.eq_none_iff_forall_ne_some.mpr fun value bound => ?_
      obtain ⟨other, found⟩ := (begun.binds_iff position name).mp ⟨value, bound⟩
      rw [push_valueAt, valueAt, List.getElem?_eq_none further] at found
      cases found
    simp only [Environment.define, valueAt_setAt after.inside, missing, Equiv.swap_apply_eq_iff, Equiv.swap_apply_right]
  entered := Nat.le_of_eq begun.current.symm
  bound := (binds_setAt after.inside ..).mpr (.inl ⟨begun.current.symm, rfl⟩)
  outward position beyond present := by
    have inside : position < before.depth + 1 := by
      rw [← push_depth, ← begun.depth]
      exact (setAt_depth ..).symm ▸ present
    omega

/-- Nothing is left of the names when their scopes have been left. -/
theorem leave {before : Environment} (swapped : Swapped x y before.depth after last)
    {targets declared more further : List String} (begun : before.push.Balanced targets declared after)
    (twin : before.push.Balanced more further last) : after.pop = last.pop := by
  obtain ⟨frames, current⟩ := begun.pop_frames
  obtain ⟨twins, still⟩ := twin.pop_frames
  refine eq_of_frames ?_ (current.trans still.symm)
  rw [frames, twins]
  refine List.ext_getElem? fun position => ?_
  rw [List.getElem?_take, List.getElem?_take]
  split
  next outside => exact (swapped.around position outside).symm
  next => rfl

end Swapped
end Environment

namespace State.Alike
variable {state after last : State} {targets : List String}

private theorem declare (begun : state.enter.Balanced targets [] after) (silent : after.output = state.output)
    (name new : Token) (value : Value) :
    Alike (Environment.Swapped name.lexeme new.lexeme state.environment.depth) state.output state.output
      (after.define name value) (after.define new value) := by
  have output : after.output = state.output ++ "" := silent.trans String.append_empty.symm
  exact ⟨.define begun.environment name.lexeme new.lexeme value, rfl, "", output, output⟩

private theorem leave {x y : String} {declared more further : List String}
    (alike : Alike (Environment.Swapped x y state.environment.depth) state.output state.output after last)
    (begun : state.enter.Balanced targets declared after) (twin : state.enter.Balanced more further last) :
    after.leave = last.leave := by
  obtain ⟨printed, first, second⟩ := alike.output
  rw [State.leave, State.leave, alike.environment.leave begun.environment twin.environment, alike.loops, first, second]

end State.Alike

namespace Stmt

/-- Of a body that begins with a declaration, the initial value is evaluated before the variable is there. -/
private theorem execAll_declare (name : Token) (initial : Option Expr) (rest : List Stmt) (fuel : Nat) (state : State) :
    execAll fuel state (declare name initial :: rest) =
      (state.eval (initial.getD (.literal .nil))).andThen fun value after =>
        execAll fuel (after.define name value) rest := by
  cases initial with
  | none => rfl
  | some value =>
    simp only [execAll, exec, Option.getD_some]
    cases state.eval value <;> rfl

/-- Two bodies that begin with a declaration, under two names, come to the same when the block is left. -/
theorem execAll_swapped (name : Token) {new : Token} {rest : List Stmt} (fresh : new.lexeme ∉ namesAll rest)
    (initial : Option Expr) (fuel : Nat) (state : State) :
    (execAll fuel state.enter (declare name initial :: rest)).Matches
      (fun after last => after = last ∨ State.Alike
        (Environment.Swapped name.lexeme new.lexeme state.environment.depth) state.output state.output after last)
      (execAll fuel state.enter (declare new initial :: renameAll (Equiv.swap name.lexeme new.lexeme) rest)) := by
  rw [execAll_declare, execAll_declare]
  have evaluated := Run.Matches.self (state.enter.eval_silent (initial.getD (.literal .nil)))
  refine evaluated.andThen_wider (fun _ _ both => .inl both.1) fun value middle other states => ?_
  obtain ⟨rfl, begun, silent⟩ := states
  have alike := State.Alike.declare begun silent name new value
  have mirror := Environment.Swapped.mirror name.lexeme new.lexeme state.environment.depth
  have runs := execAll_matches (fun tree member _ _ states =>
    exec_matches mirror (fun used => fresh (mem_namesAll member used)) fuel states) alike
  exact runs.mono fun _ _ => .inr

end Stmt

/-- Under a name that the rest of a block does not mention, the variable that is declared first in it does the
same: the block has the same outcome, prints the same, and leaves the same variables with the same values. -/
theorem block_locals_renamed (name : Token) {new : Token} {rest : List Stmt}
    (fresh : new.lexeme ∉ Stmt.namesAll rest) (initial : Option Expr) (state : State) :
    let renamed := Stmt.renameAll (fun other => if other = name.lexeme then new.lexeme else other) rest
    let one : Stmt := .block (.declare name initial :: rest)
    let other : Stmt := .block (.declare new initial :: renamed)
    (one.Diverges state ↔ other.Diverges state) ∧ ∀ fuel, one.exec fuel state = other.exec fuel state := by
  intro renamed one other
  have same : ∀ fuel, one.exec fuel state = other.exec fuel state := by
    intro fuel
    have runs := Stmt.execAll_swapped name fresh initial fuel state
    rw [← Stmt.renameAll_swap name.lexeme fresh] at runs
    have scopes := runs.attaining (Stmt.execAll_balanced (fun tree _ => tree.exec_balanced fuel) state.enter)
      (Stmt.execAll_balanced (fun tree _ => tree.exec_balanced fuel) state.enter)
    refine (scopes.mapState fun after last both => ?_).eq
    obtain ⟨equal | alike, begun, twin⟩ := both
    · exact congrArg State.leave equal
    · exact alike.leave begun twin
  exact ⟨forall_congr' fun fuel => by rw [same], same⟩

/-- Both names stand for variables around the block already, which its initial value reads and assigns. In it, a
loop declares a variable of the old name again, and an error ends the run. -/
theorem block_locals_renamed_error :
    let name (text : String) : Token := .simple .identifier text 1
    let read (text : String) : Expr := .var (name text)
    let set (text : String) (value : Expr) : Stmt := .expression (.assign (name text) value)
    let initial : Expr := .assign (name "b") (read "a")
    let again (text : String) : Stmt := .declare (name text) (some (read text))
    let stop : Stmt := .breakLoop (.simple .kwBreak "break" 2)
    let round (text : String) : List Stmt :=
      [.print (read text), again text, set text (.literal .nil), .print (read text), stop]
    let loop (text : String) : Stmt := .whileLoop (read text) (.block (round text))
    let fails (text : String) : Stmt := .expression (.unary (.simple .minus "-" 3) (read text))
    let rest (text : String) : List Stmt := [loop text, .print (read text), fails text]
    let tree (text : String) : Stmt := .block (.declare (name text) (some initial) :: rest text)
    let around (value : Value) : State := ((State.new.define (name "a") (.string "A")).enter).define (name "b") value
    let before := around .nil
    let after := (around (.string "A")).print "A\nnil\nA\n"
    "b" ∉ Stmt.namesAll (rest "a") ∧
      Stmt.renameAll (fun other => if other = "a" then "b" else other) (rest "a") = rest "b" ∧
      ((tree "a").Diverges before ↔ (tree "b").Diverges before) ∧
      (tree "a").exec 1 before = .failed ⟨.operandMustBeNumber, 3⟩ after ∧
      (tree "b").exec 1 before = .failed ⟨.operandMustBeNumber, 3⟩ after := by
  intro name read set initial again stop round loop fails rest tree around before after
  have fresh : (name "b").lexeme ∉ Stmt.namesAll (rest "a") := by decide +kernel
  have renamed : Stmt.renameAll (fun other => if other = "a" then "b" else other) (rest "a") = rest "b" := by rfl
  have run : (tree "a").exec 1 before = .failed ⟨.operandMustBeNumber, 3⟩ after := by decide +kernel
  obtain ⟨diverges, same⟩ := block_locals_renamed (name "a") fresh (some initial) before
  exact ⟨fresh, renamed, diverges, run, (same 1).symm.trans run⟩

end Lox
