import Mathlib.Data.Set.Finite.List
import Lox.Proofs.BalancedScopes

/-! Whatever is done with the scopes, they are a stack of maps. Each but the outermost
is linked to the one right below it, so that no link leads astray, not even after
positions have been left and taken again. -/

namespace Lox

inductive Action where
  | push
  | pop
  | define (name : String) (value : Value)
  | get (name : Token)
  | assign (name : Token) (value : Value)

inductive Answer where
  | nothing
  | entered (index : Nat)
  | value (result : Except RuntimeError Value)
  | assigned (result : Except RuntimeError Unit)

/-- All answers to a row of actions, and the state that they lead to. -/
def Action.performAll {σ : Type} (perform : Action → σ → Answer × σ) : List Action → σ → List Answer × σ
  | [], state => ([], state)
  | action :: rest, state =>
    let (answer, after) := perform action state
    let (answers, last) := performAll perform rest after
    (answer :: answers, last)

namespace Scopes

def rows : Scopes → List Scope
  | root scope => [scope]
  | inner scope outer => outer.rows ++ [scope]

def perform (action : Action) (scopes : Scopes) : Answer × Scopes :=
  match action with
  | .push => (.entered scopes.rows.length, scopes.enter)
  | .pop => (.nothing, scopes.leave)
  | .define name value => (.nothing, scopes.define name value)
  | .get name =>
    match scopes.find? name.lexeme with
    | some value => (.value (.ok value), scopes)
    | none => (.value (.error ⟨.undefinedVariable name.lexeme, name.line⟩), scopes)
  | .assign name value =>
    match scopes.assign? name.lexeme value with
    | some changed => (.assigned (.ok ()), changed)
    | none => (.assigned (.error ⟨.undefinedVariable name.lexeme, name.line⟩), scopes)

end Scopes

namespace Environment

def perform (action : Action) (environment : Environment) : Answer × Environment :=
  match action with
  | .push => (.entered environment.push.currentIndex, environment.push)
  | .pop => (.nothing, environment.pop)
  | .define name value => (.nothing, environment.define name value)
  | .get name => (.value (environment.get name), environment)
  | .assign name value =>
    match environment.assign name value with
    | .ok changed => (.assigned (.ok ()), changed)
    | .error error => (.assigned (.error error), environment)

/-- The innermost scope is the last one, and each scope is the one around the next. -/
structure Upright (environment : Environment) : Prop where
  depth : environment.depth = environment.currentIndex + 1
  root : ∀ frame, environment.frames[0]? = some frame → frame.parent = none
  links : ∀ position frame, environment.frames[position + 1]? = some frame → frame.parent = some position

/-- Look a name up, from a position outwards, by going at most so many rounds. There is
no result if these are not enough, or if some position is not one of a scope. -/
def search? (environment : Environment) (name : String) : Nat → Option Nat → Option (Option Nat)
  | _, none => some none
  | 0, some _ => none
  | rounds + 1, some position =>
    match environment.frames[position]? with
    | none => none
    | some frame =>
      match frame.find? name with
      | some _ => some (some position)
      | none => environment.search? name rounds frame.parent

variable {environment : Environment}

namespace Upright

theorem new : Upright new := by
  refine ⟨rfl, ?_, ?_⟩
  · intro frame found
    cases found
    rfl
  · intro position frame found
    cases found

theorem push (upright : environment.Upright) : environment.push.Upright := by
  have depth : environment.depth = environment.current + 1 := upright.depth
  refine ⟨push_depth environment, fun frame found => ?_, fun position frame found => ?_⟩
  · rw [push_getElem?, if_neg (by omega)] at found
    exact upright.root frame found
  · rw [push_getElem?] at found
    split at found
    next last =>
      cases found
      exact congrArg some (by omega)
    next => exact upright.links position frame found

/-- The current scope is the outermost one, or it is linked to the one before it. -/
private theorem current_cases (upright : environment.Upright) :
    environment.pop = environment ∨
      environment.pop.frames = environment.frames.take environment.current ∧
        environment.current = environment.pop.current + 1 := by
  cases link : environment.currentFrame.parent with
  | none =>
    left
    rw [Environment.pop]
    split
    next => rfl
    next other => cases link.symm.trans other
  | some parent =>
    right
    obtain ⟨frames, outward⟩ := pop_eq link
    have found := environment.currentFrame_found
    cases position : environment.current with
    | zero =>
      rw [position] at found
      cases link.symm.trans (upright.root _ found)
    | succ before =>
      rw [position] at found frames
      cases link.symm.trans (upright.links before _ found)
      exact ⟨frames, by rw [outward]⟩

theorem pop (upright : environment.Upright) : environment.pop.Upright := by
  obtain same | ⟨frames, current⟩ := upright.current_cases
  · rwa [same]
  have inside := environment.inside
  have kept : ∀ (position : Nat) (frame : Frame), environment.pop.frames[position]? = some frame →
      environment.frames[position]? = some frame := by
    intro position frame found
    rw [frames, List.getElem?_take] at found
    split at found
    · exact found
    · cases found
  refine ⟨?_, fun frame found => upright.root frame (kept 0 frame found),
    fun position frame found => upright.links position frame (kept _ frame found)⟩
  simp only [Environment.depth, currentIndex, frames, List.length_take]
  omega

theorem setAt (upright : environment.Upright) (position : Nat) (name : String) (value : Value) :
    (environment.setAt position name value).Upright := by
  have kept : ∀ (index : Nat) (frame : Frame), (environment.setAt position name value).frames[index]? = some frame →
      ∃ before, environment.frames[index]? = some before ∧ before.parent = frame.parent := by
    intro index frame found
    have links := setAt_links environment position name value index
    rw [found, Option.map_some] at links
    exact Option.map_eq_some_iff.mp links.symm
  refine ⟨(setAt_depth ..).trans upright.depth, ?_, ?_⟩
  · intro frame found
    obtain ⟨before, present, same⟩ := kept 0 frame found
    rw [← same]
    exact upright.root before present
  · intro index frame found
    obtain ⟨before, present, same⟩ := kept _ frame found
    rw [← same]
    exact upright.links index before present

/-- The maps seen from a position are those of the scopes up to it. -/
private theorem rows_scopesFrom (upright : environment.Upright) {position : Nat} (inside : position < environment.depth) :
    (environment.scopesFrom position).rows = (environment.frames.take (position + 1)).map Frame.find? := by
  induction position with
  | zero =>
    have found := List.getElem?_eq_getElem inside
    rw [scopesFrom_root found (upright.root _ found), List.take_add_one, found]
    rfl
  | succ position ih =>
    have found := List.getElem?_eq_getElem inside
    have before := ih (Nat.lt_of_succ_lt inside)
    rw [scopesFrom_inner found (upright.links position _ found), List.take_add_one, List.map_append, ← before, found]
    rfl

/-- No scope stands beside the stack. -/
theorem rows (upright : environment.Upright) : environment.scopes.rows = environment.frames.map Frame.find? := by
  have whole : environment.frames.take (environment.current + 1) = environment.frames :=
    List.take_of_length_le (Nat.le_of_eq upright.depth)
  rw [scopes, upright.rows_scopesFrom environment.inside, whole]

end Upright

/-- A search goes outwards only, from scope to scope, so that it ends. -/
private theorem search?_eq {name : String} {position rounds : Nat} (inside : position < environment.depth)
    (enough : position < rounds) :
    environment.search? name rounds (some position) = some (environment.resolveFrom name position) := by
  induction position using Nat.strongRecOn generalizing rounds with
  | ind position ih =>
    obtain ⟨rounds, rfl⟩ := Nat.exists_eq_add_one_of_ne_zero (Nat.ne_zero_of_lt enough)
    have found := List.getElem?_eq_getElem inside
    generalize environment.frames[position] = frame at found
    simp only [search?, found]
    cases binds : frame.find? name with
    | some bound => rw [resolveFrom_here name found binds]
    | none =>
      cases link : frame.parent with
      | none =>
        rw [resolveFrom_last name found binds link]
        cases rounds <;> rfl
      | some parent =>
        have outward := environment.linked position frame parent found link
        rw [resolveFrom_outer name found binds link]
        exact ih parent outward (Nat.lt_trans outward inside) (by omega)

/-- Every action does to the environment what it does to the stack. -/
theorem Upright.perform_agrees (upright : environment.Upright) (action : Action) :
    (environment.perform action).1 = (environment.scopes.perform action).1 ∧
      (environment.perform action).2.scopes = (environment.scopes.perform action).2 ∧
        (environment.perform action).2.Upright := by
  cases action with
  | push =>
    have index : environment.push.currentIndex = environment.scopes.rows.length := by
      rw [upright.rows, List.length_map]
      rfl
    exact ⟨congrArg Answer.entered index, environment.push_scopes, upright.push⟩
  | pop => exact ⟨rfl, environment.pop_scopes, upright.pop⟩
  | define name value => exact ⟨rfl, define_scopes name value environment, upright.setAt _ name value⟩
  | get name =>
    simp only [perform, Scopes.perform, Environment.get, find?_scopes]
    cases environment.scopes.find? name.lexeme with
    | some value => exact ⟨rfl, rfl, upright⟩
    | none => exact ⟨rfl, rfl, upright⟩
  | assign name value =>
    simp only [perform, Scopes.perform, Environment.assign, ← resolve?_scopes]
    cases environment.resolve? name.lexeme with
    | some owner => exact ⟨rfl, rfl, upright.setAt owner name.lexeme value⟩
    | none => exact ⟨rfl, rfl, upright⟩

theorem Upright.performAll_agrees (upright : environment.Upright) (actions : List Action) :
    (Action.performAll perform actions environment).1 =
        (Action.performAll Scopes.perform actions environment.scopes).1 ∧
      (Action.performAll perform actions environment).2.scopes =
          (Action.performAll Scopes.perform actions environment.scopes).2 ∧
        (Action.performAll perform actions environment).2.Upright := by
  induction actions generalizing environment with
  | nil => exact ⟨rfl, rfl, upright⟩
  | cons action rest ih =>
    obtain ⟨answer, after, kept⟩ := upright.perform_agrees action
    obtain ⟨answers, last, still⟩ := ih kept
    rw [after] at answers last
    refine ⟨?_, last, still⟩
    simp only [Action.performAll, answer, answers]

end Environment

private theorem Frame.find?_finite (frame : Frame) : {name | frame.find? name ≠ none}.Finite := by
  apply Set.Finite.subset (List.finite_toSet (frame.bindings.map Prod.fst))
  intro name bound
  by_contra absent
  apply bound
  apply List.lookup_eq_none_iff.mpr
  intro binding member
  apply bne_iff_ne.mpr
  rintro rfl
  exact absent (List.mem_map_of_mem member)

/-- Whatever is done from the start on, the answers are those of a stack of finite maps, and its maps
are those of the scopes, in order. No position that a search comes to is out of range, and it ends. -/
theorem scopes_stand_as_stack (actions : List Action) :
    let (answers, environment) := Action.performAll Environment.perform actions .new
    let (expected, stack) := Action.performAll Scopes.perform actions (.root .empty)
    answers = expected ∧ environment.frames.map Frame.find? = stack.rows ∧
      (∀ scope ∈ stack.rows, {name | scope name ≠ none}.Finite) ∧ environment.Upright ∧
      ∀ name, environment.search? name environment.depth (some environment.current) =
        some (environment.resolve? name) := by
  have start := Environment.Upright.performAll_agrees .new actions
  rw [Environment.new_scopes] at start
  obtain ⟨answers, stack, upright⟩ := start
  have rows := upright.rows
  rw [stack] at rows
  refine ⟨answers, rows.symm, ?_, upright, fun name => ?_⟩
  · intro scope member
    rw [rows] at member
    obtain ⟨frame, _, rfl⟩ := List.mem_map.mp member
    exact frame.find?_finite
  · exact Environment.search?_eq (Environment.inside _) (Environment.inside _)

end Lox
