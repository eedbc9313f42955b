import Lox.Environment

/-! The row of linked scopes, seen as a stack of maps. Following the links from the
innermost scope outwards meets every scope that a program can still name; what
stands beside that chain never shows. -/

namespace Lox

abbrev Scope := String → Option Value

namespace Scope

def empty : Scope := fun _ => none

def bind (scope : Scope) (name : String) (value : Value) : Scope :=
  fun other => if other = name then some value else scope other

end Scope

/-- A stack of maps that is never empty. Programs see nothing else of the scopes, whichever way these are
stored. -/
inductive Scopes where
  | root (scope : Scope)
  | inner (scope : Scope) (outer : Scopes)

namespace Scopes

def enter (scopes : Scopes) : Scopes := .inner .empty scopes

def leave : Scopes → Scopes
  | root scope => root scope
  | inner _ outer => outer

def define (scopes : Scopes) (name : String) (value : Value) : Scopes :=
  match scopes with
  | root scope => root (scope.bind name value)
  | inner scope outer => inner (scope.bind name value) outer

def find? (scopes : Scopes) (name : String) : Option Value :=
  match scopes with
  | root scope => scope name
  | inner scope outer =>
    match scope name with
    | some value => some value
    | none => outer.find? name

def assign? (scopes : Scopes) (name : String) (value : Value) : Option Scopes :=
  match scopes with
  | root scope =>
    match scope name with
    | some _ => some (root (scope.bind name value))
    | none => none
  | inner scope outer =>
    match scope name with
    | some _ => some (inner (scope.bind name value) outer)
    | none => (outer.assign? name value).map (inner scope)

end Scopes

namespace Frame

private theorem lookup_setIn (name other : String) (value : Value) (bindings : List (String × Value)) :
    (setIn name value bindings).lookup other = if other = name then some value else bindings.lookup other := by
  induction bindings with
  | nil =>
    rw [setIn, List.lookup_cons]
    split <;> simp_all
  | cons binding rest ih =>
    rw [setIn]
    split
    next same =>
      rw [List.lookup_cons, List.lookup_cons, same]
      split <;> simp_all
    next apart =>
      rw [List.lookup_cons, List.lookup_cons, ih]
      by_cases here : other = binding.1
      · have different : ¬ other = name := fun same => apart (here.symm.trans same)
        rw [beq_iff_eq.mpr here]
        exact (if_neg different).symm
      · rw [beq_eq_false_iff_ne.mpr here]

theorem set_find (frame : Frame) (name : String) (value : Value) :
    (frame.set name value).find? = Scope.bind frame.find? name value :=
  funext fun other => lookup_setIn name other value frame.bindings

end Frame

namespace Environment

def scopesFrom (environment : Environment) (position : Nat) : Scopes :=
  match _found : environment.frames[position]? with
  | none => .root .empty
  | some frame =>
    match _link : frame.parent with
    | none => .root frame.find?
    | some parent => .inner frame.find? (environment.scopesFrom parent)
termination_by position
decreasing_by exact environment.linked position frame parent _found _link

def scopes (environment : Environment) : Scopes := environment.scopesFrom environment.current

variable {environment other : Environment} {position : Nat} {frame : Frame}

theorem scopesFrom_root (found : environment.frames[position]? = some frame) (last : frame.parent = none) :
    environment.scopesFrom position = .root frame.find? := by
  rw [scopesFrom]
  split
  next missing => simp_all
  next same =>
    cases found.symm.trans same
    split
    next => rfl
    next link => simp_all

theorem scopesFrom_inner {parent : Nat} (found : environment.frames[position]? = some frame)
    (link : frame.parent = some parent) :
    environment.scopesFrom position = .inner frame.find? (environment.scopesFrom parent) := by
  rw [scopesFrom]
  split
  next missing => simp_all
  next same =>
    cases found.symm.trans same
    split
    next => simp_all
    next other =>
      cases link.symm.trans other
      rfl

private theorem scopesFrom_missing (missing : environment.frames[position]? = none) :
    environment.scopesFrom position = .root .empty := by
  rw [scopesFrom]
  split
  next => rfl
  next => simp_all

/-- Only the frames up to a position are seen from it. -/
private theorem scopesFrom_congr (same : ∀ index ≤ position, environment.frames[index]? = other.frames[index]?) :
    environment.scopesFrom position = other.scopesFrom position := by
  induction position using Nat.strongRecOn with
  | ind position ih =>
    have here := same position (Nat.le_refl position)
    cases found : environment.frames[position]? with
    | none => rw [scopesFrom_missing found, scopesFrom_missing (here.symm.trans found)]
    | some frame =>
      cases link : frame.parent with
      | none => rw [scopesFrom_root found link, scopesFrom_root (here.symm.trans found) link]
      | some parent =>
        have outward := environment.linked position frame parent found link
        rw [scopesFrom_inner found link, scopesFrom_inner (here.symm.trans found) link]
        rw [ih parent outward fun index inside => same index (by omega)]

theorem currentFrame_found (environment : Environment) :
    environment.frames[environment.current]? = some environment.currentFrame :=
  List.getElem?_eq_getElem environment.inside

theorem new_scopes : new.scopes = .root .empty :=
  scopesFrom_root new.currentFrame_found rfl

theorem push_scopes (environment : Environment) : environment.push.scopes = environment.scopes.enter := by
  have inside := environment.inside
  have found : environment.push.frames[environment.frames.length]? = some (Frame.empty (some environment.current)) :=
    List.getElem?_concat_length
  have outer : environment.push.scopesFrom environment.current = environment.scopes := by
    apply scopesFrom_congr
    intro index below
    exact List.getElem?_append_left (by omega)
  exact (scopesFrom_inner found rfl).trans (congrArg (Scopes.inner Scope.empty) outer)

theorem pop_scopes (environment : Environment) : environment.pop.scopes = environment.scopes.leave := by
  rw [pop]
  split
  next last =>
    rw [scopes, scopesFrom_root environment.currentFrame_found last]
    rfl
  next parent link =>
    have outward := environment.linked _ _ _ environment.currentFrame_found link
    rw [scopes, scopes, scopesFrom_inner environment.currentFrame_found link]
    apply scopesFrom_congr
    intro index inside
    exact List.getElem?_take_of_lt (Nat.lt_of_le_of_lt inside outward)

section Variables
variable (name : String) (value : Value)

theorem setAt_found (found : environment.frames[position]? = some frame) :
    (environment.setAt position name value).frames[position]? = some (frame.set name value) := by
  simp only [setAt, List.getElem?_modify_eq, found, Option.map_eq_map, Option.map_some]

theorem setAt_apart {index : Nat} (apart : index ≠ position) :
    (environment.setAt position name value).frames[index]? = environment.frames[index]? :=
  List.getElem?_modify_ne _ _ apart.symm

private theorem setAt_scopesFrom (found : environment.frames[position]? = some frame) :
    (environment.setAt position name value).scopesFrom position = (environment.scopesFrom position).define name value := by
  have changed := setAt_found name value found
  cases link : frame.parent with
  | none =>
    rw [scopesFrom_root changed link, scopesFrom_root found link, Frame.set_find]
    rfl
  | some parent =>
    have outward := environment.linked position frame parent found link
    have outer : (environment.setAt position name value).scopesFrom parent = environment.scopesFrom parent := by
      apply scopesFrom_congr
      intro index inside
      exact setAt_apart name value (by omega)
    rw [scopesFrom_inner changed link, scopesFrom_inner found link, Frame.set_find, outer]
    rfl

theorem define_scopes (environment : Environment) :
    (environment.define name value).scopes = environment.scopes.define name value :=
  setAt_scopesFrom name value environment.currentFrame_found

theorem resolveFrom_here {bound : Value} (found : environment.frames[position]? = some frame)
    (binds : frame.find? name = some bound) : environment.resolveFrom name position = some position := by
  rw [resolveFrom]
  split
  next missing => simp_all
  next same =>
    cases found.symm.trans same
    rw [binds]

theorem resolveFrom_last (found : environment.frames[position]? = some frame) (lacks : frame.find? name = none)
    (last : frame.parent = none) : environment.resolveFrom name position = none := by
  rw [resolveFrom]
  split
  next missing => simp_all
  next same =>
    cases found.symm.trans same
    simp only [lacks]
    split
    next => rfl
    next link => cases last.symm.trans link

theorem resolveFrom_outer {parent : Nat} (found : environment.frames[position]? = some frame)
    (lacks : frame.find? name = none) (link : frame.parent = some parent) :
    environment.resolveFrom name position = environment.resolveFrom name parent := by
  rw [resolveFrom]
  split
  next missing => simp_all
  next same =>
    cases found.symm.trans same
    simp only [lacks]
    split
    next other => cases link.symm.trans other
    next other =>
      cases link.symm.trans other
      rfl

/-- What resolving a name from a position gives, and how the maps seen from there change when
the variable that was found is set. -/
theorem resolveFrom_spec (inside : position < environment.frames.length) :
    match environment.resolveFrom name position with
    | some owner =>
      owner ≤ position ∧
        (environment.frames[owner]?.bind (·.find? name)) = (environment.scopesFrom position).find? name ∧
        some ((environment.setAt owner name value).scopesFrom position) =
          (environment.scopesFrom position).assign? name value
    | none =>
      (environment.scopesFrom position).find? name = none ∧
        (environment.scopesFrom position).assign? name value = none := by
  induction position using Nat.strongRecOn with
  | ind position ih =>
    have found := List.getElem?_eq_getElem inside
    generalize environment.frames[position] = frame at found
    cases binds : frame.find? name with
    | some bound =>
      rw [resolveFrom_here name found binds]
      have changed := setAt_scopesFrom name value found
      refine ⟨Nat.le_refl position, ?_⟩
      rw [changed]
      cases link : frame.parent with
      | none => simp only [scopesFrom_root found link, Scopes.find?, Scopes.assign?, Scopes.define, found, binds,
          Option.bind_some, and_self]
      | some parent => simp only [scopesFrom_inner found link, Scopes.find?, Scopes.assign?, Scopes.define, found,
          binds, Option.bind_some, and_self]
    | none =>
      cases link : frame.parent with
      | none =>
        rw [resolveFrom_last name found binds link]
        simp only [scopesFrom_root found link, Scopes.find?, Scopes.assign?, binds, and_self]
      | some parent =>
        have outward := environment.linked position frame parent found link
        have outer := ih parent outward (Nat.lt_trans outward inside)
        rw [resolveFrom_outer name found binds link, scopesFrom_inner found link]
        simp only [Scopes.find?, Scopes.assign?, binds]
        split
        next owner resolved =>
          rw [resolved] at outer
          obtain ⟨below, sees, assigned⟩ := outer
          have apart : position ≠ owner := by omega
          have kept := (setAt_apart name value apart).trans found
          refine ⟨by omega, sees, ?_⟩
          rw [scopesFrom_inner kept link, ← assigned]
          rfl
        next resolved =>
          rw [resolved] at outer
          exact ⟨outer.1, by rw [outer.2]; rfl⟩

theorem find?_scopes (environment : Environment) : environment.find? name = environment.scopes.find? name := by
  have spec := resolveFrom_spec name .nil environment.inside
  rw [find?, resolve?, scopes]
  split at spec
  next owner resolved => rw [resolved, ← spec.2.1, Option.bind_some]
  next resolved => rw [resolved, spec.1, Option.bind_none]

theorem resolve?_scopes (environment : Environment) :
    (environment.resolve? name).map (fun owner => (environment.setAt owner name value).scopes) =
      environment.scopes.assign? name value := by
  have spec := resolveFrom_spec name value environment.inside
  rw [resolve?, scopes]
  split at spec
  next owner resolved =>
    rw [resolved, ← spec.2.2]
    rfl
  next resolved => rw [resolved, spec.2, Option.map_none]

end Variables

theorem get_eq_ok {name : Token} {value : Value} :
    environment.get name = .ok value ↔ environment.scopes.find? name.lexeme = some value := by
  rw [get, find?_scopes]
  split
  next same => rw [same]; simp only [Except.ok.injEq, Option.some.injEq]
  next same => rw [same]; simp only [reduceCtorEq]

theorem get_eq_error {name : Token} {error : RuntimeError} :
    environment.get name = .error error ↔
      environment.scopes.find? name.lexeme = none ∧ error = .undefined name := by
  rw [get, find?_scopes]
  split
  next same => rw [same]; simp only [reduceCtorEq, false_and]
  next same => rw [same]; simp only [Except.error.injEq, true_and, eq_comm]

end Environment

end Lox
