import Lox.Proofs.Scopes

/-! What a piece of program may do to the scopes. All changes made while a scope is
open are judged from where it was opened, so that those in inner scopes add up
and those of a scope that is left fall away. -/

namespace Lox.Environment

def valueAt (environment : Environment) (position : Nat) (name : String) : Option Value :=
  environment.frames[position]?.bind (·.find? name)

def Binds (environment : Environment) (position : Nat) (name : String) : Prop :=
  ∃ value, environment.valueAt position name = some value

/-- The scopes are the same ones with the same links. Only the current one may have
got names, those in `declared`. Only names in `targets` may have other values, and
those in `declared` in the current scope. -/
structure Balanced (targets declared : List String) (before after : Environment) : Prop where
  depth : after.depth = before.depth
  current : after.current = before.current
  links : ∀ position : Nat, after.frames[position]?.map Frame.parent = before.frames[position]?.map Frame.parent
  others : ∀ position, position ≠ before.current → ∀ name, after.Binds position name ↔ before.Binds position name
  kept : ∀ name, before.Binds before.current name → after.Binds before.current name
  gained : ∀ name, after.Binds before.current name → before.Binds before.current name ∨ name ∈ declared
  values : ∀ position name, after.valueAt position name = before.valueAt position name ∨ name ∈ targets ∨
    position = before.current ∧ name ∈ declared

namespace Balanced
variable {targets declared wider more : List String} {before middle after : Environment}

theorem refl (targets declared : List String) (environment : Environment) :
    Balanced targets declared environment environment :=
  ⟨rfl, rfl, fun _ => rfl, fun _ _ _ => Iff.rfl, fun _ => id, fun _ => .inl, fun _ _ => .inl rfl⟩

theorem trans (first : Balanced targets declared before middle) (second : Balanced targets declared middle after) :
    Balanced targets declared before after := by
  have current := first.current
  refine ⟨second.depth.trans first.depth, second.current.trans current, ?_, ?_, ?_, ?_, ?_⟩
  · intro position
    exact (second.links position).trans (first.links position)
  · intro position apart name
    exact (second.others position (current ▸ apart) name).trans (first.others position apart name)
  · intro name bound
    have between := first.kept name bound
    rw [← current] at between ⊢
    exact second.kept name between
  · intro name bound
    rw [← current] at bound
    rcases second.gained name bound with between | new
    · rw [current] at between
      exact first.gained name between
    · exact .inr new
  · intro position name
    rcases second.values position name with same | target | ⟨here, new⟩
    · rw [same]
      exact first.values position name
    · exact .inr (.inl target)
    · exact .inr (.inr ⟨here.trans current, new⟩)

theorem mono (balanced : Balanced targets declared before after) (assigns : targets ⊆ wider)
    (declares : declared ⊆ more) : Balanced wider more before after where
  depth := balanced.depth
  current := balanced.current
  links := balanced.links
  others := balanced.others
  kept := balanced.kept
  gained name bound := (balanced.gained name bound).imp_right fun new => declares new
  values position name :=
    (balanced.values position name).imp_right (Or.imp (fun target => assigns target) (And.imp_right fun new => declares new))

/-- Without declarations every scope keeps exactly its names. -/
theorem binds_iff (balanced : Balanced targets [] before after) (position : Nat) (name : String) :
    after.Binds position name ↔ before.Binds position name := by
  by_cases here : position = before.current
  · subst here
    constructor
    · intro bound
      exact (balanced.gained name bound).resolve_right List.not_mem_nil
    · exact balanced.kept name
  · exact balanced.others position here name

end Balanced

section Variables
variable {environment : Environment} {position : Nat} {name : String}

theorem valueAt_setAt (inside : position < environment.depth) (name : String) (value : Value) (index : Nat)
    (other : String) :
    (environment.setAt position name value).valueAt index other =
      if index = position ∧ other = name then some value else environment.valueAt index other := by
  by_cases here : index = position
  · subst here
    have found := List.getElem?_eq_getElem inside
    simp only [valueAt, setAt_found name value found, found, Option.bind_some, Frame.set_find, Scope.bind, true_and]
  · rw [if_neg (fun both => here both.1), valueAt, setAt_apart name value here]
    rfl

theorem binds_setAt (inside : position < environment.depth) (name : String) (value : Value) (index : Nat)
    (other : String) :
    (environment.setAt position name value).Binds index other ↔
      index = position ∧ other = name ∨ environment.Binds index other := by
  unfold Binds
  rw [valueAt_setAt inside]
  split
  next same => exact iff_of_true ⟨value, rfl⟩ (.inl same)
  next apart => simp only [apart, false_or]

theorem setAt_links (environment : Environment) (position : Nat) (name : String) (value : Value) (index : Nat) :
    (environment.setAt position name value).frames[index]?.map Frame.parent =
      environment.frames[index]?.map Frame.parent := by
  simp only [setAt, List.getElem?_modify, Option.map_eq_map]
  cases environment.frames[index]? with
  | none => rfl
  | some frame =>
    simp only [Option.map_some]
    split <;> rfl

theorem setAt_depth (environment : Environment) (position : Nat) (name : String) (value : Value) :
    (environment.setAt position name value).depth = environment.depth :=
  List.length_modify ..

/-- Setting a variable is assigning it where the scope has it, and declaring it in the current one. -/
private theorem setAt_balanced {targets declared : List String} (inside : position < environment.depth) (value : Value)
    (assigned : environment.Binds position name → name ∈ targets ∨ position = environment.current ∧ name ∈ declared)
    (new : ¬ environment.Binds position name → position = environment.current ∧ name ∈ declared) :
    Balanced targets declared environment (environment.setAt position name value) := by
  have binds := binds_setAt inside name value
  refine ⟨setAt_depth .., rfl, setAt_links environment position name value, ?_, ?_, ?_, ?_⟩
  · intro index apart other
    rw [binds]
    constructor
    · rintro (⟨rfl, rfl⟩ | bound)
      · by_cases present : environment.Binds index other
        · exact present
        · exact absurd (new present).1 apart
      · exact bound
    · exact .inr
  · intro other bound
    exact (binds _ other).mpr (.inr bound)
  · intro other bound
    rcases (binds _ other).mp bound with ⟨rfl, rfl⟩ | present
    · by_cases present : environment.Binds environment.current other
      · exact .inl present
      · exact .inr (new present).2
    · exact .inl present
  · intro index other
    rw [valueAt_setAt inside]
    split
    next same =>
      obtain ⟨rfl, rfl⟩ := same
      by_cases present : environment.Binds index other
      · exact .inr (assigned present)
      · exact .inr (.inr (new present))
    next => exact .inl rfl

theorem define_balanced (environment : Environment) (name : String) (value : Value) :
    Balanced [] [name] environment (environment.define name value) :=
  setAt_balanced environment.inside value (fun _ => .inr ⟨rfl, List.mem_singleton_self name⟩)
    fun _ => ⟨rfl, List.mem_singleton_self name⟩

theorem binds_of_resolveFrom {owner : Nat} (inside : position < environment.depth)
    (resolved : environment.resolveFrom name position = some owner) :
    owner < environment.depth ∧ environment.Binds owner name := by
  induction position using Nat.strongRecOn with
  | ind position ih =>
    have found := List.getElem?_eq_getElem inside
    generalize environment.frames[position] = frame at found
    cases binds : frame.find? name with
    | some bound =>
      obtain rfl : position = owner := Option.some.inj ((resolveFrom_here name found binds).symm.trans resolved)
      exact ⟨inside, bound, by rw [valueAt, found, Option.bind_some, binds]⟩
    | none =>
      cases link : frame.parent with
      | none =>
        rw [resolveFrom_last name found binds link] at resolved
        cases resolved
      | some parent =>
        have outward := environment.linked position frame parent found link
        rw [resolveFrom_outer name found binds link] at resolved
        exact ih parent outward (Nat.lt_trans outward inside) resolved

theorem assign_balanced {token : Token} {value : Value} {changed : Environment}
    (assigned : environment.assign token value = .ok changed) :
    Balanced [token.lexeme] [] environment changed := by
  rw [assign] at assigned
  split at assigned
  next owner resolved =>
    cases assigned
    obtain ⟨inside, bound⟩ := binds_of_resolveFrom environment.inside resolved
    exact setAt_balanced inside value (fun _ => .inl (List.mem_singleton_self _)) fun missing => absurd bound missing
  next => cases assigned

end Variables

section Blocks
variable {targets declared : List String} {before after : Environment}

theorem push_depth (environment : Environment) : environment.push.depth = environment.depth + 1 :=
  List.length_append ..

theorem push_getElem? (environment : Environment) (position : Nat) :
    environment.push.frames[position]? =
      if position = environment.depth then some (Frame.empty (some environment.current))
      else environment.frames[position]? := by
  simp only [push, depth, List.getElem?_append]
  grind

private theorem push_inside {position : Nat} (inside : position < before.depth) :
    before.push.frames[position]? = before.frames[position]? :=
  List.getElem?_append_left inside

theorem push_valueAt (environment : Environment) (position : Nat) (name : String) :
    environment.push.valueAt position name = environment.valueAt position name := by
  rw [valueAt, valueAt, push_getElem?]
  split
  next last =>
    rw [last, depth, List.getElem?_eq_none (Nat.le_refl _)]
    rfl
  next => rfl

theorem pop_eq {environment : Environment} {parent : Nat} (link : environment.currentFrame.parent = some parent) :
    environment.pop.frames = environment.frames.take environment.current ∧ environment.pop.current = parent := by
  rw [pop]
  split
  next last => cases link.symm.trans last
  next other same =>
    cases link.symm.trans same
    exact ⟨rfl, rfl⟩

/-- Leaving a block drops its scope, and all that were opened in it. -/
theorem Balanced.pop_frames (inner : Balanced targets declared before.push after) :
    after.pop.frames = after.frames.take before.depth ∧ after.pop.current = before.current := by
  have current : after.current = before.depth := inner.current
  have link : after.currentFrame.parent = some before.current := by
    have linked := inner.links before.depth
    rw [show before.push.frames[before.depth]? = some (Frame.empty (some before.current)) from
      List.getElem?_concat_length, ← current, after.currentFrame_found] at linked
    exact Option.some.inj linked
  obtain ⟨frames, outward⟩ := pop_eq link
  rw [current] at frames
  exact ⟨frames, outward⟩

theorem Balanced.pop_getElem? (inner : Balanced targets declared before.push after) (position : Nat) :
    after.pop.frames[position]? = if position < before.depth then after.frames[position]? else none := by
  rw [inner.pop_frames.1, List.getElem?_take]

/-- A position is one of a scope outside the block, which stays, or it is one of no scope. -/
private theorem Balanced.pop_position (inner : Balanced targets declared before.push after) (position : Nat) :
    position ≠ before.push.current ∧ after.pop.frames[position]? = after.frames[position]? ∧
        before.frames[position]? = before.push.frames[position]? ∨
      after.pop.frames[position]? = none ∧ before.frames[position]? = none := by
  rw [inner.pop_getElem?]
  split
  next inside => exact .inl ⟨Nat.ne_of_lt inside, rfl, (push_inside inside).symm⟩
  next outside => exact .inr ⟨rfl, List.getElem?_eq_none (Nat.le_of_not_lt outside)⟩

theorem Balanced.pop_binds (inner : Balanced targets declared before.push after) (position : Nat) (name : String) :
    after.pop.Binds position name ↔ before.Binds position name := by
  rcases inner.pop_position position with ⟨outer, left, kept⟩ | ⟨left, kept⟩
  · have same := inner.others position outer name
    simpa only [Binds, valueAt, left, kept] using same
  · simp only [Binds, valueAt, left, kept]

/-- What a block declares is gone with its scope. -/
theorem Balanced.leave (inner : Balanced targets declared before.push after) :
    Balanced targets [] before after.pop := by
  obtain ⟨frames, outward⟩ := inner.pop_frames
  refine ⟨?_, outward, ?_, fun position _ => inner.pop_binds position, fun name => (inner.pop_binds _ name).mpr,
    fun name bound => .inl ((inner.pop_binds _ name).mp bound), ?_⟩
  · have depth : after.depth = before.depth + 1 := inner.depth.trans before.push_depth
    rw [Environment.depth, frames, List.length_take]
    unfold Environment.depth at depth ⊢
    omega
  · intro position
    rcases inner.pop_position position with ⟨outer, left, kept⟩ | ⟨left, kept⟩
    · rw [left, kept]
      exact inner.links position
    · rw [left, kept]
  · intro position name
    rcases inner.pop_position position with ⟨outer, left, kept⟩ | ⟨left, kept⟩
    · rw [valueAt, valueAt, left, kept]
      rcases inner.values position name with same | target | ⟨here, _⟩
      · exact .inl same
      · exact .inr (.inl target)
      · exact absurd here outer
    · rw [valueAt, valueAt, left, kept]
      exact .inl rfl

end Blocks

end Lox.Environment
