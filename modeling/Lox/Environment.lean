import Lox.RuntimeError

/-! Variables in nested scopes. The scopes stand in a row, and each of them but the outermost, which
is never left, knows the position of the scope around it. -/

namespace Lox

/-- The variables of one scope, in the order in which they were first declared. -/
structure Frame where
  bindings : List (String × Value)
  /-- The position of the scope around it. -/
  parent : Option Nat
deriving DecidableEq

namespace Frame

def empty (parent : Option Nat) : Frame := ⟨[], parent⟩

def find? (frame : Frame) (name : String) : Option Value := frame.bindings.lookup name

/-- The bindings after one of them is set; a new one comes last. -/
def setIn (name : String) (value : Value) : List (String × Value) → List (String × Value)
  | [] => [(name, value)]
  | binding :: rest =>
    if binding.1 = name then (name, value) :: rest else binding :: setIn name value rest

def set (frame : Frame) (name : String) (value : Value) : Frame :=
  { frame with bindings := setIn name value frame.bindings }

/-- Every scope stands behind the one around it, so that going outwards comes to an end. -/
def Linked (frames : List Frame) : Prop :=
  ∀ (position : Nat) (frame : Frame) (parent : Nat),
    frames[position]? = some frame → frame.parent = some parent → parent < position

theorem Linked.single : Linked [empty none] := by
  intro position frame parent found link
  obtain rfl := List.mem_singleton.mp (List.mem_of_getElem? found)
  cases link

theorem Linked.append {frames : List Frame} (linked : Linked frames) {parent : Nat}
    (inside : parent < frames.length) : Linked (frames ++ [empty (some parent)]) := by
  intro position frame outer found link
  rw [List.getElem?_append] at found
  split at found
  · exact linked position frame outer found link
  · obtain rfl := List.mem_singleton.mp (List.mem_of_getElem? found)
    cases link
    omega

theorem Linked.take {frames : List Frame} (linked : Linked frames) (count : Nat) :
    Linked (frames.take count) := by
  intro position frame parent found link
  rw [List.getElem?_take] at found
  split at found
  · exact linked position frame parent found link
  · cases found

theorem Linked.set {frames : List Frame} (linked : Linked frames) (index : Nat) (name : String) (value : Value) :
    Linked (frames.modify index (·.set name value)) := by
  intro position frame parent found link
  rw [List.getElem?_modify] at found
  obtain ⟨before, present, rfl⟩ := Option.map_eq_some_iff.mp found
  refine linked position before parent present ?_
  split at link <;> exact link

end Frame

/-- The scopes around a place of the program. -/
structure Environment where
  /-- All scopes, the outermost first. -/
  frames : List Frame
  /-- The position of the innermost scope. -/
  current : Nat
  inside : current < frames.length
  linked : Frame.Linked frames
deriving DecidableEq

namespace Environment

def new : Environment := ⟨[Frame.empty none], 0, Nat.zero_lt_one, Frame.Linked.single⟩

def depth (environment : Environment) : Nat := environment.frames.length

/-- The number of the innermost scope, counted from 0 at the outermost. -/
def currentIndex (environment : Environment) : Nat := environment.current

def currentFrame (environment : Environment) : Frame :=
  environment.frames.get ⟨environment.current, environment.inside⟩

def push (environment : Environment) : Environment where
  frames := environment.frames ++ [Frame.empty (some environment.current)]
  current := environment.frames.length
  inside := by simp
  linked := environment.linked.append environment.inside

/-- Leave the innermost scope, unless it is the outermost too. -/
def pop (environment : Environment) : Environment :=
  match link : environment.currentFrame.parent with
  | none => environment
  | some parent =>
    { frames := environment.frames.take environment.current
      current := parent
      inside := by
        have outward := environment.linked _ _ parent (List.getElem?_eq_getElem environment.inside) link
        rw [List.length_take]
        exact Nat.lt_min.mpr ⟨outward, Nat.lt_trans outward environment.inside⟩
      linked := environment.linked.take environment.current }

/-- Set a variable of the scope at a position. -/
def setAt (environment : Environment) (position : Nat) (name : String) (value : Value) : Environment where
  frames := environment.frames.modify position (·.set name value)
  current := environment.current
  inside := by rw [List.length_modify]; exact environment.inside
  linked := environment.linked.set position name value

def define (environment : Environment) (name : String) (value : Value) : Environment :=
  environment.setAt environment.current name value

/-- The position of the first scope, from the given one outwards, that has a variable. -/
def resolveFrom (environment : Environment) (name : String) (position : Nat) : Option Nat :=
  match _found : environment.frames[position]? with
  | none => none
  | some frame =>
    match frame.find? name with
    | some _ => some position
    | none =>
      match _link : frame.parent with
      | none => none
      | some parent => environment.resolveFrom name parent
termination_by position
decreasing_by exact environment.linked position frame parent _found _link

/-- The position of the innermost scope that has a variable. -/
def resolve? (environment : Environment) (name : String) : Option Nat :=
  environment.resolveFrom name environment.current

/-- The value of a variable in the innermost scope that has it. -/
def find? (environment : Environment) (name : String) : Option Value :=
  (environment.resolve? name).bind fun position =>
    environment.frames[position]?.bind (·.find? name)

/-- The value of the variable that a token names. -/
def get (environment : Environment) (name : Token) : Except RuntimeError Value :=
  match environment.find? name.lexeme with
  | some value => .ok value
  | none => .error (.undefined name)

/-- Change the value of the variable that a token names, in the innermost scope that has it. -/
def assign (environment : Environment) (name : Token) (value : Value) : Except RuntimeError Environment :=
  match environment.resolve? name.lexeme with
  | some position => .ok (environment.setAt position name.lexeme value)
  | none => .error (.undefined name)

end Environment

end Lox
