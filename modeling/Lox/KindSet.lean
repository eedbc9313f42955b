import Lox.Kind

/-! Sets of token kinds, one bit for each kind. Membership after an insertion is decided by
comparing kinds, since no two kinds share a bit. -/

namespace Lox

/-- A set of kinds; the bit at a kind's index says whether the kind is in it. -/
structure KindSet where
  bits : BitVec Kind.count
deriving DecidableEq

namespace KindSet

def empty : KindSet := ⟨0⟩

def insert (kinds : KindSet) (kind : Kind) : KindSet := ⟨kinds.bits ||| BitVec.twoPow Kind.count kind.index⟩

def contains (kinds : KindSet) (kind : Kind) : Bool := kinds.bits.getLsbD kind.index

/-- Add the kinds of a list, one after another. -/
def insertAll (kinds : KindSet) (added : List Kind) : KindSet := added.foldl insert kinds

def ofList (kinds : List Kind) : KindSet := empty.insertAll kinds

def toList (kinds : KindSet) : List Kind := Kind.all.filter kinds.contains

theorem contains_empty (kind : Kind) : empty.contains kind = false := by
  simp [empty, contains]

theorem contains_insert (kinds : KindSet) (added kind : Kind) :
    (kinds.insert added).contains kind = (kinds.contains kind || decide (added = kind)) := by
  have bounded := added.index_lt_count
  by_cases same : added = kind
  · subst same
    simp [insert, contains, bounded]
  · have apart : added.index ≠ kind.index := fun equal => same (Kind.index_injective equal)
    simp [insert, contains, BitVec.getLsbD_twoPow, same, apart]

theorem contains_insertAll (kinds : KindSet) (added : List Kind) (kind : Kind) :
    (kinds.insertAll added).contains kind = (kinds.contains kind || decide (kind ∈ added)) := by
  induction added generalizing kinds with
  | nil => simp [insertAll]
  | cons first rest ih =>
    have step : kinds.insertAll (first :: rest) = (kinds.insert first).insertAll rest := rfl
    rw [step, ih, contains_insert, Bool.or_assoc]
    simp only [List.mem_cons, Bool.decide_or, eq_comm]

/-- A set made from a list has the members of the list. -/
theorem contains_ofList (kinds : List Kind) (kind : Kind) :
    (ofList kinds).contains kind = decide (kind ∈ kinds) := by
  rw [ofList, contains_insertAll, contains_empty, Bool.false_or]

end KindSet

end Lox
