import Mathlib.Data.List.Dedup
import Lox.KindSet

/-! Sets of kinds in machine words. A word gets the bits of its kinds and no others, so
that words are equal exactly when they hold the same kinds. -/

namespace Lox

namespace Kind

def bit (kind : Kind) : UInt64 := 1 <<< UInt64.ofNat kind.index

/-- A word has room for every kind, so that shifting by an index never wraps around. -/
private theorem index_lt_width (kind : Kind) : kind.index < 64 := Nat.lt_trans kind.index_lt_count (by decide)

private theorem toBitVec_bit (kind : Kind) : kind.bit.toBitVec = BitVec.twoPow 64 kind.index := by
  have shift : ((UInt64.ofNat kind.index).toBitVec % 64).toNat = kind.index := by
    have room := kind.index_lt_width
    simp
    omega
  rw [bit, UInt64.toBitVec_shiftLeft, BitVec.shiftLeft_eq', shift, BitVec.twoPow_eq]
  rfl

private theorem getLsbD_bit (kind : Kind) (place : Nat) : kind.bit.toBitVec.getLsbD place = decide (kind.index = place) := by
  have room := kind.index_lt_width
  rw [toBitVec_bit, BitVec.getLsbD_twoPow, decide_eq_true room, Bool.true_and]

end Kind

namespace KindSet

def word (kinds : KindSet) : UInt64 := .ofBitVec (kinds.bits.setWidth 64)

private theorem getLsbD_word (kinds : KindSet) (place : Nat) :
    kinds.word.toBitVec.getLsbD place = kinds.bits.getLsbD place := by
  show (kinds.bits.setWidth 64).getLsbD place = _
  rw [BitVec.getLsbD_setWidth]
  by_cases inside : place < 64
  · rw [decide_eq_true inside, Bool.true_and]
  · have beyond : Kind.count ≤ place := Nat.le_trans (by decide) (Nat.le_of_not_lt inside)
    rw [BitVec.getLsbD_of_ge _ _ beyond, Bool.and_false]

theorem word_injective : Function.Injective word := by
  intro ⟨left⟩ ⟨right⟩ same
  have bits : left = right := BitVec.eq_of_getLsbD_eq fun place _ => by
    have found := congrArg (fun word : UInt64 => word.toBitVec.getLsbD place) same
    simpa only [getLsbD_word] using found
  rw [bits]

theorem word_insert (kinds : KindSet) (kind : Kind) : (kinds.insert kind).word = kinds.word ||| kind.bit := by
  refine UInt64.eq_of_toBitVec_eq (BitVec.eq_of_getLsbD_eq fun place _ => ?_)
  have fits := kind.index_lt_count
  rw [UInt64.toBitVec_or, BitVec.getLsbD_or, getLsbD_word, getLsbD_word, Kind.getLsbD_bit, insert, BitVec.getLsbD_or,
    BitVec.getLsbD_twoPow, decide_eq_true fits, Bool.true_and]

/-- Membership is a probe of the word with the bit of the kind. -/
theorem contains_iff_word (kinds : KindSet) (kind : Kind) :
    kinds.contains kind = true ↔ kinds.word &&& kind.bit ≠ 0 := by
  have nonzero : BitVec.twoPow 64 kind.index ≠ 0 := by
    rw [← Kind.toBitVec_bit]
    intro zero
    have own := kind.getLsbD_bit kind.index
    rw [zero, decide_eq_true rfl] at own
    exact absurd own (by simp)
  have probe : (kinds.word &&& kind.bit).toBitVec =
      if kinds.contains kind then BitVec.twoPow 64 kind.index else 0 := by
    rw [UInt64.toBitVec_and, Kind.toBitVec_bit, BitVec.and_twoPow, getLsbD_word]
    rfl
  rw [Ne, ← UInt64.toBitVec_inj, probe]
  cases kinds.contains kind with
  | true => simpa using nonzero
  | false => simp

theorem word_insertAll (kinds : KindSet) (added : List Kind) :
    (kinds.insertAll added).word = added.foldl (fun word kind => word ||| kind.bit) kinds.word := by
  induction added generalizing kinds with
  | nil => rfl
  | cons first rest ih =>
    rw [List.foldl_cons, ← word_insert, ← ih]
    rfl

/-- A set made from a list has the word made from the bits of the list. -/
theorem word_ofList (kinds : List Kind) : (ofList kinds).word = kinds.foldl (fun word kind => word ||| kind.bit) 0 :=
  word_insertAll empty kinds

/-- Which bits are set by a list of kinds, among them those that stand for no kind. -/
private theorem getLsbD_insertAll (kinds : KindSet) (added : List Kind) (place : Nat) :
    (kinds.insertAll added).word.toBitVec.getLsbD place =
      (kinds.word.toBitVec.getLsbD place || decide (place ∈ added.map Kind.index)) := by
  induction added generalizing kinds with
  | nil => simp [insertAll]
  | cons first rest ih =>
    have step : kinds.insertAll (first :: rest) = (kinds.insert first).insertAll rest := rfl
    rw [step, ih, word_insert, UInt64.toBitVec_or, BitVec.getLsbD_or, Kind.getLsbD_bit, Bool.or_assoc]
    simp only [List.map_cons, List.mem_cons, Bool.decide_or, eq_comm]

theorem getLsbD_ofList (kinds : List Kind) (place : Nat) :
    (ofList kinds).word.toBitVec.getLsbD place = true ↔ ∃ kind ∈ kinds, kind.index = place := by
  have start : empty.word.toBitVec.getLsbD place = false := by
    rw [getLsbD_word]
    exact BitVec.getLsbD_zero
  rw [ofList, getLsbD_insertAll, start, Bool.false_or, decide_eq_true_eq, List.mem_map]

/-- Lists make the same word only if they have the same members. -/
theorem ofList_eq_iff (left right : List Kind) :
    ofList left = ofList right ↔ ∀ kind, kind ∈ left ↔ kind ∈ right := by
  constructor
  · intro same kind
    rw [← decide_eq_decide, ← contains_ofList, ← contains_ofList, same]
  · intro same
    refine word_injective (UInt64.eq_of_toBitVec_eq (BitVec.eq_of_getLsbD_eq fun place _ => ?_))
    rw [Bool.eq_iff_iff, getLsbD_ofList, getLsbD_ofList]
    simp only [same]

end KindSet

/-- Inserting the kinds of a list one after another makes a set of exactly these kinds, in whatever order
and however often they are listed. Its word has the bits of these kinds and no others, so that two lists
make one word exactly when they have the same members. -/
theorem kind_sets_hold_listed_kinds (kinds others : List Kind) :
    (∀ kind, (KindSet.ofList kinds).contains kind = true ↔ kind ∈ kinds) ∧
    (kinds.Perm others → KindSet.ofList kinds = KindSet.ofList others) ∧
    KindSet.ofList kinds.dedup = KindSet.ofList kinds ∧
    (KindSet.ofList kinds = KindSet.ofList others ↔ ∀ kind, kind ∈ kinds ↔ kind ∈ others) ∧
    (KindSet.ofList kinds).word = kinds.foldl (fun word kind => word ||| kind.bit) 0 ∧
    (∀ kind, (KindSet.ofList kinds).word &&& kind.bit ≠ 0 ↔ kind ∈ kinds) ∧
    (∀ place, (KindSet.ofList kinds).word.toBitVec.getLsbD place = true ↔ ∃ kind ∈ kinds, kind.index = place) ∧
    ((KindSet.ofList kinds).word = (KindSet.ofList others).word ↔ ∀ kind, kind ∈ kinds ↔ kind ∈ others) := by
  have members : ∀ kind, (KindSet.ofList kinds).contains kind = true ↔ kind ∈ kinds := by
    intro kind
    rw [KindSet.contains_ofList, decide_eq_true_eq]
  refine ⟨members, fun reordered => ?_, ?_, KindSet.ofList_eq_iff kinds others, KindSet.word_ofList kinds, ?_,
    KindSet.getLsbD_ofList kinds, ?_⟩
  · exact (KindSet.ofList_eq_iff kinds others).mpr fun kind => reordered.mem_iff
  · exact (KindSet.ofList_eq_iff _ kinds).mpr fun kind => List.mem_dedup
  · exact fun kind => (KindSet.contains_iff_word _ kind).symm.trans (members kind)
  · exact KindSet.word_injective.eq_iff.trans (KindSet.ofList_eq_iff kinds others)

/-- The first kind and the last one beside one that is listed twice. A kind between them is not in the set. -/
theorem kind_sets_hold_listed_kinds_reordered :
    let kinds : List Kind := [.plus, .leftParen, .eof, .plus]
    let others : List Kind := [.eof, .plus, .plus, .leftParen]
    kinds.Perm others ∧ KindSet.ofList kinds = KindSet.ofList others ∧
      KindSet.ofList kinds.dedup = KindSet.ofList kinds ∧ (KindSet.ofList kinds).contains .eof = true ∧
      ¬ (KindSet.ofList kinds).contains .rightParen = true ∧
      (KindSet.ofList kinds).word = (KindSet.ofList others).word := by
  intro kinds others
  have reordered : kinds.Perm others := by decide
  have absent : Kind.rightParen ∉ kinds := by decide
  obtain ⟨members, order, once, _, _, _, _, words⟩ := kind_sets_hold_listed_kinds kinds others
  exact ⟨reordered, order reordered, once, (members .eof).mpr (by decide),
    fun found => absent ((members .rightParen).mp found), words.mpr fun kind => reordered.mem_iff⟩

end Lox
