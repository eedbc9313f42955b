import Lox.Proofs.CleanReading
import Lox.Stmt.Passage

/-! Passages without errors. While none is pending, an error is reported as soon
as it is noticed, so that a passage that reports none has noticed none. -/

namespace Lox

namespace Passage

variable {α β : Type}

def done (value : α) (width : Nat) : Passage α := ofReading false (.done value width)

def after (count : Nat) (passage : Passage α) : Passage α := { passage with width := count + passage.width }

/-- What was noticed was reported, as long as nothing was pending before. A passage without errors then leaves
nothing pending for the next one. -/
def Candid (passage : Passage α) : Prop := passage.errors = [] → passage.pending = false

@[simp] theorem done_width (value : α) (width : Nat) : (done value width).width = width := rfl

@[simp] theorem done_errors (value : α) (width : Nat) : (done value width).errors = [] := rfl

@[simp] theorem after_done (count : Nat) (value : α) (width : Nat) :
    (done value width).after count = done value (count + width) := rfl

@[simp] theorem afterToken_done (value : α) (width : Nat) :
    (done value width).afterToken = done value (width + 1) := rfl

@[simp] theorem map_done (change : α → β) (value : α) (width : Nat) :
    (done value width).map change = done (change value) width := rfl

@[simp] theorem done_andThen (value : α) (width : Nat) (next : α → Bool → Passage β) :
    (done value width).andThen next = (next value false).after width := rfl

theorem ofReading_eq_done {reading : Reading α} {value : α} {width : Nat} :
    ofReading false reading = done value width ↔ reading = .done value width := by
  constructor
  · intro clean
    obtain ⟨result, taken, note⟩ := reading
    cases note with
    | some error => cases clean
    | none =>
      cases clean
      rfl
  · rintro rfl
    rfl

theorem afterToken_eq_done {passage : Passage α} {value : α} {width : Nat} :
    passage.afterToken = done value width ↔ ∃ taken, passage = done value taken ∧ width = taken + 1 := by
  constructor
  · intro clean
    obtain ⟨result, taken, errors, pending⟩ := passage
    cases clean
    exact ⟨taken, rfl, rfl⟩
  · rintro ⟨taken, rfl, rfl⟩
    rfl

theorem map_eq_done {change : α → β} {passage : Passage α} {value : β} {width : Nat} :
    passage.map change = done value width ↔ ∃ before, passage = done before width ∧ change before = value := by
  constructor
  · intro clean
    obtain ⟨result, taken, errors, pending⟩ := passage
    cases result with
    | error error => cases clean
    | ok before =>
      cases clean
      exact ⟨before, rfl, rfl⟩
  · rintro ⟨before, rfl, rfl⟩
    rfl

theorem candid_ofReading (reading : Reading α) : (ofReading false reading).Candid := by
  intro silent
  obtain ⟨result, taken, note⟩ := reading
  cases note with
  | none => rfl
  | some error => cases silent

theorem Candid.afterToken {passage : Passage α} (candid : passage.Candid) : passage.afterToken.Candid := candid

theorem Candid.map {passage : Passage α} (candid : passage.Candid) (change : α → β) : (passage.map change).Candid :=
  candid

theorem Candid.andThen {first : Passage α} {next : α → Bool → Passage β} (candid : first.Candid)
    (rest : ∀ value, (next value false).Candid) : (first.andThen next).Candid := by
  intro silent
  obtain ⟨result, taken, errors, pending⟩ := first
  cases result with
  | error error => exact candid silent
  | ok value =>
    simp only [Passage.andThen, List.append_eq_nil_iff] at silent ⊢
    obtain rfl : pending = false := candid silent.1
    exact rest value silent.2

/-- A passage in two parts is clean exactly when both parts are. -/
theorem andThen_eq_done {first : Passage α} {next : α → Bool → Passage β} {value : β} {width : Nat}
    (candid : first.Candid) :
    first.andThen next = done value width ↔
      ∃ middle taken more, first = done middle taken ∧ next middle false = done value more ∧
        width = taken + more := by
  constructor
  · intro clean
    obtain ⟨result, taken, errors, pending⟩ := first
    cases result with
    | error error => cases clean
    | ok middle =>
      have silent : errors ++ (next middle pending).errors = [] := congrArg Passage.errors clean
      obtain ⟨rfl, quiet⟩ := List.append_eq_nil_iff.mp silent
      obtain rfl : pending = false := candid rfl
      refine ⟨middle, taken, (next middle false).width, rfl, ?_, (congrArg Passage.width clean).symm⟩
      cases same : next middle false with
      | mk result width errors pending =>
        simp only [Passage.andThen, same] at clean
        cases clean
        rfl
  · rintro ⟨middle, taken, more, rfl, clean, rfl⟩
    rw [done_andThen, clean, after_done]

end Passage

namespace Batch

def done (statements : List Stmt) (width : Nat) : Batch := ⟨statements, width, []⟩

theorem done_append (first second : List Stmt) (width more : Nat) :
    done first width ++ done second more = done (first ++ second) (width + more) := rfl

@[simp] theorem ofPassage_done (tokens : List Token) (statement : Stmt) (width : Nat) :
    ofPassage tokens (.done statement width) = done [statement] width := rfl

/-- A declaration that reports no error was read. -/
theorem ofPassage_silent {tokens : List Token} {passage : Passage Stmt} (candid : passage.Candid)
    (silent : (ofPassage tokens passage).errors = []) :
    ∃ statement width, passage = .done statement width ∧ ofPassage tokens passage = done [statement] width := by
  obtain ⟨result, taken, errors, pending⟩ := passage
  cases result with
  | error error =>
    obtain ⟨rfl, last⟩ := List.append_eq_nil_iff.mp silent
    obtain rfl : pending = false := candid rfl
    cases last
  | ok statement =>
    obtain rfl : errors = [] := silent
    obtain rfl : pending = false := candid rfl
    exact ⟨statement, taken, rfl, rfl⟩

end Batch

end Lox
