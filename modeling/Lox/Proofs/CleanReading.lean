import Lox.Reading

/-! A reading is clean when it has a result and noticed no error. Readings put
together are clean exactly when their parts are, and no clean reading passes the
end of the source. -/

namespace Lox.Reading

variable {α β : Type}

def after (count : Nat) (reading : Reading α) : Reading α := { reading with width := count + reading.width }

@[simp] theorem done_width (value : α) (width : Nat) : (done value width).width = width := rfl

@[simp] theorem after_done (count : Nat) (value : α) (width : Nat) :
    (done value width).after count = done value (count + width) := rfl

@[simp] theorem after_after (first second : Nat) (reading : Reading α) :
    (reading.after second).after first = reading.after (first + second) := by
  simp only [after, Nat.add_assoc]

@[simp] theorem afterToken_done (value : α) (width : Nat) :
    (done value width).afterToken = done value (width + 1) := rfl

@[simp] theorem map_done (change : α → β) (value : α) (width : Nat) :
    (done value width).map change = done (change value) width := rfl

@[simp] theorem done_andThen (value : α) (width : Nat) (next : α → Reading β) :
    (done value width).andThen next = (next value).after width := by
  simp only [andThen, done, after, Option.none_or]

theorem andThen_eq_done {first : Reading α} {next : α → Reading β} {value : β} {width : Nat} :
    first.andThen next = done value width ↔
      ∃ middle taken more, first = done middle taken ∧ next middle = done value more ∧ width = taken + more := by
  constructor
  · intro clean
    obtain ⟨result, taken, note⟩ := first
    cases result with
    | error error => cases clean
    | ok middle =>
      simp only [andThen, done, mk.injEq, Option.or_eq_none_iff] at clean
      obtain ⟨result, rfl, rfl, note⟩ := clean
      exact ⟨middle, taken, (next middle).width, rfl, by rw [done, ← result, ← note], rfl⟩
  · rintro ⟨middle, taken, more, rfl, clean, rfl⟩
    rw [done_andThen, clean, after_done]

theorem afterToken_eq_done {reading : Reading α} {value : α} {width : Nat} :
    reading.afterToken = done value width ↔ ∃ taken, reading = done value taken ∧ width = taken + 1 := by
  constructor
  · intro clean
    obtain ⟨result, taken, note⟩ := reading
    cases clean
    exact ⟨taken, rfl, rfl⟩
  · rintro ⟨taken, rfl, rfl⟩
    rfl

theorem map_eq_done {change : α → β} {reading : Reading α} {value : β} {width : Nat} :
    reading.map change = done value width ↔ ∃ before, reading = done before width ∧ change before = value := by
  constructor
  · intro clean
    obtain ⟨result, taken, note⟩ := reading
    cases result with
    | error error => cases clean
    | ok before =>
      cases clean
      exact ⟨before, rfl, rfl⟩
  · rintro ⟨before, rfl, rfl⟩
    rfl

theorem noted_ne_done {value other : α} {error : SyntaxError} {width : Nat} :
    noted value error ≠ done other width := by
  intro clean
  cases clean

theorem fail_ne_done {token : Token} {fault : SyntaxFault} {value : α} {width : Nat} :
    fail token fault ≠ done value width := by
  intro clean
  cases clean

section
variable {stop : Token} {kind : Kind} {fault : SyntaxFault}

@[simp] theorem expect_cons {token : Token} (rest : List Token) (same : token.kind = kind) :
    expect stop kind fault (token :: rest) = done () 1 := if_pos same

/-- The end of the source is no token that can be expected. -/
theorem expect_eq_done {tokens : List Token} {width : Nat} (atEnd : stop.kind = .eof) (inside : kind ≠ .eof) :
    expect stop kind fault tokens = done () width ↔
      ∃ token rest, tokens = token :: rest ∧ token.kind = kind ∧ width = 1 := by
  constructor
  · intro clean
    cases tokens with
    | nil =>
      rw [expect, if_neg (fun same => inside (same.symm.trans atEnd))] at clean
      cases clean
    | cons token rest =>
      rw [expect] at clean
      split at clean
      next same =>
        cases clean
        exact ⟨token, rest, rfl, same, rfl⟩
      next => cases clean
  · rintro ⟨token, rest, rfl, same, rfl⟩
    exact expect_cons rest same

theorem closedBy_done {value : α} {width : Nat} {tokens rest : List Token} {closing : Token}
    (follow : tokens.drop width = closing :: rest) (same : closing.kind = kind) :
    (done value width).closedBy stop kind fault tokens = done value (width + 1) := by
  rw [closedBy, done_andThen, done_width, follow, expect_cons rest same, map_done, after_done]

/-- What is closed cleanly was read cleanly, and the closing token follows it. -/
theorem closedBy_eq_done {reading : Reading α} {tokens : List Token} {value : α} {width : Nat}
    (atEnd : stop.kind = .eof) (inside : kind ≠ .eof) :
    reading.closedBy stop kind fault tokens = done value width ↔
      ∃ taken closing rest, reading = done value taken ∧ tokens.drop taken = closing :: rest ∧
        closing.kind = kind ∧ width = taken + 1 := by
  rw [closedBy, andThen_eq_done]
  constructor
  · rintro ⟨middle, taken, more, rfl, clean, rfl⟩
    obtain ⟨_, closes, rfl⟩ := map_eq_done.mp clean
    obtain ⟨closing, rest, follow, same, rfl⟩ := (expect_eq_done atEnd inside).mp closes
    exact ⟨taken, closing, rest, rfl, follow, same, rfl⟩
  · rintro ⟨taken, closing, rest, rfl, follow, same, rfl⟩
    refine ⟨value, taken, 1, rfl, ?_, rfl⟩
    rw [done_width, follow, expect_cons rest same, map_done]

end

end Lox.Reading
