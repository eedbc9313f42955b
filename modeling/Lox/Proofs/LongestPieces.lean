import Lox.Proofs.LexicalRules
import Lox.Proofs.ScannedLines

/-! The pieces that a text is cut into are the ones that the rules choose, at every
place of the text. -/

namespace Lox
namespace Piece
variable {test : Char → Bool} {first : Char} {tail more rest : List Char}

theorem ne_of_test (passes : test first = true) {char : Char} (fails : test char = false) : first ≠ char := by
  intro same
  rw [same, fails] at passes
  cases passes

private theorem not_blank (passes : test first = true) (space : test ' ' = false) (tab : test '\t' = false)
    (back : test '\r' = false) : ¬ isBlank first = true := by
  intro blank
  simp only [isBlank, Bool.or_eq_true, beq_iff_eq] at blank
  obtain (same | same) | same := blank
  · exact ne_of_test passes space same
  · exact ne_of_test passes tab same
  · exact ne_of_test passes back same

theorem digit_starts_no_word (digit : first.isDigit = true) : startsWord first = false := by
  by_cases underscore : first = '_'
  · subst underscore
    cases digit
  · unfold startsWord Char.isAlpha Char.isUpper Char.isLower
    unfold Char.isDigit at digit
    grind

/-! What is measured at each first character. -/

theorem measure_blank (blank : isBlank first = true) (rest : List Char) :
    measure first rest = (.blank, run isBlank rest) := by
  rw [measure, if_pos blank]

theorem measure_digit (digit : first.isDigit = true) (rest : List Char) :
    measure first rest = (.lexeme .number, numberTail rest) := by
  have blank : ¬ isBlank first = true := not_blank digit rfl rfl rfl
  have newline : first ≠ '\n' := ne_of_test digit rfl
  have slash : first ≠ '/' := ne_of_test digit rfl
  have quote : first ≠ '"' := ne_of_test digit rfl
  rw [measure, if_neg blank, if_neg newline, if_neg (slash ·.1), if_neg quote, if_pos digit]

theorem measure_word (starts : startsWord first = true) (rest : List Char) :
    measure first rest = wordTail first rest := by
  have blank : ¬ isBlank first = true := not_blank starts rfl rfl rfl
  have newline : first ≠ '\n' := ne_of_test starts rfl
  have slash : first ≠ '/' := ne_of_test starts rfl
  have quote : first ≠ '"' := ne_of_test starts rfl
  have digit : ¬ first.isDigit = true := by
    intro digit
    rw [digit_starts_no_word digit] at starts
    cases starts
  rw [measure, if_neg blank, if_neg newline, if_neg (slash ·.1), if_neg quote, if_neg digit, if_pos starts]

/-! Runs of characters and what may be part of them. -/

theorem take_run (test : Char → Bool) (rest : List Char) : rest.take (run test rest) = rest.takeWhile test :=
  (List.prefix_iff_eq_take.mp (List.takeWhile_prefix test)).symm

theorem run_append (pass : tail.all test = true) (more : List Char) :
    run test (tail ++ more) = tail.length + run test more := by
  rw [run, List.takeWhile_append_of_pos (List.all_eq_true.mp pass), List.length_append, run]

theorem numberTail_append_ge {whole fraction : List Char} (pass : whole.all Char.isDigit = true)
    (after : Fraction fraction) (more : List Char) :
    (whole ++ fraction).length ≤ numberTail (whole ++ fraction ++ more) := by
  rw [numberTail, List.append_assoc, run_append pass, List.length_append]
  obtain rfl | ⟨digit, rest, rfl, holds, others⟩ := after
  · rw [List.length_nil]
    omega
  · have stop : run Char.isDigit ('.' :: digit :: rest ++ more) = 0 := rfl
    have digits : run Char.isDigit (digit :: rest ++ more) = rest.length + 1 + run Char.isDigit more :=
      run_append (by rw [List.all_cons, holds, others]; rfl) more
    rw [stop, Nat.add_zero, List.drop_append_of_le_length (Nat.le_refl _), List.drop_length, List.nil_append]
    rw [List.cons_append, fractionLength, digits, if_neg (by omega), List.length_cons, List.length_cons]
    omega

/-! Of all forms that a first character and what follows may have, the measured one wins. -/

/-- A form and the number of characters after the first one that belong to it, against another form
with its number. -/
def Wins (measured : Form × Nat) (form : Form) (size : Nat) : Prop :=
  size < measured.2 ∨ size = measured.2 ∧
    (form = measured.1 ∨ form = .lexeme .identifier ∧ ∃ kind ∈ Kind.keywords, measured.1 = .lexeme kind)

private theorem Wins.of_le {form : Form} {size length : Nat} (inside : size ≤ length) : Wins (form, length) form size := by
  obtain shorter | same := Nat.lt_or_eq_of_le inside
  · exact .inl shorter
  · exact .inr ⟨same, .inl rfl⟩

private theorem wins_blank (member : first :: tail ∈ Form.rule .blank) (more : List Char) :
    Wins (measure first (tail ++ more)) .blank tail.length := by
  obtain ⟨_, _, same, blank, blanks⟩ := mem_started.mp member
  cases same
  rw [measure_blank blank, run_append blanks]
  exact .of_le (by omega)

private theorem wins_newline (member : first :: tail ∈ Form.rule .newline) (more : List Char) :
    Wins (measure first (tail ++ more)) .newline tail.length := by
  cases member
  exact .of_le (Nat.le_refl 0)

private theorem wins_comment (member : first :: tail ∈ Form.rule .comment) (more : List Char) :
    Wins (measure first (tail ++ more)) .comment tail.length := by
  obtain ⟨line, inside, same⟩ := mem_comment.mp member
  cases same
  have length := run_append (show ('/' :: line).all (· != '\n') = true from inside) more
  have slashes : measure '/' ('/' :: line ++ more) = (.comment, run (· != '\n') ('/' :: line ++ more)) := rfl
  rw [slashes, length]
  exact .of_le (by omega)

theorem stringTail_closed {inside : List Char} (free : inside.all (· != '"') = true) (more : List Char) :
    stringTail (inside ++ '"' :: more) = (.lexeme .string, inside.length + 1) := by
  have length : run (· != '"') (inside ++ '"' :: more) = inside.length := by
    rw [run_append free]
    rfl
  rw [stringTail, length, if_pos (by rw [List.length_append, List.length_cons]; omega)]

private theorem wins_string (member : first :: tail ∈ Kind.rule .string) (more : List Char) :
    Wins (measure first (tail ++ more)) (.lexeme .string) tail.length := by
  obtain ⟨inside, free, same⟩ := mem_string.mp member
  obtain ⟨rfl, rfl⟩ := List.cons.inj same
  have quote : measure '"' (inside ++ ['"'] ++ more) = stringTail (inside ++ '"' :: more) := by
    rw [List.append_assoc]
    rfl
  rw [quote, stringTail_closed free, List.length_append]
  exact .of_le (Nat.le_refl _)

theorem stringTail_open {rest : List Char} (free : rest.all (· != '"') = true) :
    stringTail rest = (.unterminated, rest.length) := by
  have length : run (· != '"') rest = rest.length := by simpa [run] using run_append free []
  rw [stringTail, length, if_neg (Nat.lt_irrefl _)]

private theorem wins_unterminated (member : first :: tail ∈ Form.rule .unterminated) (more : List Char) :
    Wins (measure first (tail ++ more)) .unterminated tail.length := by
  obtain ⟨inside, free, same⟩ := mem_unterminated.mp member
  obtain ⟨rfl, rfl⟩ := List.cons.inj same
  have quote : measure '"' (tail ++ more) = stringTail (tail ++ more) := rfl
  rw [quote, stringTail, run_append free]
  split
  next => exact .inl (by omega)
  next => exact .of_le (by omega)

private theorem wins_number (member : first :: tail ∈ Kind.rule .number) (more : List Char) :
    Wins (measure first (tail ++ more)) (.lexeme .number) tail.length := by
  obtain ⟨_, whole, fraction, same, digit, digits, after⟩ := mem_number.mp member
  cases same
  rw [measure_digit digit]
  exact .of_le (numberTail_append_ge digits after more)

theorem word_keyword {word : String} {kind : Kind} (same : Kind.ofWord word = kind) (reserved : kind ≠ .identifier) :
    kind ∈ Kind.keywords ∧ kind.displayName = word := by
  unfold Kind.ofWord at same
  cases found : Kind.keywords.find? (fun keyword => keyword.displayName == word) with
  | none =>
    rw [found] at same
    exact absurd same.symm reserved
  | some keyword =>
    rw [found, Option.getD_some] at same
    subst same
    have spelled := List.find?_some found
    exact ⟨List.mem_of_find?_eq_some found, beq_iff_eq.mp spelled⟩

private theorem wins_identifier (member : first :: tail ∈ Kind.rule .identifier) (more : List Char) :
    Wins (measure first (tail ++ more)) (.lexeme .identifier) tail.length := by
  obtain ⟨_, _, same, starts, continues⟩ := mem_started.mp member
  cases same
  rw [measure_word starts, wordTail]
  have length : ((tail ++ more).takeWhile continuesWord).length = tail.length + run continuesWord more :=
    run_append continues more
  have inside : tail.length ≤ ((tail ++ more).takeWhile continuesWord).length := by omega
  obtain longer | equal := Nat.lt_or_eq_of_le inside
  · exact .inl longer
  · refine .inr ⟨equal, ?_⟩
    by_cases reserved : Kind.ofWord (String.ofList (first :: (tail ++ more).takeWhile continuesWord)) = .identifier
    · exact .inl (congrArg Form.lexeme reserved).symm
    · exact .inr ⟨rfl, _, (word_keyword rfl reserved).1, rfl⟩

/-- The spelling of a reserved word is a word, and stands for it. -/
private theorem keyword_spelled {kind : Kind} (reserved : kind ∈ Kind.keywords) :
    kind.displayName.toList ∈ Kind.rule .identifier ∧ Kind.ofWord kind.displayName = kind := by
  have spelled : ∀ kind ∈ Kind.keywords, Kind.ofWord kind.displayName = kind ∧
      kind.displayName.toList.head?.any startsWord = true ∧ kind.displayName.toList.tail.all continuesWord = true := by
    decide
  obtain ⟨same, starts, continues⟩ := spelled kind reserved
  refine ⟨mem_started.mpr ?_, same⟩
  cases chars : kind.displayName.toList with
  | nil =>
    rw [chars] at starts
    cases starts
  | cons first rest =>
    rw [chars] at starts continues
    exact ⟨first, rest, rfl, starts, continues⟩

private theorem wins_keyword {kind : Kind} (reserved : kind ∈ Kind.keywords) (member : first :: tail ∈ kind.rule)
    (more : List Char) : Wins (measure first (tail ++ more)) (.lexeme kind) tail.length := by
  have spelled := (mem_fixed (Kind.isFixed_of_keyword reserved)).mp member
  obtain ⟨word, named⟩ := keyword_spelled reserved
  rw [← spelled] at word
  obtain ⟨_, _, same, starts, continues⟩ := mem_started.mp word
  cases same
  obtain longer | ⟨equal, _⟩ := wins_identifier word more
  · exact .inl longer
  rw [measure_word starts, wordTail] at equal ⊢
  refine .inr ⟨equal, .inl ?_⟩
  -- The word is as long as the reserved one, so it is the same word.
  have whole : (tail ++ more).takeWhile continuesWord = tail := by
    rw [List.takeWhile_append_of_pos (List.all_eq_true.mp continues)] at equal ⊢
    rw [List.length_append] at equal
    rw [List.eq_nil_of_length_eq_zero (show (more.takeWhile continuesWord).length = 0 by omega), List.append_nil]
  rw [whole, spelled, String.ofList_toList, named]

private theorem wins_maybeEqual {alone withEqual : Kind} : Wins (maybeEqual more alone withEqual) (.lexeme alone) 0 := by
  unfold maybeEqual
  split
  next => exact .inl Nat.one_pos
  next => exact .of_le (Nat.le_refl 0)

private theorem wins_slash (more : List Char) : Wins (measure '/' more) (.lexeme .slash) 0 := by
  -- A second slash makes a comment of it, which is longer.
  by_cases comment : more.head? = some '/'
  · have slashes : measure '/' more = (.comment, run (· != '\n') more) := by
      rw [measure, if_neg (by decide), if_neg (by decide), if_pos ⟨rfl, comment⟩]
    obtain ⟨others, rfl⟩ := List.head?_eq_some_iff.mp comment
    have length := run_append (show ['/'].all (· != '\n') = true from rfl) others
    rw [slashes, ← List.singleton_append, length]
    exact .inl (Nat.lt_of_lt_of_le Nat.one_pos (Nat.le_add_right _ _))
  · have slash : measure '/' more = (.lexeme .slash, 0) := by
      rw [measure, if_neg (by decide), if_neg (by decide), if_neg (comment ·.2)]
      rfl
    rw [slash]
    exact .of_le (Nat.le_refl 0)

private theorem wins_mark {kind : Kind} (fixed : kind.isFixed = true) (mark : kind ∉ Kind.keywords)
    (member : first :: tail ∈ kind.rule) (more : List Char) :
    Wins (measure first (tail ++ more)) (.lexeme kind) tail.length := by
  have spelled := (mem_fixed fixed).mp member
  cases kind with
  | identifier | string | number | eof => cases fixed
  | leftParen | rightParen | leftBrace | rightBrace | comma | dot | minus | plus | semicolon | star
  | bangEqual | equalEqual | greaterEqual | lessEqual =>
    cases spelled
    exact .of_le (Nat.le_refl _)
  | bang | equal | greater | less =>
    cases spelled
    exact wins_maybeEqual
  | slash =>
    cases spelled
    exact wins_slash more
  | _ => exact absurd (by decide) mark

/-- Whatever a rule allows at a place, what is measured there wins against it. -/
theorem wins_measure {form : Form} (member : first :: tail ∈ form.rule) (more : List Char) :
    Wins (measure first (tail ++ more)) form tail.length := by
  cases form with
  | blank => exact wins_blank member more
  | newline => exact wins_newline member more
  | comment => exact wins_comment member more
  | unterminated => exact wins_unterminated member more
  | unexpected => exact (Language.notMem_zero _ member).elim
  | lexeme kind =>
    by_cases reserved : kind ∈ Kind.keywords
    · exact wins_keyword reserved member more
    by_cases fixed : kind.isFixed = true
    · exact wins_mark fixed reserved member more
    cases kind with
    | identifier => exact wins_identifier member more
    | string => exact wins_string member more
    | number => exact wins_number member more
    | eof => exact (Language.notMem_zero _ member).elim
    | _ => exact absurd rfl fixed

/-! What is measured is what the rule for its form allows. -/

theorem run_split (test : Char → Bool) (rest : List Char) :
    ∃ inside more, rest = inside ++ more ∧ inside.all test = true ∧ run test rest = inside.length ∧
      ∀ next others, more = next :: others → test next = false := by
  induction rest with
  | nil => exact ⟨[], [], rfl, rfl, rfl, nofun⟩
  | cons first rest ih =>
    by_cases passes : test first = true
    · obtain ⟨inside, more, rfl, pass, length, stop⟩ := ih
      refine ⟨first :: inside, more, rfl, ?_, ?_, stop⟩
      · rw [List.all_cons, passes, pass]
        rfl
      · unfold run at length ⊢
        rw [List.takeWhile_cons, if_pos passes, List.length_cons, List.length_cons, length]
    · refine ⟨[], first :: rest, rfl, rfl, ?_, ?_⟩
      · rw [run, List.takeWhile_cons, if_neg passes, List.length_nil]
      · intro next others same
        cases same
        exact Bool.eq_false_iff.mpr passes

theorem stringTail_cases (rest : List Char) :
    ∃ inside : List Char, inside.all (· != '"') = true ∧ (rest = inside ∨ ∃ others, rest = inside ++ '"' :: others) := by
  obtain ⟨inside, more, rfl, free, _, stop⟩ := run_split (· != '"') rest
  refine ⟨inside, free, ?_⟩
  cases more with
  | nil => exact .inl (List.append_nil inside)
  | cons next others =>
    have closes : next = '"' := by simpa using stop next others rfl
    exact .inr ⟨others, by rw [closes]⟩

private theorem stringTail_fits (rest : List Char) :
    '"' :: rest.take (stringTail rest).2 ∈ (stringTail rest).1.rule := by
  obtain ⟨inside, free, rfl | ⟨others, rfl⟩⟩ := stringTail_cases rest
  · rw [stringTail_open free]
    exact mem_unterminated.mpr ⟨rest, free, by rw [List.take_length]⟩
  · rw [stringTail_closed free]
    exact mem_string.mpr ⟨inside, free, by rw [List.take_length_add_append]; rfl⟩

private theorem fraction_fits (rest : List Char) : Fraction (rest.take (fractionLength rest)) := by
  unfold fractionLength
  split
  next after =>
    split
    next => exact .inl rfl
    next some =>
      obtain ⟨inside, more, rfl, pass, length, stop⟩ := run_split Char.isDigit after
      rw [length, List.take_succ_cons, List.take_left]
      cases inside with
      | nil => exact absurd length some
      | cons digit others =>
        rw [List.all_cons, Bool.and_eq_true] at pass
        exact .inr ⟨digit, others, rfl, pass⟩
  next => exact .inl rfl

private theorem numberTail_fits (digit : first.isDigit = true) (rest : List Char) :
    first :: rest.take (numberTail rest) ∈ Kind.rule .number := by
  obtain ⟨whole, more, rfl, pass, length, stop⟩ := run_split Char.isDigit rest
  rw [numberTail, length, List.drop_left, List.take_length_add_append]
  exact mem_number.mpr ⟨first, whole, _, rfl, digit, pass, fraction_fits more⟩

private theorem wordTail_fits (starts : startsWord first = true) (rest : List Char) :
    first :: rest.take (wordTail first rest).2 ∈ (wordTail first rest).1.rule := by
  obtain ⟨inside, more, rfl, continues, length, stop⟩ := run_split continuesWord rest
  have word : (inside ++ more).takeWhile continuesWord = inside := by
    rw [← take_run, length, List.take_left]
  rw [wordTail, word, List.take_left]
  by_cases plain : Kind.ofWord (String.ofList (first :: inside)) = .identifier
  · rw [plain]
    exact mem_started.mpr ⟨first, inside, rfl, starts, continues⟩
  · obtain ⟨reserved, spelled⟩ := word_keyword rfl plain
    exact (mem_fixed (Kind.isFixed_of_keyword reserved)).mpr (by rw [spelled, String.toList_ofList])

private theorem maybeEqual_fits {alone withEqual : Kind} (single : [first] ∈ alone.rule)
    (double : [first, '='] ∈ withEqual.rule) (rest : List Char) :
    first :: rest.take (maybeEqual rest alone withEqual).2 ∈ (maybeEqual rest alone withEqual).1.rule := by
  unfold maybeEqual
  split
  next follows =>
    obtain ⟨others, rfl⟩ := List.head?_eq_some_iff.mp follows
    exact double
  next => exact single

private theorem markTail_fits (first : Char) (rest : List Char) :
    markTail first rest = (.unexpected, 0) ∨
      first :: rest.take (markTail first rest).2 ∈ (markTail first rest).1.rule := by
  unfold markTail
  split
  case h_16 => exact .inl rfl
  all_goals refine .inr ?_
  all_goals first
    | exact rfl
    | exact maybeEqual_fits ((mem_fixed rfl).mpr rfl) ((mem_fixed rfl).mpr rfl) rest

theorem measure_fits (first : Char) (rest : List Char) :
    measure first rest = (.unexpected, 0) ∨
      first :: rest.take (measure first rest).2 ∈ (measure first rest).1.rule := by
  unfold measure
  split
  next blank => exact .inr (mem_started.mpr ⟨first, _, rfl, blank, by rw [take_run]; exact List.all_takeWhile⟩)
  split
  next newline => exact .inr (congrArg (· :: []) newline)
  split
  next slashes =>
    obtain ⟨rfl, second⟩ := slashes
    obtain ⟨others, rfl⟩ := List.head?_eq_some_iff.mp second
    refine .inr (mem_comment.mpr ⟨others.takeWhile (· != '\n'), List.all_takeWhile, ?_⟩)
    rw [take_run]
    rfl
  split
  next quote =>
    subst quote
    exact .inr (stringTail_fits rest)
  split
  next digit => exact .inr (numberTail_fits digit rest)
  split
  next starts => exact .inr (wordTail_fits starts rest)
  next => exact markTail_fits first rest

private theorem Fits.measured {rest : List Char} {piece : Piece} (fits : Fits (first :: rest) piece) :
    ∃ tail, piece.text = first :: tail ∧ tail <+: rest ∧ Wins (measure first rest) piece.form tail.length := by
  obtain ⟨within, member⟩ := fits
  obtain empty | ⟨tail, text, inside⟩ := List.prefix_cons_iff.mp within
  · rw [empty] at member
    exact (rule_nonempty member).elim
  · obtain ⟨more, rfl⟩ := inside
    rw [text] at member
    exact ⟨tail, text, ⟨more, rfl⟩, wins_measure member more⟩

theorem measure_chosen {first : Char} {rest : List Char}
    (fits : first :: rest.take (measure first rest).2 ∈ (measure first rest).1.rule) :
    Chosen (first :: rest) ⟨(measure first rest).1, first :: rest.take (measure first rest).2⟩ := by
  have length : (rest.take (measure first rest).2).length = (measure first rest).2 :=
    List.length_take_of_le (measure_le first rest)
  refine ⟨⟨List.cons_prefix_cons.mpr ⟨rfl, List.take_prefix _ rest⟩, fits⟩, ?_⟩
  intro other otherFits
  obtain ⟨tail, text, inside, shorter | ⟨same, form⟩⟩ := otherFits.measured
  · refine .inr (.inl ?_)
    rw [text, List.length_cons, List.length_cons, length]
    exact Nat.succ_lt_succ shorter
  · have equal : tail = rest.take (measure first rest).2 := by
      rw [← same]
      exact List.prefix_iff_eq_take.mp inside
    obtain form | ⟨plain, reserved⟩ := form
    · refine .inl ?_
      rw [← equal, ← form, ← text]
    · refine .inr (.inr ⟨?_, plain, reserved⟩)
      rw [text, List.length_cons, List.length_cons, length, same]

private theorem unexpected_nothing {first : Char} {rest : List Char} (unexpected : measure first rest = (.unexpected, 0))
    (piece : Piece) : ¬ Fits (first :: rest) piece := by
  intro fits
  obtain ⟨tail, _, _, wins⟩ := fits.measured
  rw [unexpected] at wins
  obtain shorter | ⟨_, same | ⟨_, kind, _, reserved⟩⟩ := wins
  · exact Nat.not_lt_zero _ shorter
  · have member := fits.2
    rw [same] at member
    exact Language.notMem_zero _ member
  · cases reserved

theorem cut_cuts (chars : List Char) : Cuts chars (cut chars) := by
  induction chars using cut.induct with
  | case1 =>
    rw [cut]
    exact .done
  | case2 first rest measured ih =>
    rw [cut_cons]
    obtain unexpected | fits := measure_fits first rest
    · have further : Cuts rest (cut rest) := by
        rw [show measured = (.unexpected, 0) from unexpected] at ih
        exact ih
      rw [unexpected]
      exact .unexpected (unexpected_nothing unexpected) further
    · refine .chosen ?_ (measure_chosen fits) ih
      rw [List.cons_append, List.take_append_drop]

end Piece
end Lox
