import Lox.Proofs.ScannedPieces

/-! The lexemes of a source, with single spaces between them, are a source of the same
tokens. What ends a lexeme is that nothing more fits it, and with a blank behind it
nothing ever does. -/

namespace Lox
open Piece

namespace Piece

def Parted (more : List Char) : Prop := ∀ next ∈ more.head?, isBlank next = true

section Parted
variable {test : Char → Bool} {first : Char} {more : List Char} {kind : Kind}

private theorem Parted.nil : Parted [] := by simp [Parted]

private theorem Parted.apart (parted : Parted more) {char : Char} (other : isBlank char = false) : more.head? ≠ some char := by
  intro same
  have blank := parted char same
  rw [other] at blank
  cases blank

private theorem Parted.takeWhile_eq (parted : Parted more) (stops : ∀ blank, isBlank blank = true → test blank = false) :
    more.takeWhile test = [] := by
  cases more with
  | nil => rfl
  | cons next others => simp [stops next (parted next rfl)]

private theorem Parted.run_eq (parted : Parted more) (stops : ∀ blank, isBlank blank = true → test blank = false) :
    run test more = 0 :=
  congrArg List.length (parted.takeWhile_eq stops)

private theorem blank_cases {char : Char} (blank : isBlank char = true) : char = ' ' ∨ char = '\t' ∨ char = '\r' := by
  simpa [isBlank, or_assoc] using blank

private theorem digit_stops (char : Char) (blank : isBlank char = true) : char.isDigit = false := by
  obtain rfl | rfl | rfl := blank_cases blank <;> rfl

private theorem word_stops (char : Char) (blank : isBlank char = true) : continuesWord char = false := by
  obtain rfl | rfl | rfl := blank_cases blank <;> rfl

/-! Each part of a lexeme is measured again as it was, if nothing or a blank has taken
the place of what followed it. -/

private theorem run_again (stopped : run test more = 0) (rest : List Char) :
    run test (rest.take (run test rest) ++ more) = run test rest := by
  obtain ⟨inside, after, rfl, pass, length, _⟩ := run_split test rest
  rw [length, List.take_left, run_append pass, stopped, Nat.add_zero]

private theorem Parted.fractionLength_eq (parted : Parted more) : fractionLength more = 0 := by
  cases more with
  | nil => rfl
  | cons next others =>
    apply fractionLength_of_ne
    rintro rfl
    exact parted.apart rfl rfl

private theorem fractionLength_cases (rest : List Char) :
    fractionLength rest = 0 ∨ ∃ after, rest = '.' :: after ∧ fractionLength rest = run Char.isDigit after + 1 := by
  unfold fractionLength
  split
  next after =>
    split
    · exact .inl rfl
    · exact .inr ⟨after, rfl, rfl⟩
  next => exact .inl rfl

private theorem fractionLength_again (parted : Parted more) (rest : List Char) :
    fractionLength (rest.take (fractionLength rest) ++ more) = fractionLength rest := by
  obtain none | ⟨after, rfl, length⟩ := fractionLength_cases rest
  · rw [none]
    exact parted.fractionLength_eq
  · have digits := run_again (parted.run_eq digit_stops) after
    rw [length, List.take_succ_cons, List.cons_append, fractionLength, digits]
    split
    next none => simp [fractionLength, none] at length
    next => rfl

/-- What follows the whole part of a number does not go on with it. -/
private theorem whole_ends (parted : Parted more) (rest : List Char) :
    run Char.isDigit (rest.take (fractionLength rest) ++ more) = 0 := by
  obtain none | ⟨after, rfl, length⟩ := fractionLength_cases rest
  · rw [none]
    exact parted.run_eq digit_stops
  · rw [length]
    rfl

private theorem numberTail_again (parted : Parted more) (rest : List Char) :
    numberTail (rest.take (numberTail rest) ++ more) = numberTail rest := by
  obtain ⟨whole, after, rfl, pass, length, _⟩ := run_split Char.isDigit rest
  have measured : numberTail (whole ++ after) = whole.length + fractionLength after := by
    rw [numberTail, length, List.drop_left]
  rw [measured, List.take_length_add_append, List.append_assoc, numberTail, run_append pass, whole_ends parted after,
    Nat.add_zero, List.drop_left, fractionLength_again parted]

private theorem wordTail_again (parted : Parted more) (first : Char) (rest : List Char) :
    wordTail first (rest.take (wordTail first rest).2 ++ more) = wordTail first rest := by
  have inside : rest.take (wordTail first rest).2 = rest.takeWhile continuesWord := take_run continuesWord rest
  have word : (rest.takeWhile continuesWord ++ more).takeWhile continuesWord = rest.takeWhile continuesWord := by
    rw [List.takeWhile_append_of_pos (List.all_eq_true.mp List.all_takeWhile), parted.takeWhile_eq word_stops,
      List.append_nil]
  rw [inside, wordTail, wordTail, word]

/-- A closed string is as long as it was, whatever follows it. -/
private theorem stringTail_again {rest : List Char} (closed : (stringTail rest).1 ≠ .unterminated) (more : List Char) :
    stringTail (rest.take (stringTail rest).2 ++ more) = stringTail rest := by
  obtain ⟨inside, free, rfl | ⟨others, rfl⟩⟩ := stringTail_cases rest
  · rw [stringTail_open free] at closed
    exact absurd rfl closed
  · rw [stringTail_closed free, List.take_length_add_append, List.append_assoc]
    exact stringTail_closed free more

private theorem maybeEqual_again (parted : Parted more) (rest : List Char) (alone withEqual : Kind) :
    maybeEqual (rest.take (maybeEqual rest alone withEqual).2 ++ more) alone withEqual =
      maybeEqual rest alone withEqual := by
  have alone := parted.apart (show isBlank '=' = false from rfl)
  by_cases follows : rest.head? = some '='
  · obtain ⟨others, rfl⟩ := List.head?_eq_some_iff.mp follows
    rfl
  · simp [maybeEqual, follows, alone]

private theorem markTail_again (parted : Parted more) (first : Char) (rest : List Char) :
    markTail first (rest.take (markTail first rest).2 ++ more) = markTail first rest := by
  unfold markTail
  split
  all_goals first | rfl | exact maybeEqual_again parted rest _ _

private theorem measure_mark (blank : ¬ isBlank first = true) (newline : first ≠ '\n') (quote : first ≠ '"')
    (digit : ¬ first.isDigit = true) (word : ¬ startsWord first = true) {rest : List Char}
    (slashes : ¬ (first = '/' ∧ rest.head? = some '/')) : measure first rest = markTail first rest := by
  rw [measure, if_neg blank, if_neg newline, if_neg slashes, if_neg quote, if_neg digit, if_neg word]

/-- A lexeme with nothing or a blank behind it is cut again as it was cut before. -/
theorem measure_again (parted : Parted more) {rest : List Char} (lexeme : (measure first rest).1 = .lexeme kind) :
    measure first (rest.take (measure first rest).2 ++ more) = measure first rest := by
  by_cases blank : isBlank first = true
  · rw [measure_blank blank] at lexeme
    cases lexeme
  by_cases newline : first = '\n'
  · subst newline
    cases lexeme
  by_cases quote : first = '"'
  · subst quote
    have tail : ∀ chars, measure '"' chars = stringTail chars := fun _ => rfl
    rw [tail] at lexeme
    rw [tail, tail]
    apply stringTail_again
    rw [lexeme]
    exact nofun
  by_cases digit : first.isDigit = true
  · rw [measure_digit digit, measure_digit digit]
    exact congrArg _ (numberTail_again parted rest)
  by_cases word : startsWord first = true
  · rw [measure_word word, measure_word word]
    exact wordTail_again parted first rest
  by_cases slashes : first = '/' ∧ rest.head? = some '/'
  · rw [measure, if_neg blank, if_neg newline, if_pos slashes] at lexeme
    cases lexeme
  rw [measure_mark blank newline quote digit word slashes, measure_mark blank newline quote digit word]
  · exact markTail_again parted first rest
  · rintro ⟨rfl, follows⟩
    exact parted.apart rfl follows

end Parted

def isLexeme (piece : Piece) : Bool := piece.form matches .lexeme _

/-- The piece is a lexeme as some text starts with it. What follows it there need not follow it anywhere else.
-/
def Lexeme (piece : Piece) : Prop :=
  piece.isLexeme = true ∧
    ∃ first rest, piece = ⟨(measure first rest).1, first :: rest.take (measure first rest).2⟩

def space : Piece := ⟨.blank, [' ']⟩

theorem cut_lexeme {piece : Piece} (lexeme : piece.Lexeme) {more : List Char} (parted : Parted more) :
    cut (piece.text ++ more) = piece :: cut more := by
  obtain ⟨named, first, rest, rfl⟩ := lexeme
  have again : measure first (rest.take (measure first rest).2 ++ more) = measure first rest := by
    cases form : (measure first rest).1 with
    | lexeme kind => exact measure_again parted form
    | _ =>
      rw [isLexeme, form] at named
      cases named
  have inside : (rest.take (measure first rest).2).length = (measure first rest).2 :=
    List.length_take_of_le (measure_le first rest)
  rw [List.cons_append, cut_cons, again]
  rw [List.take_left' inside, List.drop_left' inside]

private theorem cut_space {piece : Piece} (lexeme : piece.Lexeme) (more : List Char) :
    cut (' ' :: (piece.text ++ more)) = space :: cut (piece.text ++ more) := by
  obtain ⟨named, first, rest, rfl⟩ := lexeme
  have dark : isBlank first = false := by
    apply Bool.eq_false_iff.mpr
    intro blank
    rw [isLexeme, measure_blank blank] at named
    cases named
  have alone : ∀ chars, measure ' ' (first :: chars) = (.blank, 0) := by
    intro chars
    simp [measure_blank, show isBlank ' ' = true from rfl, run, dark]
  rw [List.cons_append, cut_cons, alone]
  rfl

/-- Lexemes with single spaces between them are cut apart again. -/
theorem cut_spaced {pieces : List Piece} (lexemes : ∀ piece ∈ pieces, piece.Lexeme) :
    cut (List.intercalate [' '] (pieces.map text)) = pieces.intersperse space := by
  induction pieces with
  | nil => exact cut.eq_1
  | cons piece rest ih =>
    rw [List.forall_mem_cons] at lexemes
    have others := ih lexemes.2
    cases rest with
    | nil =>
      have single := cut_lexeme lexemes.1 Parted.nil
      rw [cut] at single
      simpa using single
    | cons next further =>
      have starts : ∃ more, List.intercalate [' '] ((next :: further).map text) = next.text ++ more := by
        cases further <;> exact ⟨_, rfl⟩
      obtain ⟨more, starts⟩ := starts
      have parted : Parted (' ' :: (next.text ++ more)) := by simp [Parted, isBlank]
      have spaced : List.intercalate [' '] ((piece :: next :: further).map text) =
          piece.text ++ ' ' :: (next.text ++ more) := by rw [← starts]; rfl
      rw [starts] at others
      calc cut (List.intercalate [' '] ((piece :: next :: further).map text))
        _ = piece :: cut (' ' :: (next.text ++ more)) := by rw [spaced, cut_lexeme lexemes.1 parted]
        _ = piece :: space :: cut (next.text ++ more) := by rw [cut_space (lexemes.2 next List.mem_cons_self)]
        _ = piece :: space :: (next :: further).intersperse space := by rw [others]

theorem cut_lexemes (chars : List Char) : ∀ piece ∈ (cut chars).filter isLexeme, piece.Lexeme := by
  induction chars using cut.induct with
  | case1 => simp [cut]
  | case2 first rest measured ih =>
    rw [cut_cons, List.filter_cons]
    split
    next named => exact List.forall_mem_cons.mpr ⟨⟨named, first, rest, rfl⟩, ih⟩
    next => exact ih

/-- No lexeme but a string goes over a line break. -/
theorem single_line {kind : Kind} (other : kind ≠ .string) {text : List Char} (member : text ∈ kind.rule) :
    '\n' ∉ text := by
  by_cases fixed : kind.isFixed = true
  · have spellings : ∀ kind ∈ Kind.all, '\n' ∉ kind.displayName.toList := by decide
    rw [(mem_fixed fixed).mp member]
    exact spellings kind (List.mem_of_getElem? (Kind.all_getElem? kind))
  cases kind with
  | identifier =>
    obtain ⟨first, rest, rfl, starts, continues⟩ := mem_started.mp member
    intro breaks
    obtain rfl | inside := List.mem_cons.mp breaks
    · cases starts
    · cases List.all_eq_true.mp continues '\n' inside
  | number =>
    obtain ⟨first, whole, fraction, rfl, digit, digits, after⟩ := mem_number.mp member
    intro breaks
    simp only [List.mem_cons, List.mem_append] at breaks
    obtain rfl | inside | inside := breaks
    · cases digit
    · cases List.all_eq_true.mp digits '\n' inside
    · obtain rfl | ⟨next, others, rfl, starts, further⟩ := after
      · cases inside
      · simp only [List.mem_cons] at inside
        obtain point | rfl | inside := inside
        · cases point
        · cases starts
        · cases List.all_eq_true.mp further '\n' inside
  | string => exact absurd rfl other
  | eof => exact (Language.notMem_zero _ member).elim
  | _ => exact absurd rfl fixed

def shape? : Piece → Option (Kind × String × Option Value)
  | ⟨.lexeme kind, text⟩ => some (kind, String.ofList text, Scan.literal? kind text)
  | _ => none

private theorem filter_shape (pieces : List Piece) : (pieces.filter isLexeme).filterMap shape? = pieces.filterMap shape? := by
  rw [List.filterMap_filter]
  congr 1
  funext piece
  obtain ⟨form, text⟩ := piece
  cases form <;> rfl

private theorem spaced_flatMap {α : Type} (part : Piece → List α) (nothing : part space = []) (pieces : List Piece) :
    (pieces.intersperse space).flatMap part = pieces.flatMap part := by
  induction pieces with
  | nil => rfl
  | cons piece rest ih =>
    cases rest with
    | nil => rfl
    | cons next further =>
      rw [List.intersperse_cons_cons, List.flatMap_cons, List.flatMap_cons, ih, nothing]
      rfl

private theorem mem_spaced {piece : Piece} {pieces : List Piece} (member : piece ∈ pieces.intersperse space) :
    piece ∈ pieces ∨ piece = space := by
  induction pieces with
  | nil => cases member
  | cons first rest ih =>
    cases rest with
    | nil => exact .inl member
    | cons next further =>
      rw [List.intersperse_cons_cons] at member
      simp only [List.mem_cons] at member ih ⊢
      grind

private theorem spaced_shape (pieces : List Piece) : (pieces.intersperse space).filterMap shape? = pieces.filterMap shape? := by
  rw [List.filterMap_eq_flatMap_toList, List.filterMap_eq_flatMap_toList]
  exact spaced_flatMap _ rfl pieces

private theorem spaced_lineBreaks (pieces : List Piece) :
    ((pieces.intersperse space).flatMap text).count '\n' = (pieces.flatMap text).count '\n' := by
  have same := spaced_flatMap (fun piece => piece.text.filter (· == '\n')) (by rfl) pieces
  simpa only [List.count_eq_length_filter, List.filter_flatMap] using congrArg List.length same

end Piece

def Token.shape (token : Token) : Kind × String × Option Value := (token.kind, token.lexeme, token.literal)

namespace Scan

private theorem lexemes_shape (line : Nat) (pieces : List Piece) :
    (lexemes line pieces).map Token.shape = pieces.filterMap shape? := by
  induction pieces generalizing line with
  | nil => rfl
  | cons piece rest ih =>
    obtain ⟨form, text⟩ := piece
    simp only [lexemes]
    cases form with
    | lexeme kind => exact congrArg (List.cons _) (ih _)
    | _ => exact ih _

private theorem lexemes_texts (line : Nat) (pieces : List Piece) :
    (lexemes line pieces).map (·.lexeme.toList) = (pieces.filter isLexeme).map Piece.text := by
  induction pieces generalizing line with
  | nil => rfl
  | cons piece rest ih =>
    obtain ⟨form, text⟩ := piece
    simp only [lexemes]
    cases form with
    | lexeme kind =>
      rw [List.map_cons, ih, List.filter_cons_of_pos rfl, List.map_cons]
      exact congrArg (· :: _) String.toList_ofList
    | _ => exact ih _

/-- The lexeme of a token is one that the rule for its kind allows. -/
theorem lexemes_ruled {pieces : List Piece}
    (allowed : ∀ piece ∈ pieces, piece.form = .unexpected ∨ piece.text ∈ piece.form.rule) (line : Nat) :
    ∀ found ∈ lexemes line pieces, found.lexeme.toList ∈ found.kind.rule := by
  induction pieces generalizing line with
  | nil => simp [lexemes]
  | cons piece rest ih =>
    rw [List.forall_mem_cons] at allowed
    have others := ih allowed.2 (lineAfter line (piece.text.count '\n'))
    obtain ⟨form, text⟩ := piece
    simp only [lexemes]
    cases form with
    | lexeme kind =>
      have member : text ∈ kind.rule := allowed.1.resolve_left Form.noConfusion
      refine List.forall_mem_cons.mpr ⟨?_, others⟩
      rw [← String.toList_ofList (l := text)] at member
      exact member
    | _ => exact others

end Scan

/-- Of all lexemes only strings have line breaks. -/
private theorem count_strings {tokens : List Token} (ruled : ∀ token ∈ tokens, token.lexeme.toList ∈ token.kind.rule) :
    (tokens.flatMap (·.lexeme.toList)).count '\n' =
      ((tokens.filter (·.kind == .string)).flatMap (·.lexeme.toList)).count '\n' := by
  induction tokens with
  | nil => rfl
  | cons token rest ih =>
    rw [List.forall_mem_cons] at ruled
    rw [List.flatMap_cons, List.count_append, ih ruled.2]
    by_cases string : token.kind = .string
    · rw [List.filter_cons_of_pos (by simpa using string), List.flatMap_cons, List.count_append]
    · have flat : token.lexeme.toList.count '\n' = 0 := List.count_eq_zero.mpr (single_line string ruled.1)
      rw [List.filter_cons_of_neg (by simpa using string), flat, Nat.zero_add]

private theorem silent_of_spaced {pieces : List Piece} (lexemes : ∀ piece ∈ pieces, piece.isLexeme = true) (line : Nat) :
    (Scan.ofPieces line (pieces.intersperse space)).errors = [] := by
  have plain : ∀ piece ∈ pieces.intersperse space, piece.isLexeme = true ∨ piece = space :=
    fun piece member => (mem_spaced member).imp_left (lexemes piece)
  generalize pieces.intersperse space = spaced at plain
  induction spaced generalizing line with
  | nil => rfl
  | cons piece rest ih =>
    rw [List.forall_mem_cons] at plain
    have others := ih (lineAfter line (piece.text.count '\n')) plain.2
    obtain named | rfl := plain.1
    · obtain ⟨form, text⟩ := piece
      cases form with
      | lexeme kind => exact others
      | _ => cases named
    · exact others

private theorem filter_tokens (source : String) : (scan source).tokens.filter (!·.isEof) = lexemes source := by
  have unended : ∀ token ∈ lexemes source, !token.isEof := by
    intro token member
    simpa [Token.isEof] using lexemes_unended source token member
  simp only [scan_tokens, List.filter_append, List.filter_eq_self.mpr unended]
  exact List.append_nil _

/-- Only the spaces stand between the lexemes of the new source. -/
theorem cut_respaced (source : String) :
    cut (" ".intercalate ((lexemes source).map Token.lexeme)).toList =
      ((cut source.toList).filter isLexeme).intersperse space := by
  have texts : ((lexemes source).map Token.lexeme).map String.toList = ((cut source.toList).filter isLexeme).map text := by
    rw [List.map_map]
    exact Scan.lexemes_texts 1 _
  rw [String.toList_intercalate, texts]
  exact cut_spaced (cut_lexemes _)

/-- What is left of the line breaks of a source are those in its strings. -/
theorem lineBreaks_respaced (source : String) :
    lineBreaks (" ".intercalate ((lexemes source).map Token.lexeme)) =
      (((lexemes source).filter (·.kind == .string)).flatMap (·.lexeme.toList)).count '\n' := by
  have ruled := Scan.lexemes_ruled (cut_cuts source.toList).allowed 1
  have texts := Scan.lexemes_texts 1 (cut source.toList)
  calc lineBreaks (" ".intercalate ((lexemes source).map Token.lexeme))
    _ = (((cut source.toList).filter isLexeme).flatMap text).count '\n' := by
      rw [lineBreaks, ← cut_flatten (" ".intercalate _).toList, cut_respaced, spaced_lineBreaks]
    _ = ((lexemes source).flatMap (·.lexeme.toList)).count '\n' := by
      rw [List.flatMap_def, List.flatMap_def, ← texts]
      rfl
    _ = _ := count_strings ruled

/-- The lexemes of a source, with single spaces between them, are scanned again as the same tokens and
without errors. -/
theorem scan_respaced (source : String) :
    let tokens := (scan source).tokens.filter (!·.isEof)
    let respaced := " ".intercalate (tokens.map Token.lexeme)
    let breaks := ((tokens.filter (·.kind == .string)).flatMap (·.lexeme.toList)).count '\n'
    (scan respaced).errors = [] ∧
      (∃ again, (scan respaced).tokens = again ++ [.endOfFile (lineAfter 1 breaks)] ∧
        again.map Token.shape = tokens.map Token.shape) ∧
      ∃ pieces, Cuts source.toList pieces ∧ Cuts respaced.toList ((pieces.filter isLexeme).intersperse space) := by
  intro tokens respaced breaks
  have marked : tokens = lexemes source := filter_tokens source
  have again : cut respaced.toList = ((cut source.toList).filter isLexeme).intersperse space := by
    simp only [respaced, marked, cut_respaced]
  have lines : lineBreaks respaced = breaks := by
    simp only [respaced, breaks, marked, lineBreaks_respaced]
  have cuts := cut_cuts respaced.toList
  rw [again] at cuts
  refine ⟨?_, ⟨lexemes respaced, ?_, ?_⟩, _, cut_cuts _, cuts⟩
  · rw [scan, again]
    exact silent_of_spaced (fun piece member => (cut_lexemes _ piece member).1) 1
  · rw [scan_tokens, lines]
  · rw [marked, lexemes, lexemes, Scan.lexemes_shape, Scan.lexemes_shape, again, spaced_shape]
    exact filter_shape _

end Lox
