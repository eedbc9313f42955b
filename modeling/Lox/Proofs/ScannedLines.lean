import Lox.Source.Scan

/-! A text may be cut at any line break that stands outside strings. Scanning it
gives the tokens and errors of both parts, those of the second part with higher lines. -/

namespace Lox

namespace Piece
variable {test : Char → Bool} {stop : Char}

private theorem takeWhile_append_stop (stops : test stop = false) (chars more : List Char) :
    (chars ++ stop :: more).takeWhile test = chars.takeWhile test := by
  induction chars with
  | nil => rw [List.nil_append, List.takeWhile_cons, stops]; rfl
  | cons first rest ih => rw [List.cons_append, List.takeWhile_cons, List.takeWhile_cons, ih]

private theorem run_append_stop (stops : test stop = false) (chars more : List Char) :
    run test (chars ++ stop :: more) = run test chars :=
  congrArg List.length (takeWhile_append_stop stops chars more)

private theorem run_le (test : Char → Bool) (chars : List Char) : run test chars ≤ chars.length :=
  (List.takeWhile_prefix test).length_le

/-- A run that ends before its text does is not changed by what follows the text. -/
private theorem run_append_inside {chars : List Char} (inside : run test chars < chars.length) (more : List Char) :
    run test (chars ++ more) = run test chars := by
  induction chars with
  | nil => cases inside
  | cons first rest ih =>
    unfold run at inside ih ⊢
    rw [List.cons_append, List.takeWhile_cons]
    rw [List.takeWhile_cons] at inside ⊢
    split
    next passes =>
      rw [if_pos passes, List.length_cons, List.length_cons] at inside
      rw [List.length_cons, List.length_cons, ih (Nat.lt_of_succ_lt_succ inside)]
    next => rfl

private theorem head_append_newline {char : Char} (apart : char ≠ '\n') (chars more : List Char) :
    (chars ++ '\n' :: more).head? = some char ↔ chars.head? = some char := by
  cases chars with
  | nil =>
    constructor
    · intro same
      exact absurd (Option.some.inj same).symm apart
    · exact nofun
  | cons first rest => exact Iff.rfl

theorem fractionLength_of_ne {first : Char} (apart : first ≠ '.') (rest : List Char) :
    fractionLength (first :: rest) = 0 := by
  unfold fractionLength
  split
  next same =>
    cases same
    exact absurd rfl apart
  next => rfl

private theorem fractionLength_append (chars more : List Char) :
    fractionLength (chars ++ '\n' :: more) = fractionLength chars := by
  cases chars with
  | nil => rfl
  | cons first rest =>
    by_cases point : first = '.'
    · subst point
      simp only [List.cons_append, fractionLength, run_append_stop (show Char.isDigit '\n' = false by decide)]
    · rw [List.cons_append, fractionLength_of_ne point, fractionLength_of_ne point]

private theorem numberTail_append (chars more : List Char) : numberTail (chars ++ '\n' :: more) = numberTail chars := by
  have digits : run Char.isDigit (chars ++ '\n' :: more) = run Char.isDigit chars :=
    run_append_stop (by decide) chars more
  simp only [numberTail, digits, List.drop_append_of_le_length (run_le Char.isDigit chars), fractionLength_append]

private theorem maybeEqual_append (chars more : List Char) (alone withEqual : Kind) :
    maybeEqual (chars ++ '\n' :: more) alone withEqual = maybeEqual chars alone withEqual := by
  simp only [maybeEqual, head_append_newline (show '=' ≠ '\n' by decide)]

private theorem markTail_append (first : Char) (chars more : List Char) :
    markTail first (chars ++ '\n' :: more) = markTail first chars := by
  unfold markTail
  simp only [maybeEqual_append]

private theorem stringTail_append {chars : List Char} (closed : (stringTail chars).1 ≠ .unterminated) (more : List Char) :
    stringTail (chars ++ more) = stringTail chars := by
  simp only [stringTail] at closed ⊢
  by_cases inside : run (· != '"') chars < chars.length
  · have further : run (· != '"') chars < (chars ++ more).length := by rw [List.length_append]; omega
    simp only [run_append_inside inside, if_pos inside, if_pos further]
  · rw [if_neg inside] at closed
    exact absurd rfl closed

/-- A line break after a text changes no piece of the text. -/
theorem measure_append {first : Char} {rest : List Char} (closed : (measure first rest).1 ≠ .unterminated)
    (more : List Char) : measure first (rest ++ '\n' :: more) = measure first rest := by
  have slashes := head_append_newline (show '/' ≠ '\n' by decide) rest more
  have blanks : run isBlank (rest ++ '\n' :: more) = run isBlank rest := run_append_stop (by decide) rest more
  have line : run (· != '\n') (rest ++ '\n' :: more) = run (· != '\n') rest := run_append_stop (by decide) rest more
  have word : (rest ++ '\n' :: more).takeWhile continuesWord = rest.takeWhile continuesWord :=
    takeWhile_append_stop (by decide) rest more
  by_cases blank : isBlank first = true
  · simp only [measure, if_pos blank, blanks]
  by_cases newline : first = '\n'
  · simp only [measure, if_neg blank, if_pos newline]
  by_cases comment : first = '/' ∧ rest.head? = some '/'
  · simp only [measure, if_neg blank, if_neg newline, slashes, if_pos comment, line]
  by_cases quote : first = '"'
  · simp only [measure, if_neg blank, if_neg newline, slashes, if_neg comment, if_pos quote] at closed ⊢
    exact stringTail_append closed ('\n' :: more)
  · simp only [measure, if_neg blank, if_neg newline, slashes, if_neg comment, if_neg quote, numberTail_append, wordTail,
      word, markTail_append]

private theorem numberTail_le (rest : List Char) : numberTail rest ≤ rest.length := by
  have whole := run_le Char.isDigit rest
  have fraction : ∀ chars, fractionLength chars ≤ chars.length := by
    intro chars
    unfold fractionLength
    split
    next after =>
      have digits := run_le Char.isDigit after
      split
      · exact Nat.zero_le _
      · exact Nat.succ_le_succ digits
    next => exact Nat.zero_le _
  have tail := fraction (rest.drop (run Char.isDigit rest))
  rw [List.length_drop] at tail
  rw [numberTail]
  omega

private theorem maybeEqual_le (rest : List Char) (alone withEqual : Kind) : (maybeEqual rest alone withEqual).2 ≤ rest.length := by
  rw [maybeEqual]
  split
  next follows => cases rest with
    | nil => cases follows
    | cons => exact Nat.succ_le_succ (Nat.zero_le _)
  next => exact Nat.zero_le _

private theorem stringTail_le (rest : List Char) : (stringTail rest).2 ≤ rest.length := by
  simp only [stringTail]
  split
  next inside => exact inside
  next => exact run_le _ rest

theorem measure_le (first : Char) (rest : List Char) : (measure first rest).2 ≤ rest.length := by
  unfold measure
  split
  next => exact run_le isBlank rest
  split
  next => exact Nat.zero_le _
  split
  next => exact run_le _ rest
  split
  next => exact stringTail_le rest
  split
  next => exact numberTail_le rest
  split
  next => exact (List.takeWhile_prefix continuesWord).length_le
  next =>
    unfold markTail
    split
    all_goals first | exact Nat.zero_le _ | exact maybeEqual_le rest _ _

theorem cut_cons (first : Char) (rest : List Char) :
    cut (first :: rest) =
      ⟨(measure first rest).1, first :: rest.take (measure first rest).2⟩ :: cut (rest.drop (measure first rest).2) := by
  rw [cut]

/-- A text that ends in no open string is cut apart from what follows its last line. -/
theorem cut_append {chars : List Char} (closed : ∀ piece ∈ cut chars, piece.form ≠ .unterminated) (more : List Char) :
    cut (chars ++ '\n' :: more) = cut chars ++ ⟨.newline, ['\n']⟩ :: cut more := by
  induction chars using cut.induct with
  | case1 =>
    rw [List.nil_append, cut_cons, cut]
    rfl
  | case2 first rest measured ih =>
    rw [cut_cons, List.forall_mem_cons] at closed
    have inside : (measure first rest).2 ≤ rest.length := measure_le first rest
    rw [List.cons_append, cut_cons, cut_cons, measure_append closed.1, List.take_append_of_le_length inside,
      List.drop_append_of_le_length inside, ih closed.2]
    rfl

private theorem kind_ofWord (word : String) : Kind.ofWord word ≠ .eof := by
  unfold Kind.ofWord
  cases found : Kind.keywords.find? (fun keyword => keyword.displayName == word) with
  | none => exact nofun
  | some keyword =>
    have keywords : ∀ kind ∈ Kind.keywords, kind ≠ .eof := by decide
    exact keywords keyword (List.mem_of_find?_eq_some found)

/-- No piece of a text is a token that marks the end of it. -/
private theorem measure_ne_eof (first : Char) (rest : List Char) : (measure first rest).1 ≠ .lexeme .eof := by
  unfold measure
  split
  next => exact nofun
  split
  next => exact nofun
  split
  next => exact nofun
  split
  next =>
    simp only [stringTail]
    split <;> exact nofun
  split
  next => exact nofun
  split
  next =>
    intro same
    exact kind_ofWord _ (Form.lexeme.inj same)
  next =>
    unfold markTail maybeEqual
    repeat' split
    all_goals exact nofun

theorem cut_ne_eof (chars : List Char) : ∀ piece ∈ cut chars, piece.form ≠ .lexeme .eof := by
  induction chars using cut.induct with
  | case1 =>
    rw [cut]
    exact nofun
  | case2 first rest measured ih =>
    rw [cut_cons]
    exact List.forall_mem_cons.mpr ⟨measure_ne_eof first rest, ih⟩

end Piece

theorem lineAfter_lineAfter (line first second : Nat) :
    lineAfter (lineAfter line first) second = lineAfter line (first + second) := by
  unfold lineAfter
  omega

private theorem lineAfter_comm (line first second : Nat) :
    lineAfter (lineAfter line first) second = lineAfter (lineAfter line second) first := by
  rw [lineAfter_lineAfter, lineAfter_lineAfter, Nat.add_comm]

def Token.raise (token : Token) (lines : Nat) : Token := { token with line := lineAfter token.line lines }

def LexicalError.raise (error : LexicalError) (lines : Nat) : LexicalError :=
  { error with line := lineAfter error.line lines }

namespace Scan

def endLine (line : Nat) : List Piece → Nat
  | [] => line
  | piece :: rest => endLine (lineAfter line (piece.text.count '\n')) rest

def lexemes (line : Nat) : List Piece → List Token
  | [] => []
  | piece :: rest =>
    let reached := lineAfter line (piece.text.count '\n')
    match piece.form with
    | .lexeme kind => token kind piece.text reached :: lexemes reached rest
    | _ => lexemes reached rest

theorem endLine_eq {line : Nat} (inside : line ≤ lastLine) (pieces : List Piece) :
    endLine line pieces = lineAfter line ((pieces.flatMap Piece.text).count '\n') := by
  induction pieces generalizing line with
  | nil => exact (Nat.min_eq_left inside).symm
  | cons piece rest ih =>
    have bounded : lineAfter line (piece.text.count '\n') ≤ lastLine := Nat.min_le_right _ _
    rw [endLine, ih bounded, lineAfter_lineAfter, List.flatMap_cons, List.count_append]

theorem ofPieces_tokens (line : Nat) (pieces : List Piece) :
    (ofPieces line pieces).tokens = lexemes line pieces ++ [.endOfFile (endLine line pieces)] := by
  induction pieces generalizing line with
  | nil => rfl
  | cons piece rest ih =>
    simp only [ofPieces, lexemes, endLine, addPiece]
    cases piece.form with
    | lexeme kind =>
      simp only [addToken, ih]
      rfl
    | blank | newline | comment | unterminated | unexpected => exact ih _

/-- Only a string without an end is reported as one. -/
theorem ofPieces_closed {line : Nat} {pieces : List Piece} :
    (∀ error ∈ (ofPieces line pieces).errors, error.fault ≠ .unterminatedString) ↔
      ∀ piece ∈ pieces, piece.form ≠ .unterminated := by
  induction pieces generalizing line with
  | nil => exact ⟨nofun, nofun⟩
  | cons piece rest ih =>
    rw [List.forall_mem_cons, ← ih]
    simp only [ofPieces, addPiece]
    cases piece.form with
    | lexeme | blank | newline | comment => exact ⟨fun closed => ⟨nofun, closed⟩, fun both => both.2⟩
    | unterminated =>
      exact ⟨fun closed => absurd rfl (closed _ List.mem_cons_self), fun both => absurd rfl both.1⟩
    | unexpected =>
      exact ⟨fun closed => ⟨nofun, (List.forall_mem_cons.mp closed).2⟩,
        fun both => List.forall_mem_cons.mpr ⟨nofun, both.2⟩⟩

theorem errors_append (line : Nat) (first rest : List Piece) :
    (ofPieces line (first ++ rest)).errors =
      (ofPieces line first).errors ++ (ofPieces (endLine line first) rest).errors := by
  induction first generalizing line with
  | nil => rfl
  | cons piece others ih =>
    simp only [List.cons_append, ofPieces, endLine, addPiece]
    cases piece.form with
    | lexeme | blank | newline | comment => exact ih _
    | unterminated | unexpected => exact congrArg (List.cons _) (ih _)

theorem errors_raise (line lines : Nat) (pieces : List Piece) :
    (ofPieces (lineAfter line lines) pieces).errors = (ofPieces line pieces).errors.map (·.raise lines) := by
  induction pieces generalizing line with
  | nil => rfl
  | cons piece rest ih =>
    simp only [ofPieces, addPiece, lineAfter_comm line lines]
    cases piece.form with
    | lexeme | blank | newline | comment => exact ih _
    | unterminated | unexpected => exact congrArg (List.cons _) (ih _)

theorem lexemes_append (line : Nat) (first rest : List Piece) :
    lexemes line (first ++ rest) = lexemes line first ++ lexemes (endLine line first) rest := by
  induction first generalizing line with
  | nil => rfl
  | cons piece others ih =>
    simp only [List.cons_append, lexemes, endLine, ih]
    cases piece.form <;> rfl

theorem lexemes_raise (line lines : Nat) (pieces : List Piece) :
    lexemes (lineAfter line lines) pieces = (lexemes line pieces).map (·.raise lines) := by
  induction pieces generalizing line with
  | nil => rfl
  | cons piece rest ih =>
    simp only [lexemes, lineAfter_comm line lines, ih]
    cases piece.form <;> rfl

theorem lexemes_unended {pieces : List Piece} (unended : ∀ piece ∈ pieces, piece.form ≠ .lexeme .eof) (line : Nat) :
    ∀ token ∈ lexemes line pieces, token.kind ≠ .eof := by
  induction pieces generalizing line with
  | nil => exact nofun
  | cons piece rest ih =>
    rw [List.forall_mem_cons] at unended
    have others := ih unended.2 (lineAfter line (piece.text.count '\n'))
    simp only [lexemes]
    cases form : piece.form with
    | lexeme kind =>
      rw [form] at unended
      exact List.forall_mem_cons.mpr ⟨fun same => unended.1 (congrArg Form.lexeme same), others⟩
    | blank | newline | comment | unterminated | unexpected => exact others

end Scan

def lineBreaks (source : String) : Nat := source.toList.count '\n'

def lexemes (source : String) : List Token := Scan.lexemes 1 (Piece.cut source.toList)

theorem endLine_cut (source : String) :
    Scan.endLine 1 (Piece.cut source.toList) = lineAfter 1 (lineBreaks source) := by
  rw [Scan.endLine_eq (by decide), Piece.cut_flatten]
  rfl

theorem scan_tokens (source : String) :
    (scan source).tokens = lexemes source ++ [.endOfFile (lineAfter 1 (lineBreaks source))] := by
  rw [scan, Scan.ofPieces_tokens, endLine_cut]
  rfl

theorem lexemes_unended (source : String) : ∀ token ∈ lexemes source, token.kind ≠ .eof :=
  Scan.lexemes_unended (Piece.cut_ne_eof source.toList) 1

section Seam
variable {first second : String}

/-- A source without errors ends in no open string. -/
theorem closed_of_silent (silent : (scan first).errors = []) :
    ∀ error ∈ (scan first).errors, error.fault ≠ .unterminatedString := by
  rw [silent]
  exact nofun

theorem cut_joined (closed : ∀ error ∈ (scan first).errors, error.fault ≠ .unterminatedString) (second : String) :
    Piece.cut (first ++ "\n" ++ second).toList =
      Piece.cut first.toList ++ ⟨.newline, ['\n']⟩ :: Piece.cut second.toList := by
  rw [String.toList_append, String.toList_append, List.append_assoc]
  exact Piece.cut_append (Scan.ofPieces_closed.mp closed) second.toList

theorem endLine_joined (first : String) :
    lineAfter (Scan.endLine 1 (Piece.cut first.toList)) 1 = lineAfter 1 (lineBreaks first + 1) := by
  rw [endLine_cut, lineAfter_lineAfter]

theorem lexemes_joined (closed : ∀ error ∈ (scan first).errors, error.fault ≠ .unterminatedString) (second : String) :
    lexemes (first ++ "\n" ++ second) =
      lexemes first ++ (lexemes second).map (·.raise (lineBreaks first + 1)) := by
  rw [lexemes, cut_joined closed, Scan.lexemes_append]
  show _ ++ Scan.lexemes (lineAfter (Scan.endLine 1 (Piece.cut first.toList)) 1) _ = _
  rw [endLine_joined, Scan.lexemes_raise]
  rfl

theorem errors_joined (closed : ∀ error ∈ (scan first).errors, error.fault ≠ .unterminatedString) (second : String) :
    (scan (first ++ "\n" ++ second)).errors =
      (scan first).errors ++ (scan second).errors.map (·.raise (lineBreaks first + 1)) := by
  rw [scan, cut_joined closed, Scan.errors_append]
  show _ ++ (Scan.ofPieces (lineAfter (Scan.endLine 1 (Piece.cut first.toList)) 1) _).errors = _
  rw [endLine_joined, Scan.errors_raise]
  rfl

theorem scan_joined_silent (firstSilent : (scan first).errors = []) (secondSilent : (scan second).errors = []) :
    (scan (first ++ "\n" ++ second)).errors = [] := by
  rw [errors_joined (closed_of_silent firstSilent), firstSilent, secondSilent]
  rfl

end Seam

end Lox
