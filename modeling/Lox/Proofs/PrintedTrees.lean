import Lox.Proofs.Phrases
import Lox.Proofs.PrintedNumbers
import Lox.Proofs.RenumberedReading
import Lox.Proofs.RuledTrees

/-! A tree is known by its printed form, up to line numbers, if no string can pass for
something else in it and no number is printed as a name. -/

namespace Lox
open Piece Grammar Operation

def Kind.named (name : String) : Kind := (all.find? (·.displayName == name)).getD .eof

private theorem Kind.named_displayName (kind : Kind) : named kind.displayName = kind := by
  cases kind <;> decide +kernel

def Token.mark (name : String) : Token := .simple (Kind.named name) name 0

def Token.called (name : String) : Token := .simple .identifier name 0

/-- Tokens that are known by their texts: marks, names that are not reserved, and numbers, which are
read back from what is printed of them. -/
inductive Token.Spelled : Token → Prop where
  | fixed (kind : Kind) (line : Nat) (fixed : kind.isFixed = true) : Spelled (.simple kind kind.displayName line)
  | name (word : String) (line : Nat) (first : Char) (rest : List Char) (chars : word.toList = first :: rest)
      (starts : startsWord first = true) (continues : rest.all continuesWord = true)
      (free : Kind.ofWord word = .identifier) : Spelled (.simple .identifier word line)
  | number (digits : Decimal) (lexeme : String) (line : Nat)
      (printed : numberText digits.toFloat = String.ofList digits.toChars) :
      Spelled ⟨.number, lexeme, some (.number digits.toFloat), line⟩

namespace Phrase

instance (word : String) : Decidable (Solid word) := inferInstanceAs (Decidable (_ ∧ _))

def name : Phrase → String
  | word text => text
  | form head _ => head

end Phrase

namespace Expr

def phrase : Expr → Phrase
  | literal value => .word value.text
  | grouping inner => .form "group" [inner.phrase]
  | unary operator operand => .form operator.lexeme [operand.phrase]
  | binary left operator right => .form operator.lexeme [left.phrase, right.phrase]
  | dangling operator right => .form operator.lexeme [.word "<missing>", right.phrase]
  | logical left operator right => .form operator.lexeme [left.phrase, right.phrase]
  | var name => .word name.lexeme
  | assign name value => .form "=" [.word name.lexeme, value.phrase]

theorem phrase_text (tree : Expr) : tree.phrase.text = tree.text := by
  induction tree with
  | literal | var => rfl
  | grouping inner ih =>
    rw [phrase, Phrase.text_one, ih]
    rfl
  | unary operator operand ih =>
    rw [phrase, Phrase.text_one, ih]
    rfl
  | binary left operator right ihLeft ihRight | logical left operator right ihLeft ihRight =>
    rw [phrase, Phrase.text_two, ihLeft, ihRight]
    rfl
  | dangling operator right ih =>
    have missing : " " ++ "<missing>" ++ " " = " <missing> " := rfl
    rw [phrase, Phrase.text_two, ih, Phrase.text, text, ← missing]
    simp only [String.append_assoc]
  | assign name value ih =>
    rw [phrase, Phrase.text_two, ih]
    rfl

def ofWord (word : String) : Expr :=
  if word.toList.head?.any Char.isDigit then literal (.number (Decimal.ofChars word.toList).toFloat)
  else
    match Kind.ofWord word with
    | .kwTrue => literal (.bool true)
    | .kwFalse => literal (.bool false)
    | .kwNil => literal .nil
    | _ => var (.called word)

def ofPhrase : Phrase → Expr
  | .word text => ofWord text
  | .form head [operand] =>
    if head = "group" then grouping (ofPhrase operand) else unary (.mark head) (ofPhrase operand)
  | .form head [left, right] =>
    if head = "=" then assign (.called left.name) (ofPhrase right)
    else if head = "and" ∨ head = "or" then logical (ofPhrase left) (.mark head) (ofPhrase right)
    else binary (ofPhrase left) (.mark head) (ofPhrase right)
  | .form _ _ => literal .nil

end Expr

namespace Stmt

mutual

def phrase : Stmt → Phrase
  | expression value => .form ";" [value.phrase]
  | print value => .form "print" [value.phrase]
  | declare name none => .form "var" [.word name.lexeme]
  | declare name (some initial) => .form "var" [.word name.lexeme, initial.phrase]
  | block body => .form "block" (phrases body)
  | ifThen condition consequence => .form "if" [condition.phrase, consequence.phrase]
  | ifElse condition consequence alternative =>
    .form "if" [condition.phrase, consequence.phrase, alternative.phrase]
  | whileLoop condition body => .form "while" [condition.phrase, body.phrase]
  | breakLoop _ => .form "break" []

def phrases : List Stmt → List Phrase
  | [] => []
  | first :: rest => first.phrase :: phrases rest

end

mutual

def ofPhrase : Phrase → Stmt
  | .form "block" parts => block (ofPhrases parts)
  | .form ";" [value] => expression (.ofPhrase value)
  | .form "print" [value] => print (.ofPhrase value)
  | .form "var" [name] => declare (.called name.name) none
  | .form "var" [name, initial] => declare (.called name.name) (some (.ofPhrase initial))
  | .form "if" [condition, consequence] => ifThen (.ofPhrase condition) (ofPhrase consequence)
  | .form "if" [condition, consequence, alternative] =>
    ifElse (.ofPhrase condition) (ofPhrase consequence) (ofPhrase alternative)
  | .form "while" [condition, body] => whileLoop (.ofPhrase condition) (ofPhrase body)
  | _ => breakLoop (.mark "break")

def ofPhrases : List Phrase → List Stmt
  | [] => []
  | first :: rest => ofPhrase first :: ofPhrases rest

end

private theorem phrases_text {body : List Stmt} (each : ∀ tree ∈ body, tree.phrase.text = tree.text) :
    Phrase.partsText (phrases body) = bodyText body := by
  induction body with
  | nil => rfl
  | cons first rest ih =>
    rw [List.forall_mem_cons] at each
    rw [phrases, Phrase.partsText, each.1, ih each.2, bodyText]

theorem phrase_text (tree : Stmt) : tree.phrase.text = tree.text := by
  induction tree with
  | expression value | print value =>
    rw [phrase, Phrase.text_one, value.phrase_text]
    rfl
  | declare name initial =>
    cases initial with
    | none =>
      rw [phrase, Phrase.text_one]
      rfl
    | some initial =>
      rw [phrase, Phrase.text_two, initial.phrase_text]
      rfl
  | block body ih =>
    rw [phrase, Phrase.text, phrases_text ih]
    rfl
  | ifThen condition consequence ih | whileLoop condition consequence ih =>
    rw [phrase, Phrase.text_two, condition.phrase_text, ih]
    rfl
  | ifElse condition consequence alternative ih other =>
    rw [phrase, Phrase.text_three, condition.phrase_text, ih, other]
    rfl
  | breakLoop keyword => rfl

end Stmt

section Words

private theorem isSolid_of_test {test : Char → Bool} {char : Char} (passes : test char = true) (space : test ' ' = false)
    (opening : test '(' = false) (closing : test ')' = false) : Phrase.isSolid char = true := by
  simp [Phrase.isSolid, ne_of_test passes space, ne_of_test passes opening, ne_of_test passes closing]

private theorem all_isSolid {test : Char → Bool} {chars : List Char} (pass : chars.all test = true) (space : test ' ' = false)
    (opening : test '(' = false) (closing : test ')' = false) : chars.all Phrase.isSolid = true :=
  List.all_eq_true.mpr fun char member =>
    isSolid_of_test (List.all_eq_true.mp pass char member) space opening closing

private theorem Decimal.toChars_head (number : Decimal) : number.toChars.head?.any Char.isDigit = true := by
  obtain ⟨first, whole, fraction, chars, digit, _⟩ := mem_number.mp number.toChars_rule
  rw [chars]
  exact digit

private theorem Decimal.toChars_solid (number : Decimal) : Phrase.Solid (String.ofList number.toChars) := by
  obtain ⟨first, whole, fraction, chars, digit, digits, after⟩ := mem_number.mp number.toChars_rule
  have leading := isSolid_of_test digit rfl rfl rfl
  have before := all_isSolid digits rfl rfl rfl
  rw [Phrase.Solid, String.toList_ofList, chars]
  refine ⟨nofun, ?_⟩
  rw [List.all_cons, List.all_append, leading, before]
  obtain rfl | ⟨next, rest, rfl, point, others⟩ := after
  · rfl
  · rw [List.all_cons, List.all_cons, isSolid_of_test point rfl rfl rfl, all_isSolid others rfl rfl rfl]
    rfl

private theorem solid_word {word : String} {first : Char} {rest : List Char} (chars : word.toList = first :: rest)
    (starts : startsWord first = true) (continues : rest.all continuesWord = true) : Phrase.Solid word := by
  have leading := isSolid_of_test starts rfl rfl rfl
  have others := all_isSolid continues rfl rfl rfl
  rw [Phrase.Solid, chars, List.all_cons, leading, others]
  exact ⟨nofun, rfl⟩

end Words

namespace Token.Spelled
variable {token : Token}

theorem mark_eq (spelled : token.Spelled) (fixed : token.kind.isFixed = true) :
    token.lexeme = token.kind.displayName ∧ Token.mark token.lexeme = token.renumber fun _ => 0 := by
  cases spelled with
  | fixed kind line => exact ⟨rfl, congrArg (Token.simple · kind.displayName 0) kind.named_displayName⟩
  | name | number => cases fixed

/-- A name is known by itself, and neither a number nor a value. -/
theorem name_eq (spelled : token.Spelled) (isName : token.kind = .identifier) :
    Phrase.Solid token.lexeme ∧ Kind.ofWord token.lexeme = .identifier ∧
      token.lexeme.toList.head?.any Char.isDigit = false ∧ Token.called token.lexeme = token.renumber fun _ => 0 := by
  cases spelled with
  | fixed kind line fixed =>
    rw [show kind = .identifier from isName] at fixed
    cases fixed
  | name word line first rest chars starts continues free =>
    refine ⟨solid_word chars starts continues, free, ?_, rfl⟩
    show word.toList.head?.any Char.isDigit = false
    rw [chars]
    refine Bool.eq_false_iff.mpr fun (digit : first.isDigit = true) => ?_
    rw [digit_starts_no_word digit] at starts
    cases starts
  | number => cases isName

end Token.Spelled

namespace Expr

/-- The expression is known by its printed form: what is read back from it is the same tree, but for the lines
of its tokens. -/
structure Recovered (tree : Expr) : Prop where
  sound : tree.phrase.Sound
  back : ofPhrase tree.phrase = tree.renumber fun _ => 0

namespace Recovered
variable {inner left right value : Expr} {operator name : Token}

theorem nothing : Recovered (literal .nil) := ⟨.word (by decide), by rfl⟩

theorem bool (flag : Bool) : Recovered (literal (.bool flag)) := by
  cases flag with
  | true => exact ⟨.word (by decide), by rfl⟩
  | false => exact ⟨.word (by decide), by rfl⟩

theorem number {digits : Decimal} (printed : numberText digits.toFloat = String.ofList digits.toChars) :
    Recovered (literal (.number digits.toFloat)) := by
  have same : phrase (literal (.number digits.toFloat)) = .word (String.ofList digits.toChars) :=
    congrArg Phrase.word printed
  constructor
  · rw [same]
    exact .word digits.toChars_solid
  · rw [same, ofPhrase, ofWord, String.toList_ofList, if_pos digits.toChars_head, digits.ofChars_toChars]
    rfl

theorem var (spelled : name.Spelled) (isName : name.kind = .identifier) : Recovered (var name) := by
  obtain ⟨solid, free, noDigit, same⟩ := spelled.name_eq isName
  refine ⟨.word solid, ?_⟩
  rw [phrase, ofPhrase, ofWord, noDigit, free]
  exact congrArg Expr.var same

theorem grouping (known : inner.Recovered) : (grouping inner).Recovered := by
  refine ⟨.one (by decide) known.sound, ?_⟩
  rw [phrase, ofPhrase, if_pos rfl, known.back]
  rfl

theorem assign (spelled : name.Spelled) (isName : name.kind = .identifier) (known : value.Recovered) :
    (assign name value).Recovered := by
  obtain ⟨solid, _, _, same⟩ := spelled.name_eq isName
  refine ⟨.two (by decide) (.word solid) known.sound, ?_⟩
  rw [phrase, ofPhrase, if_pos rfl, known.back, Phrase.name, same]
  rfl

theorem unary (spelled : operator.Spelled) (rule : operator.kind ∈ unaryRules) (known : inner.Recovered) :
    (unary operator inner).Recovered := by
  have heads : ∀ kind ∈ unaryRules, kind.isFixed = true ∧ Phrase.Solid kind.displayName ∧
      kind.displayName ≠ "group" := by decide
  obtain ⟨fixed, solid, apart⟩ := heads _ rule
  obtain ⟨lexeme, same⟩ := spelled.mark_eq fixed
  rw [← lexeme] at solid apart
  refine ⟨.one solid known.sound, ?_⟩
  rw [phrase, ofPhrase, if_neg apart, known.back, same]
  rfl

theorem binary (spelled : operator.Spelled) (rule : operator.kind ∈ binaryRules) (first : left.Recovered)
    (second : right.Recovered) : (binary left operator right).Recovered := by
  have heads : ∀ kind ∈ binaryRules, kind.isFixed = true ∧ Phrase.Solid kind.displayName ∧
      kind.displayName ≠ "=" ∧ ¬ (kind.displayName = "and" ∨ kind.displayName = "or") := by decide
  obtain ⟨fixed, solid, noAssignment, noWord⟩ := heads _ rule
  obtain ⟨lexeme, same⟩ := spelled.mark_eq fixed
  rw [← lexeme] at solid noAssignment noWord
  refine ⟨.two solid first.sound second.sound, ?_⟩
  rw [phrase, ofPhrase, if_neg noAssignment, if_neg noWord, first.back, second.back, same]
  rfl

theorem logical (spelled : operator.Spelled) (rule : operator.kind ∈ logicalRules) (first : left.Recovered)
    (second : right.Recovered) : (logical left operator right).Recovered := by
  have heads : ∀ kind ∈ logicalRules, kind.isFixed = true ∧ Phrase.Solid kind.displayName ∧
      kind.displayName ≠ "=" ∧ (kind.displayName = "and" ∨ kind.displayName = "or") := by decide
  obtain ⟨fixed, solid, noAssignment, word⟩ := heads _ rule
  obtain ⟨lexeme, same⟩ := spelled.mark_eq fixed
  rw [← lexeme] at solid noAssignment word
  refine ⟨.two solid first.sound second.sound, ?_⟩
  rw [phrase, ofPhrase, if_neg noAssignment, if_pos word, first.back, second.back, same]
  rfl

end Recovered
end Expr

namespace Stmt

structure Recovered (tree : Stmt) : Prop where
  sound : tree.phrase.Sound
  back : ofPhrase tree.phrase = tree.renumber fun _ => 0

namespace Recovered
variable {name keyword : Token} {value condition : Expr} {consequence alternative : Stmt} {body : List Stmt}

theorem expression (known : value.Recovered) : (expression value).Recovered := by
  refine ⟨.one (by decide) known.sound, ?_⟩
  rw [phrase, ofPhrase, known.back]
  rfl

theorem print (known : value.Recovered) : (print value).Recovered := by
  refine ⟨.one (by decide) known.sound, ?_⟩
  rw [phrase, ofPhrase, known.back]
  rfl

theorem declare (spelled : name.Spelled) (isName : name.kind = .identifier) : (declare name none).Recovered := by
  obtain ⟨solid, _, _, same⟩ := spelled.name_eq isName
  refine ⟨.one (by decide) (.word solid), ?_⟩
  rw [phrase, ofPhrase, Phrase.name, same]
  rfl

theorem declareWith (spelled : name.Spelled) (isName : name.kind = .identifier) (known : value.Recovered) :
    (Stmt.declare name (some value)).Recovered := by
  obtain ⟨solid, _, _, same⟩ := spelled.name_eq isName
  refine ⟨.two (by decide) (.word solid) known.sound, ?_⟩
  rw [phrase, ofPhrase, known.back, Phrase.name, same]
  rfl

theorem phrases_sound (known : ∀ tree ∈ body, tree.Recovered) : ∀ part ∈ phrases body, part.Sound := by
  induction body with
  | nil => nofun
  | cons first rest ih =>
    rw [List.forall_mem_cons] at known
    exact List.forall_mem_cons.mpr ⟨known.1.sound, ih known.2⟩

theorem phrases_back (known : ∀ tree ∈ body, tree.Recovered) :
    ofPhrases (phrases body) = renumberAll (fun _ => 0) body := by
  induction body with
  | nil => rfl
  | cons first rest ih =>
    rw [List.forall_mem_cons] at known
    rw [phrases, ofPhrases, known.1.back, ih known.2]
    rfl

theorem block (known : ∀ tree ∈ body, tree.Recovered) : (block body).Recovered := by
  refine ⟨.form (by decide) (phrases_sound known), ?_⟩
  rw [phrase, ofPhrase, phrases_back known]
  rfl

theorem ifThen (test : condition.Recovered) (chosen : consequence.Recovered) :
    (ifThen condition consequence).Recovered := by
  refine ⟨.two (by decide) test.sound chosen.sound, ?_⟩
  rw [phrase, ofPhrase, test.back, chosen.back]
  rfl

theorem ifElse (test : condition.Recovered) (chosen : consequence.Recovered) (other : alternative.Recovered) :
    (ifElse condition consequence alternative).Recovered := by
  refine ⟨.three (by decide) test.sound chosen.sound other.sound, ?_⟩
  rw [phrase, ofPhrase, test.back, chosen.back, other.back]
  rfl

theorem whileLoop (test : condition.Recovered) (inner : consequence.Recovered) :
    (whileLoop condition consequence).Recovered := by
  refine ⟨.two (by decide) test.sound inner.sound, ?_⟩
  rw [phrase, ofPhrase, test.back, inner.back]
  rfl

theorem breakLoop (spelled : keyword.Spelled) (isBreak : keyword.kind = .kwBreak) :
    (breakLoop keyword).Recovered := by
  obtain ⟨lexeme, same⟩ := spelled.mark_eq (by rw [isBreak]; rfl)
  refine ⟨.form (by decide) nofun, ?_⟩
  have read : ofPhrase (.form "break" []) = .breakLoop (.mark "break") := by rfl
  rw [isBreak] at lexeme
  rw [lexeme] at same
  exact read.trans (congrArg Stmt.breakLoop same)

end Recovered
end Stmt

end Lox
