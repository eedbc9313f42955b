import Mathlib.Data.List.Forall2
import Lox.Proofs.AcceptedPrograms
import Lox.Proofs.ClauseReading

/-! A clause that is no declaration costs one error and nothing else: what comes
after it is read as if the clause were not there. -/

namespace Lox
open Grammar Reading

/-- A clause for a statement without a body, right or wrong. Only its first token may be one that
starts a statement. -/
structure SimpleClause where
  tokens : List Token
  semicolon : Token
  ends : semicolon.kind = .semicolon
  unended : ∀ token ∈ tokens, token.kind ≠ .eof
  single : ∀ token ∈ tokens, token.kind ≠ .semicolon
  inner : ∀ token ∈ tokens.tail, Boundary.starters.contains token.kind = false
  simple : ∀ first ∈ tokens.head?, first.kind ≠ .leftBrace ∧ first.kind ≠ .kwIf ∧ first.kind ≠ .kwWhile

/-- What comes of one clause: its declaration, if it is one, and otherwise one error in it. -/
structure CostsOne (clause : List Token) (statements : List Stmt) (errors : List SyntaxError) : Prop where
  few : statements.length ≤ 1
  once : errors.length ≤ 1
  silent : errors = [] ↔ ∃ tree, Declaration clause tree
  survives : ∀ tree, Declaration clause tree → statements = [tree]
  blames : ∀ error ∈ errors, error.token ∈ clause

namespace Boundary

private theorem starters_semicolon : starters.contains .semicolon = false := by decide

private theorem distance_semicolon {previous : Option Kind} (after : previous = some .semicolon) (tokens : List Token) :
    distance previous tokens = 0 := by
  cases tokens with
  | nil => rfl
  | cons next rest =>
    have boundary : isBoundary previous next = true := by
      rw [isBoundary, after, beq_self_eq_true, Bool.or_true, Bool.true_or]
    rw [distance, if_pos boundary]

private theorem not_boundary {previous : Option Kind} {next : Token} (inside : previous ≠ some .semicolon)
    (unended : next.kind ≠ .eof) (starts : starters.contains next.kind = false) :
    ¬ isBoundary previous next = true := by
  have other : next.isEof = false := Bool.eq_false_iff.mpr fun isEnd => unended (Token.isEof_iff.mp isEnd)
  have apart : (previous == some .semicolon) = false := beq_eq_false_iff_ne.mpr inside
  rw [isBoundary, other, apart, starts]
  decide

/-- From inside a clause the next boundary is where the clause ends. -/
theorem distance_clause {semicolon : Token} (ends : semicolon.kind = .semicolon) (rest : List Token)
    {tokens : List Token} {previous : Option Kind} (inside : previous ≠ some .semicolon)
    (unended : ∀ token ∈ tokens, token.kind ≠ .eof) (single : ∀ token ∈ tokens, token.kind ≠ .semicolon)
    (inner : ∀ token ∈ tokens, starters.contains token.kind = false) :
    distance previous (tokens ++ semicolon :: rest) = tokens.length + 1 := by
  induction tokens generalizing previous with
  | nil =>
    have boundary := not_boundary inside (kind_apart ends (by decide)) (by rw [ends]; exact starters_semicolon)
    rw [List.nil_append, distance, if_neg boundary, distance_semicolon (congrArg some ends)]
    rfl
  | cons next others ih =>
    rw [List.forall_mem_cons] at unended single inner
    have boundary := not_boundary inside unended.1 inner.1
    have apart : some next.kind ≠ some Kind.semicolon := fun same => single.1 (Option.some.inj same)
    rw [List.cons_append, distance, if_neg boundary, ih apart unended.2 single.2 inner.2]
    rfl

end Boundary

namespace SimpleClause

def all (segment : SimpleClause) : List Token := segment.tokens ++ [segment.semicolon]

variable (segment : SimpleClause)

private theorem all_append (rest : List Token) : segment.all ++ rest = segment.tokens ++ segment.semicolon :: rest := by
  rw [all, List.append_assoc]
  rfl

private theorem length_all : segment.all.length = segment.tokens.length + 1 := by
  rw [all, List.length_append]
  rfl

private theorem clause_append (stop : Token) (rest : List Token) : clause stop (segment.all ++ rest) = segment.all := by
  have ended : ∀ tokens : List Token, (∀ token ∈ tokens, token.kind ≠ .semicolon) →
      clause stop (tokens ++ segment.semicolon :: rest) = tokens ++ [segment.semicolon] := by
    intro tokens
    induction tokens with
    | nil =>
      intro _
      exact if_pos segment.ends
    | cons first others ih =>
      intro single
      rw [List.forall_mem_cons] at single
      rw [List.cons_append, clause_cons single.1, ih single.2]
      rfl
  rw [all_append, ended _ segment.single]
  rfl

private theorem distance_inside {taken : Nat} (some : 0 < taken) (inside : taken ≤ segment.tokens.length) (rest : List Token) :
    Boundary.distance ((segment.all ++ rest)[taken - 1]?.map Token.kind) ((segment.all ++ rest).drop taken) =
      segment.tokens.length - taken + 1 := by
  have within : taken - 1 < segment.tokens.length := by omega
  have previous : (segment.all ++ rest)[taken - 1]? = .some segment.tokens[taken - 1] := by
    rw [all_append, List.getElem?_append_left within, List.getElem?_eq_getElem within]
  have remains : (segment.all ++ rest).drop taken = segment.tokens.drop taken ++ segment.semicolon :: rest := by
    rw [all_append, List.drop_append_of_le_length inside]
  have apart : (Option.some segment.tokens[taken - 1]).map Token.kind ≠ .some .semicolon :=
    fun same => segment.single _ (List.getElem_mem within) (Option.some.inj same)
  -- What is left stands behind the first token, which alone may start a statement.
  have behind : segment.tokens.drop taken = segment.tokens.tail.drop (taken - 1) := by
    rw [List.drop_tail, Nat.sub_add_cancel some]
  rw [previous, remains, Boundary.distance_clause segment.ends rest apart, List.length_drop]
  · intro token member
    exact segment.unended token (List.mem_of_mem_drop member)
  · intro token member
    exact segment.single token (List.mem_of_mem_drop member)
  · intro token member
    rw [behind] at member
    exact segment.inner token (List.mem_of_mem_drop member)

/-- A clause in which reading fails is given up as a whole. -/
private theorem skip_append {width : Nat} (inside : width < segment.all.length) (rest : List Token) :
    Boundary.skip (segment.all ++ rest) width = segment.all.length := by
  rw [length_all] at inside ⊢
  by_cases empty : segment.tokens = []
  · obtain rfl : width = 0 := by
      rw [empty, List.length_nil] at inside
      omega
    rw [all_append, empty]
    show 1 + Boundary.distance (some segment.semicolon.kind) rest = 1
    rw [Boundary.distance_semicolon (congrArg some segment.ends)]
  · have nonempty : 0 < segment.tokens.length := List.length_pos_iff.mpr empty
    rw [Boundary.skip, segment.distance_inside (by omega) (by omega)]
    omega

private theorem all_eq_cons : ∃ first more, segment.all = first :: more ∧
    first.kind ≠ .leftBrace ∧ first.kind ≠ .kwIf ∧ first.kind ≠ .kwWhile := by
  cases same : segment.tokens with
  | nil =>
    refine ⟨segment.semicolon, [], ?_, kind_apart segment.ends (by decide), kind_apart segment.ends (by decide),
      kind_apart segment.ends (by decide)⟩
    rw [all, same]
    rfl
  | cons first more =>
    refine ⟨first, more ++ [segment.semicolon], ?_, segment.simple first (by rw [same]; rfl)⟩
    rw [all, same]
    rfl

/-- A declaration without a body waits for no `else`. -/
private theorem complete_of_simple {first : Token} {more : List Token} {tree : Stmt}
    (simple : first.kind ≠ .leftBrace ∧ first.kind ≠ .kwIf ∧ first.kind ≠ .kwWhile)
    (declaration : Declaration (first :: more) tree) : awaitsElse tree = false := by
  obtain ⟨_, notIf, notWhile⟩ := simple
  generalize same : first :: more = tokens at declaration
  cases declaration with
  | declare | withValue => rfl
  | statement inner =>
    cases inner with
    | expression | print | block | breakLoop => rfl
    | ifThen isIf | ifElse isIf =>
      cases same
      exact absurd isIf notIf
    | whileLoop isWhile =>
      cases same
      exact absurd isWhile notWhile

/-- Whatever is read of the clause, reading goes on right after it. -/
private theorem ofPassage_closing {stop : Token} {rest : List Token} {reading : Reading Stmt}
    (closing : Closing stop (segment.all ++ rest) reading) :
    let batch := Batch.ofPassage (segment.all ++ rest) (.ofReading false reading)
    batch.width = segment.all.length ∧ batch.statements.length ≤ 1 ∧ batch.errors.length ≤ 1 ∧
      ∀ error ∈ batch.errors, error.token ∈ segment.all := by
  obtain ⟨ends, fails, notes⟩ := closing
  rw [clause_append] at ends fails notes
  obtain ⟨result, width, note⟩ := reading
  have noticed : ∀ error ∈ note.toList, error.token ∈ segment.all :=
    fun error member => notes error (Option.mem_toList.mp member)
  cases result with
  | ok statement =>
    refine ⟨ends statement rfl, Nat.le_refl 1, ?_, noticed⟩
    cases note with
    | none => exact Nat.zero_le 1
    | some => exact Nat.le_refl 1
  | error error =>
    obtain ⟨inside, member⟩ := fails error rfl
    refine ⟨segment.skip_append inside rest, Nat.zero_le 1, ?_, ?_⟩
    · cases note <;> exact Nat.le_refl 1
    · cases note with
      | none => exact List.forall_mem_singleton.mpr member
      | some => exact noticed

section Reads
variable {stop : Token} (atEnd : stop.kind = .eof)
include atEnd

private theorem readAll_append (rest : List Token) :
    ∃ head : Batch, CostsOne segment.all head.statements head.errors ∧
      Stmt.readAll stop (segment.all ++ rest) = head ++ Stmt.readAll stop rest := by
  obtain ⟨first, more, same, simple⟩ := segment.all_eq_cons
  have tokens : segment.all ++ rest = first :: (more ++ rest) := by rw [same]; rfl
  obtain ⟨reading, read, closing⟩ := Stmt.readOne_closing atEnd (more ++ rest) simple
  rw [← tokens] at read closing
  obtain ⟨width, few, once, blames⟩ := segment.ofPassage_closing closing
  rw [← read] at width few once blames
  have complete : ∀ tree, Declaration segment.all tree →
      Stmt.readOne stop false first (more ++ rest) = .done [tree] segment.all.length := by
    intro tree declaration
    have settled := settled_of_complete (complete_of_simple simple (same ▸ declaration)) rest
    exact declaration.readOne_done same settled
  refine ⟨Stmt.readOne stop false first (more ++ rest), ⟨few, once, ⟨?_, ?_⟩, ?_, blames⟩, ?_⟩
  · intro silent
    obtain ⟨tree, taken, after, head, split, _, declaration⟩ :=
      (read_follows_each atEnd).2.2 false first (more ++ rest) rfl silent
    have length : taken.length = segment.all.length := by
      rw [head] at width
      exact width
    rw [← tokens] at split
    exact ⟨tree, (List.append_inj_left split length.symm) ▸ declaration⟩
  · intro derived
    obtain ⟨tree, declaration⟩ := derived
    rw [complete tree declaration]
    rfl
  · intro tree declaration
    rw [complete tree declaration]
    rfl
  · have remains : (more ++ rest).drop (segment.all.length - 1) = rest := by
      rw [same, List.length_cons, Nat.add_sub_cancel, List.drop_left]
    rw [tokens, Stmt.readAll, width, remains]

end Reads

end SimpleClause

private theorem Grammar.Declaration.named {keyword second : Token} {more : List Token} {tree : Stmt}
    (declaration : Declaration (keyword :: second :: more) tree) (isVar : keyword.kind = .kwVar) :
    second.kind = .identifier := by
  generalize same : keyword :: second :: more = tokens at declaration
  cases declaration with
  | declare _ isName | withValue _ isName =>
    have name := (List.cons.inj (List.cons.inj same).2).1
    rw [name]
    exact isName
  | statement inner =>
    obtain ⟨first, rest, rfl, member⟩ := inner.starts
    rw [← (List.cons.inj same).1, isVar] at member
    exact absurd member (by decide)

private theorem Feed.ofTokens_before {tokens rest : List Token} (unended : ∀ token ∈ tokens, token.kind ≠ .eof)
    (ended : Ended rest) :
    ofTokens (tokens ++ rest) = ⟨tokens ++ (ofTokens rest).tokens, (ofTokens rest).stop⟩ := by
  obtain ⟨marker, member, isEnd⟩ := ended
  have inside : ∀ token ∈ tokens, token.isEof = false := fun token member =>
    Bool.eq_false_iff.mpr fun isEnd => unended token member (Token.isEof_iff.mp isEnd)
  have kept : ∀ token ∈ tokens, (!token.isEof) = true := fun token member => by rw [inside token member]; rfl
  have passed : tokens.find? Token.isEof = none := by
    apply List.find?_eq_none.mpr
    intro token member
    rw [inside token member]
    exact Bool.false_ne_true
  have found : (rest.find? Token.isEof).isSome := List.find?_isSome.mpr ⟨marker, member, Token.isEof_iff.mpr isEnd⟩
  obtain ⟨stop, first⟩ := Option.isSome_iff_exists.mp found
  rw [ofTokens, ofTokens, List.takeWhile_append_of_pos kept, List.find?_append, passed, Option.none_or, first]
  rfl

private theorem SimpleClause.unended_all (segment : SimpleClause) : ∀ token ∈ segment.all, token.kind ≠ .eof := by
  rw [all, List.forall_mem_append, List.forall_mem_singleton]
  exact ⟨segment.unended, kind_apart segment.ends (by decide)⟩

theorem parseProgram_clause (segment : SimpleClause) {rest : List Token} (ended : Ended rest) :
    ∃ first : ParsedProgram, CostsOne segment.all first.statements first.errors ∧
      parseProgram (segment.all ++ rest) =
        ⟨first.statements ++ (parseProgram rest).statements, first.errors ++ (parseProgram rest).errors⟩ := by
  obtain ⟨head, costs, read⟩ := segment.readAll_append (Feed.stop_of_ended ended) (Feed.ofTokens rest).tokens
  refine ⟨⟨head.statements, head.errors⟩, costs, ?_⟩
  simp only [parseProgram, Feed.ofTokens_before segment.unended_all ended, read]
  rfl

theorem parseProgram_clauses (segments : List SimpleClause) {rest : List Token} (ended : Ended rest) :
    ∃ firsts : List ParsedProgram,
      List.Forall₂ (fun segment first => CostsOne segment.all first.statements first.errors) segments firsts ∧
      parseProgram (segments.flatMap SimpleClause.all ++ rest) =
        ⟨firsts.flatMap ParsedProgram.statements ++ (parseProgram rest).statements,
          firsts.flatMap ParsedProgram.errors ++ (parseProgram rest).errors⟩ := by
  induction segments with
  | nil => exact ⟨[], .nil, rfl⟩
  | cons segment segments ih =>
    obtain ⟨firsts, each, others⟩ := ih
    have after : Ended (segments.flatMap SimpleClause.all ++ rest) := by
      obtain ⟨marker, member, isEnd⟩ := ended
      exact ⟨marker, List.mem_append_right _ member, isEnd⟩
    obtain ⟨first, costs, parsed⟩ := parseProgram_clause segment after
    refine ⟨first :: firsts, .cons costs each, ?_⟩
    rw [List.flatMap_cons, List.append_assoc, parsed, others]
    simp only [List.flatMap_cons, List.append_assoc]

/-- A clause that is no declaration costs one error, and what follows is read as it would be alone;
so do any number of clauses in a row, each of them by itself. -/
theorem faulty_clauses_cost_one {rest : List Token} (ended : Ended rest) :
    (∀ segment : SimpleClause, ∃ first : ParsedProgram, CostsOne segment.all first.statements first.errors ∧
      parseProgram (segment.all ++ rest) =
        ⟨first.statements ++ (parseProgram rest).statements, first.errors ++ (parseProgram rest).errors⟩) ∧
    ∀ segments : List SimpleClause, ∃ firsts : List ParsedProgram,
      List.Forall₂ (fun segment first => CostsOne segment.all first.statements first.errors) segments firsts ∧
      parseProgram (segments.flatMap SimpleClause.all ++ rest) =
        ⟨firsts.flatMap ParsedProgram.statements ++ (parseProgram rest).statements,
          firsts.flatMap ParsedProgram.errors ++ (parseProgram rest).errors⟩ :=
  ⟨fun segment => parseProgram_clause segment ended, fun segments => parseProgram_clauses segments ended⟩

/-- A declaration without a name, before a statement in the same line. -/
theorem faulty_clauses_cost_one_nameless :
    let keyword : Token := .simple .kwVar "var" 1
    let one : Token := ⟨.number, "1", some (.number 1), 1⟩
    let semicolon : Token := .simple .semicolon ";" 1
    let print : Token := .simple .kwPrint "print" 1
    let name : Token := .simple .identifier "a" 1
    let tokens := [keyword, one, semicolon, print, name, semicolon]
    Ended [.endOfFile 1] ∧ ∃ error, (parseProgram (tokens ++ [.endOfFile 1])).errors = [error] ∧
      error.token ∈ [keyword, one, semicolon] ∧
      .print (.var name) ∈ (parseProgram (tokens ++ [.endOfFile 1])).statements := by
  intro keyword one semicolon print name tokens
  have ended : Ended [.endOfFile 1] := ⟨.endOfFile 1, List.mem_singleton_self _, rfl⟩
  let nameless : SimpleClause := ⟨[keyword, one], semicolon, rfl, by decide, by decide, by decide, by decide⟩
  let printed : SimpleClause := ⟨[print, name], semicolon, rfl, by decide, by decide, by decide, by decide⟩
  have noDeclaration : ¬ ∃ tree, Declaration nameless.all tree := by
    intro derived
    obtain ⟨tree, declaration⟩ := derived
    have isName : one.kind = .identifier := declaration.named rfl
    cases isName
  have declared : Declaration printed.all (.print (.var name)) :=
    .statement (.print rfl (Derives.primary (.name rfl)).expression rfl)
  have nothing : parseProgram [.endOfFile 1] = ⟨[], []⟩ := parseProgram_complete .nil
  obtain ⟨firsts, each, parsed⟩ := (faulty_clauses_cost_one ended).2 [nameless, printed]
  rw [nothing] at parsed
  cases each with
  | @cons _ bad _ _ faulty others =>
    cases others with
    | @cons _ good _ _ sound others =>
      cases others
      have reported : bad.errors ≠ [] := fun silent => noDeclaration (faulty.silent.mp silent)
      have count : bad.errors.length = 1 := Nat.le_antisymm faulty.once (List.length_pos_iff.mpr reported)
      obtain ⟨error, single⟩ := List.length_eq_one_iff.mp count
      have silent : good.errors = [] := sound.silent.mpr ⟨_, declared⟩
      refine ⟨ended, error, ?_, faulty.blames error (by rw [single]; exact List.mem_singleton_self error), ?_⟩
      · refine (congrArg ParsedProgram.errors parsed).trans ?_
        simp only [List.flatMap_cons, List.flatMap_nil, single, silent, List.append_nil]
      · refine (congrArg ParsedProgram.statements parsed).symm ▸ ?_
        simp only [List.flatMap_cons, List.flatMap_nil, sound.survives _ declared, List.append_nil]
        exact List.mem_append_right _ (List.mem_singleton_self _)

end Lox
