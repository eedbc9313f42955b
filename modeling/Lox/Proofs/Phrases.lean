import Lox.Stmt.Printer

/-! Texts in the shape of printed trees: words, and heads with their parts in parentheses.
Such a text can be taken apart in one way only, whatever follows it. -/

namespace Lox

/-- What a printed tree is made of: words, and forms in parentheses that have a head in front of their parts.
-/
inductive Phrase where
  | word (text : String)
  | form (head : String) (parts : List Phrase)

namespace Phrase

mutual

def text : Phrase → String
  | word text => text
  | form head parts => "(" ++ head ++ partsText parts ++ ")"

def partsText : List Phrase → String
  | [] => ""
  | first :: rest => " " ++ first.text ++ partsText rest

end

theorem text_one (head : String) (part : Phrase) : (form head [part]).text = "(" ++ head ++ " " ++ part.text ++ ")" := by
  simp [text, partsText, String.append_assoc]

theorem text_two (head : String) (first second : Phrase) :
    (form head [first, second]).text = "(" ++ head ++ " " ++ first.text ++ " " ++ second.text ++ ")" := by
  simp [text, partsText, String.append_assoc]

theorem text_three (head : String) (first second third : Phrase) :
    (form head [first, second, third]).text =
      "(" ++ head ++ " " ++ first.text ++ " " ++ second.text ++ " " ++ third.text ++ ")" := by
  simp [text, partsText, String.append_assoc]

def isSolid (c : Char) : Bool := c != ' ' && c != '(' && c != ')'

def Solid (word : String) : Prop := word.toList ≠ [] ∧ word.toList.all isSolid = true

inductive Sound : Phrase → Prop where
  | word (solid : Solid name) : Sound (word name)
  | form (solid : Solid head) (inner : ∀ part ∈ parts, Sound part) : Sound (form head parts)

section Sound
variable {head : String} {first second third : Phrase}

theorem Sound.one (solid : Solid head) (only : first.Sound) : Sound (.form head [first]) :=
  .form solid (List.forall_mem_singleton.mpr only)

theorem Sound.two (solid : Solid head) (begins : first.Sound) (ends : second.Sound) :
    Sound (.form head [first, second]) :=
  .form solid (List.forall_mem_cons.mpr ⟨begins, List.forall_mem_singleton.mpr ends⟩)

theorem Sound.three (solid : Solid head) (begins : first.Sound) (goesOn : second.Sound) (ends : third.Sound) :
    Sound (.form head [first, second, third]) :=
  .form solid (List.forall_mem_cons.mpr ⟨begins, List.forall_mem_cons.mpr ⟨goesOn, List.forall_mem_singleton.mpr ends⟩⟩)

end Sound

/-- What follows a phrase: nothing that could go on with a word. -/
def Apart (rest : List Char) : Prop := ∀ next ∈ rest.head?, isSolid next = false

private theorem apart_nil : Apart [] := nofun

private theorem apart_cons {first : Char} (gap : isSolid first = false) (rest : List Char) : Apart (first :: rest) := by
  intro next same
  cases same
  exact gap

/-- A word ends where it is followed by something else. -/
private theorem word_cancel {word other rest more : List Char} (solid : word.all isSolid = true)
    (solidToo : other.all isSolid = true) (ends : Apart rest) (endsToo : Apart more)
    (same : word ++ rest = other ++ more) : word = other ∧ rest = more := by
  induction word generalizing other with
  | nil =>
    cases other with
    | nil => exact ⟨rfl, same⟩
    | cons first others =>
      subst same
      have gap := ends first rfl
      rw [List.all_cons, gap] at solidToo
      cases solidToo
  | cons first letters ih =>
    rw [List.all_cons, Bool.and_eq_true] at solid
    cases other with
    | nil =>
      subst same
      have gap := endsToo first rfl
      rw [gap] at solid
      cases solid.1
    | cons letter others =>
      rw [List.all_cons, Bool.and_eq_true] at solidToo
      obtain ⟨rfl, others⟩ := List.cons.inj same
      obtain ⟨rfl, behind⟩ := ih solid.2 solidToo.2 others
      exact ⟨rfl, behind⟩

private theorem parts_apart (parts : List Phrase) (rest : List Char) : Apart ((partsText parts).toList ++ ')' :: rest) := by
  cases parts with
  | nil => exact apart_cons rfl rest
  | cons first others =>
    rw [partsText, String.toList_append, String.toList_append]
    exact apart_cons rfl _

private theorem form_toList (head : String) (parts : List Phrase) (rest : List Char) :
    (form head parts).text.toList ++ rest = '(' :: (head.toList ++ ((partsText parts).toList ++ ')' :: rest)) := by
  simp [text]

private theorem parts_toList (first : Phrase) (others : List Phrase) (rest : List Char) :
    (partsText (first :: others)).toList ++ rest = ' ' :: (first.text.toList ++ ((partsText others).toList ++ rest)) := by
  simp [partsText]

private theorem word_ne_form {word : String} (solid : Solid word) (rest more : List Char) :
    word.toList ++ rest ≠ '(' :: more := by
  obtain ⟨some, all⟩ := solid
  obtain ⟨first, others, same⟩ := List.exists_cons_of_ne_nil some
  rw [same, List.all_cons, Bool.and_eq_true] at all
  rw [same]
  rintro ⟨⟩
  cases all.1

mutual

/-- A phrase is known by its text, and ends where that ends. -/
theorem read_once (first second : Phrase) {rest more : List Char} (sound : first.Sound) (soundToo : second.Sound)
    (ends : Apart rest) (endsToo : Apart more) (same : first.text.toList ++ rest = second.text.toList ++ more) :
    first = second ∧ rest = more := by
  match first, second with
  | word text, word other =>
    cases sound with
    | word solid =>
      cases soundToo with
      | word solidToo =>
        obtain ⟨chars, same⟩ := word_cancel solid.2 solidToo.2 ends endsToo same
        exact ⟨congrArg word (String.toList_inj.mp chars), same⟩
  | word text, form head parts =>
    cases sound with
    | word solid =>
      rw [form_toList] at same
      exact absurd same (word_ne_form solid rest _)
  | form head parts, word text =>
    cases soundToo with
    | word solid =>
      rw [form_toList] at same
      exact absurd same.symm (word_ne_form solid more _)
  | form head parts, form other others =>
    cases sound with
    | form solid inner =>
      cases soundToo with
      | form solidToo innerToo =>
        rw [form_toList, form_toList] at same
        obtain ⟨chars, after⟩ := word_cancel solid.2 solidToo.2 (parts_apart _ _) (parts_apart _ _) (List.cons.inj same).2
        obtain ⟨rfl, behind⟩ := parts_read_once parts others inner innerToo ends endsToo after
        exact ⟨congrArg (form · parts) (String.toList_inj.mp chars), behind⟩

theorem parts_read_once (parts others : List Phrase) {rest more : List Char} (sound : ∀ part ∈ parts, part.Sound)
    (soundToo : ∀ part ∈ others, part.Sound) (ends : Apart rest) (endsToo : Apart more)
    (same : (partsText parts).toList ++ ')' :: rest = (partsText others).toList ++ ')' :: more) :
    parts = others ∧ rest = more := by
  match parts, others with
  | [], [] => exact ⟨rfl, (List.cons.inj same).2⟩
  | [], second :: others =>
    rw [parts_toList] at same
    cases (List.cons.inj same).1
  | first :: parts, [] =>
    rw [parts_toList] at same
    cases (List.cons.inj same).1
  | first :: parts, second :: others =>
    rw [List.forall_mem_cons] at sound soundToo
    rw [parts_toList, parts_toList] at same
    obtain ⟨rfl, after⟩ := read_once first second sound.1 soundToo.1 (parts_apart _ _) (parts_apart _ _)
      (List.cons.inj same).2
    obtain ⟨rfl, behind⟩ := parts_read_once parts others sound.2 soundToo.2 ends endsToo after
    exact ⟨rfl, behind⟩

end

theorem eq_of_text {first second : Phrase} (sound : first.Sound) (soundToo : second.Sound)
    (same : first.text = second.text) : first = second :=
  (read_once first second sound soundToo apart_nil apart_nil (by rw [same])).1

end Phrase

end Lox
