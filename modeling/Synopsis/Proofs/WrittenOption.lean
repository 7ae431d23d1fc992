import Mathlib.Data.List.Chain
import Synopsis.Description
import Synopsis.Proofs.OptionEntries
import Synopsis.Proofs.SameLetters
import Synopsis.Proofs.Trimming

/-!
# Descriptions of options as they are written

A description is written as a short form, a long form or both, each perhaps with a placeholder, two
spaces, and prose in which a default value may be declared. `Written` is such a description, with
what its parts must not hold for them to be told apart; `read_written` says that reading its text
gives these parts back.
-/

namespace Synopsis

namespace Text

variable {w r s : List Char}

/-- A word ends where the text ends or at the next blank. -/
theorem words_append (hne : w ≠ []) (hw : ∀ c ∈ w, isBlank c = false)
    (hr : ∀ c ∈ r.head?, isBlank c = true) : words (w ++ r) = w :: words r := by
  induction w with
  | nil => exact absurd rfl hne
  | cons c w ih =>
    obtain ⟨hc, hw⟩ := List.forall_mem_cons.mp hw
    rw [List.cons_append, words.eq_def]
    dsimp only
    rw [if_neg (Bool.eq_false_iff.mp hc)]
    cases w with
    | nil =>
      cases r with
      | nil => rfl
      | cons d r => exact if_pos (hr d rfl)
    | cons d w =>
      have hd : ¬ isBlank d = true := Bool.eq_false_iff.mp (hw d List.mem_cons_self)
      rw [ih (List.cons_ne_nil d w) hw, List.cons_append]
      exact if_neg hd

theorem words_blank {c : Char} (hc : isBlank c = true) (r : List Char) :
    words (c :: r) = words r := by
  rw [words.eq_def]
  exact if_pos hc

/-- One of two neighbours is no space. -/
def Spaced (c d : Char) : Prop :=
  c ≠ ' ' ∨ d ≠ ' '

theorem isChain_append_word (hw : ∀ c ∈ w, c ≠ ' ') (hr : r.IsChain Spaced) :
    (w ++ r).IsChain Spaced := by
  induction w with
  | nil => exact hr
  | cons c w ih =>
    obtain ⟨hc, hw⟩ := List.forall_mem_cons.mp hw
    exact (ih hw).cons fun _ _ => .inl hc

theorem afterStart?_of_spaced {c : Char} (h : ∀ d ∈ s.head?, Spaced c d) :
    afterStart? [' ', ' '] (c :: s) = none := by
  rw [afterStart?]
  split
  next hc =>
    cases s with
    | nil => rfl
    | cons d s => exact if_neg fun hd => (h d rfl).elim (· hc.symm) (· hd.symm)
  next => rfl

/-- Two spaces are found behind single ones. -/
theorem cut?_spaces (h : (s ++ [' ']).IsChain Spaced) (r : List Char) :
    cut? [' ', ' '] (s ++ ' ' :: ' ' :: r) = some (s, r) := by
  induction s with
  | nil => rfl
  | cons c s ih =>
    rw [List.cons_append] at h ⊢
    obtain ⟨hc, hs⟩ := List.isChain_cons.mp h
    have hhead : (s ++ ' ' :: ' ' :: r).head? = (s ++ [' ']).head? := by cases s <;> rfl
    rw [← hhead] at hc
    rw [cut?, afterStart?_of_spaced hc]
    dsimp only
    rw [ih hs]
    rfl

theorem cut?_single (h : s.IsChain Spaced) : cut? [' ', ' '] s = none := by
  induction s with
  | nil => rfl
  | cons c s ih =>
    obtain ⟨hc, hs⟩ := List.isChain_cons.mp h
    rw [cut?, afterStart?_of_spaced hc]
    dsimp only
    rw [ih hs]
    rfl

/-- A word has no blanks at its end. -/
theorem trimRight_append_word (hne : w ≠ []) (hw : ∀ c ∈ w, isBlank c = false) (s : List Char) :
    trimRight (s ++ w) = s ++ w := by
  obtain ⟨kept, c, rfl⟩ := (List.eq_nil_or_concat' w).resolve_left hne
  rw [← List.append_assoc, trimRight_append_of_ink, trimRight_cons_of_ink]
  · rfl
  · exact hw c (by simp)
  · exact fun hall => Bool.eq_false_iff.mp (hw c (by simp)) (hall c (by simp))

/-- **What comes before the first two spaces** stays as it is if the text is trimmed, and of the
rest the blanks at the end are lost. -/
theorem cut?_trim {c : Char} (hc : isBlank c = false) (h : (c :: s ++ [' ']).IsChain Spaced)
    (htrim : trimRight (c :: s) = c :: s) (r : List Char) :
    (cut? [' ', ' '] (trim (c :: s ++ ' ' :: ' ' :: r))).getD
      (trim (c :: s ++ ' ' :: ' ' :: r), []) = (c :: s, trimRight r) := by
  have hright : trim (c :: s ++ ' ' :: ' ' :: r) = trimRight (c :: s ++ ([' ', ' '] ++ r)) := by
    have hhead := trim_append_of_head hc [] (s ++ ' ' :: ' ' :: r)
    rw [← trimRight_cons_of_ink hc] at hhead
    exact hhead
  rw [hright]
  by_cases hr : AllBlank r
  · have hspaces : AllBlank ([' ', ' '] ++ r) :=
      List.forall_mem_cons.mpr ⟨isBlank_space, List.forall_mem_cons.mpr ⟨isBlank_space, hr⟩⟩
    rw [trimRight_append_of_blank hspaces, htrim, cut?_single h.left_of_append,
      trimRight_eq_nil_iff.mpr hr]
    rfl
  · have hink : ¬ AllBlank ([' ', ' '] ++ r) := fun hall => hr (allBlank_append.mp hall).2
    rw [trimRight_append_of_ink hink, trimRight_append_of_ink hr]
    exact congrArg (Option.getD · _) (cut?_spaces h (trimRight r))

end Text

namespace Description

open Text (AllBlank SameLetters Spaced isBlank)

variable {w r s label value tail : List Char}

/-- A character that a form or a placeholder is made of. -/
def isPlain (c : Char) : Bool :=
  !isBlank c && c != ',' && c != '='

structure IsWord (w : List Char) : Prop where
  nonempty : w ≠ []
  plain : ∀ c ∈ w, isPlain c = true

/-- A short form, with any letter, or a long one. -/
inductive WrittenForm
  | short (letter : Char) (plain : isPlain letter = true) (dashless : letter ≠ '-')
  | long (name : List Char) (isWord : IsWord name)

/-- A placeholder behind an equals sign or a space. -/
structure Placeholder where
  sign : Bool
  word : List Char
  isWord : IsWord word
  dashless : word.head? ≠ some '-'

/-- A form and the placeholder behind it. -/
structure Item where
  form : WrittenForm
  placeholder : Option Placeholder

/-- What stands between two forms. -/
inductive Separator
  | comma
  | commaSpace
  | space

namespace WrittenForm

def isLong : WrittenForm → Bool
  | short .. => false
  | long .. => true

def word : WrittenForm → List Char
  | short letter _ _ => ['-', letter]
  | long name _ => '-' :: '-' :: name

def short? : WrittenForm → Option String
  | short letter _ _ => some (String.ofList ['-', letter])
  | long .. => none

def long? : WrittenForm → Option String
  | short .. => none
  | long name _ => some (String.ofList ('-' :: '-' :: name))

end WrittenForm

def Placeholder.text (p : Placeholder) : List Char :=
  (if p.sign then '=' else ' ') :: p.word

def Item.text (i : Item) : List Char :=
  i.form.word ++ (i.placeholder.map Placeholder.text).getD []

def Separator.text : Separator → List Char
  | comma => [',']
  | commaSpace => [',', ' ']
  | space => [' ']

/-- One form, or a short and a long one in either order. -/
inductive Names
  | one (item : Item)
  | two (first : Item) (separator : Separator) (second : Item)
      (differ : first.form.isLong ≠ second.form.isLong)

namespace Names

def text : Names → List Char
  | one item => item.text
  | two first separator second _ => first.text ++ (separator.text ++ second.text)

def short? : Names → Option String
  | one item => item.form.short?
  | two first _ second _ => first.form.short?.or second.form.short?

def long? : Names → Option String
  | one item => item.form.long?
  | two first _ second _ => first.form.long?.or second.form.long?

/-- A placeholder stands behind one of the forms. -/
def valued : Names → Bool
  | one item => item.placeholder.isSome
  | two first _ second _ => first.placeholder.isSome || second.placeholder.isSome

end Names

/-- A default value as it is declared: the label in any case, the value on the same line, and a text
that holds no other closing bracket on that line. -/
structure Declared where
  label : List Char
  spelled : SameLetters defaultLabel label
  value : List Char
  unbroken : '\n' ∉ value
  tail : List Char
  last : ']' ∉ tail.takeWhile (· ≠ '\n')

def Declared.text (d : Declared) : List Char :=
  d.label ++ (d.value ++ ']' :: d.tail)

/-- A description of an option as it is written. -/
structure Written where
  names : Names
  prose : List Char
  plain : ¬ Text.Holds defaultLabel prose
  declared : Option Declared

namespace Written

def text (w : Written) : List Char :=
  w.names.text ++ ' ' :: ' ' :: (w.prose ++ (w.declared.map Declared.text).getD [])

/-- The option that is described. -/
def option (w : Written) : OptionDef :=
  ⟨w.names.short?, w.names.long?, if w.names.valued then 1 else 0,
    w.declared.map fun d => String.ofList d.value⟩

end Written

theorem isBlank_of_isPlain {c : Char} (h : isPlain c = true) : isBlank c = false := by
  simp only [isPlain, Bool.and_eq_true, Bool.not_eq_true'] at h
  exact h.1.1

theorem partWords_of_isPlain {c : Char} (h : isPlain c = true) : partWords c = c := by
  simp only [isPlain, Bool.and_eq_true, bne_iff_ne] at h
  exact if_neg (not_or.mpr ⟨h.1.2, h.2⟩)

namespace IsWord

theorem unblank (h : IsWord w) : ∀ c ∈ w, isBlank c = false :=
  fun c hc => isBlank_of_isPlain (h.plain c hc)

theorem spaceless (h : IsWord w) : ∀ c ∈ w, c ≠ ' ' := by
  rintro _ hc rfl
  exact nomatch (h.unblank _ hc).symm.trans Text.isBlank_space

theorem map_partWords (h : IsWord w) : w.map partWords = w :=
  (List.map_congr_left fun c hc => partWords_of_isPlain (h.plain c hc)).trans (List.map_id' w)

end IsWord

theorem WrittenForm.isWord_word (form : WrittenForm) : IsWord form.word := by
  cases form with
  | short letter plain dashless =>
    refine ⟨List.cons_ne_nil _ _, List.forall_mem_cons.mpr ⟨by decide, ?_⟩⟩
    exact List.forall_mem_singleton.mpr plain
  | long name isWord =>
    refine ⟨List.cons_ne_nil _ _, ?_⟩
    exact List.forall_mem_cons.mpr ⟨by decide, List.forall_mem_cons.mpr ⟨by decide, isWord.plain⟩⟩

theorem WrittenForm.exists_word (form : WrittenForm) : ∃ tail, form.word = '-' :: tail := by
  cases form with
  | short => exact ⟨_, rfl⟩
  | long => exact ⟨_, rfl⟩

/-- The words of a form and its placeholder. -/
def Item.words (i : Item) : List (List Char) :=
  i.form.word :: (i.placeholder.map Placeholder.word).toList

def Names.words : Names → List (List Char)
  | one item => item.words
  | two first _ second _ => first.words ++ second.words

theorem words_item (i : Item) (hr : ∀ c ∈ r.head?, isBlank c = true) :
    Text.words (i.text.map partWords ++ r) = i.words ++ Text.words r := by
  have hform := i.form.isWord_word
  cases hp : i.placeholder with
  | none =>
    rw [Item.text, Item.words, hp, Option.map_none, Option.getD_none, List.append_nil,
      hform.map_partWords, Text.words_append hform.nonempty hform.unblank hr]
    rfl
  | some p =>
    have hsign : partWords (if p.sign then '=' else ' ') = ' ' := by
      cases p.sign <;> decide
    rw [Item.text, Item.words, hp, Option.map_some, Option.getD_some, Placeholder.text,
      List.map_append, List.map_cons, hsign, hform.map_partWords, p.isWord.map_partWords,
      List.append_assoc, Text.words_append hform.nonempty hform.unblank, List.cons_append,
      Text.words_blank Text.isBlank_space, Text.words_append p.isWord.nonempty p.isWord.unblank hr]
    · rfl
    · rintro c ⟨rfl⟩
      exact Text.isBlank_space

theorem words_separator (separator : Separator) (r : List Char) :
    Text.words (separator.text.map partWords ++ r) = Text.words r := by
  cases separator with
  | comma => exact Text.words_blank Text.isBlank_space r
  | commaSpace =>
    exact (Text.words_blank Text.isBlank_space _).trans (Text.words_blank Text.isBlank_space r)
  | space => exact Text.words_blank Text.isBlank_space r

/-- The words that are found in what is written are those that were written. -/
theorem words_names (n : Names) : Text.words (n.text.map partWords) = n.words := by
  have hitem : ∀ i : Item, Text.words (i.text.map partWords) = i.words := fun i => by
    have hwords := words_item i (r := []) nofun
    rwa [List.append_nil, Text.words, List.append_nil] at hwords
  cases n with
  | one item => exact hitem item
  | two first separator second _ =>
    rw [Names.text, List.map_append, List.map_append, words_item, words_separator, hitem]
    · rfl
    · cases separator <;> rintro c ⟨rfl⟩ <;> exact Text.isBlank_space

theorem add_form (f : Forms) (form : WrittenForm) :
    f.add form.word = { f with short := form.short?.or f.short, long := form.long?.or f.long } := by
  cases form with
  | short letter plain dashless =>
    rw [WrittenForm.word, Forms.add.eq_def]
    split
    next heq => exact absurd (List.cons.inj (List.cons.inj heq).2).1 dashless
    next => rfl
    next _ hnone => exact absurd rfl (hnone _)
  | long name isWord => rfl

theorem add_placeholder (f : Forms) (p : Placeholder) :
    f.add p.word = { f with valued := true } := by
  have hdash : ∀ tail, p.word ≠ '-' :: tail := fun tail htail => p.dashless (by rw [htail]; rfl)
  rw [Forms.add.eq_def]
  split
  next heq => exact absurd heq (hdash _)
  next heq => exact absurd heq (hdash _)
  next => rfl

theorem foldl_item (f : Forms) (i : Item) : i.words.foldl Forms.add f =
    ⟨i.form.short?.or f.short, i.form.long?.or f.long, i.placeholder.isSome || f.valued⟩ := by
  cases hp : i.placeholder with
  | none =>
    rw [Item.words, hp, List.foldl_cons, add_form]
    rfl
  | some p =>
    rw [Item.words, hp, List.foldl_cons, add_form]
    exact add_placeholder _ p

namespace WrittenForm

variable {form other : WrittenForm}

/-- Where one form is short and the other long, it does not matter which one comes first. -/
theorem short?_or_comm (h : form.isLong ≠ other.isLong) :
    other.short?.or form.short? = form.short?.or other.short? := by
  cases form <;> cases other <;> first | rfl | exact absurd rfl h

theorem long?_or_comm (h : form.isLong ≠ other.isLong) :
    other.long?.or form.long? = form.long?.or other.long? := by
  cases form <;> cases other <;> first | rfl | exact absurd rfl h

end WrittenForm

/-- **What the words tell is what was written.** -/
theorem forms_names (n : Names) : forms n.text = ⟨n.short?, n.long?, n.valued⟩ := by
  rw [forms, words_names]
  cases n with
  | one item =>
    rw [Names.words, foldl_item, Option.or_none, Option.or_none, Bool.or_false]
    rfl
  | two first separator second differ =>
    rw [Names.words, List.foldl_append, foldl_item, foldl_item, Option.or_none, Option.or_none,
      Bool.or_false, WrittenForm.short?_or_comm differ, WrittenForm.long?_or_comm differ,
      Bool.or_comm]
    rfl

theorem isChain_item (i : Item) (hr : r.IsChain Spaced) : (i.text ++ r).IsChain Spaced := by
  have hform := i.form.isWord_word
  cases hp : i.placeholder with
  | none =>
    rw [Item.text, hp, Option.map_none, Option.getD_none, List.append_nil]
    exact Text.isChain_append_word hform.spaceless hr
  | some p =>
    rw [Item.text, hp, Option.map_some, Option.getD_some, Placeholder.text, List.append_assoc]
    refine Text.isChain_append_word hform.spaceless
      ((Text.isChain_append_word p.isWord.spaceless hr).cons fun d hd => .inr ?_)
    obtain ⟨c, tail, hword⟩ := List.exists_cons_of_ne_nil p.isWord.nonempty
    rw [hword] at hd
    obtain rfl := Option.some.inj hd
    exact p.isWord.spaceless c (by rw [hword]; exact List.mem_cons_self)

theorem Item.exists_text (i : Item) : ∃ tail, i.text = '-' :: tail := by
  obtain ⟨tail, htail⟩ := i.form.exists_word
  exact ⟨_, by rw [text, htail, List.cons_append]⟩

theorem isChain_separator (separator : Separator) {d : Char} (hd : d ≠ ' ')
    (hr : (d :: r).IsChain Spaced) : (separator.text ++ d :: r).IsChain Spaced := by
  have hspace : (' ' :: d :: r).IsChain Spaced := List.isChain_cons_cons.mpr ⟨.inr hd, hr⟩
  have hcomma : ',' ≠ ' ' := by decide
  cases separator with
  | comma => exact List.isChain_cons_cons.mpr ⟨.inl hcomma, hr⟩
  | commaSpace => exact List.isChain_cons_cons.mpr ⟨.inl hcomma, hspace⟩
  | space => exact hspace

/-- What is written before the two spaces has no two spaces in it. -/
theorem isChain_names (n : Names) : (n.text ++ [' ']).IsChain Spaced := by
  cases n with
  | one item => exact isChain_item item (List.isChain_singleton _)
  | two first separator second _ =>
    have hsecond := isChain_item second (List.isChain_singleton (R := Spaced) ' ')
    obtain ⟨tail, htail⟩ := second.exists_text
    rw [htail] at hsecond
    rw [Names.text, htail, List.append_assoc, List.append_assoc]
    exact isChain_item first (isChain_separator separator (by decide) hsecond)

theorem trimRight_item (i : Item) (s : List Char) :
    Text.trimRight (s ++ i.text) = s ++ i.text := by
  have hform := i.form.isWord_word
  cases hp : i.placeholder with
  | none =>
    rw [Item.text, hp, Option.map_none, Option.getD_none, List.append_nil]
    exact Text.trimRight_append_word hform.nonempty hform.unblank s
  | some p =>
    have hword := Text.trimRight_append_word p.isWord.nonempty p.isWord.unblank
      (s ++ (i.form.word ++ [if p.sign then '=' else ' ']))
    rw [List.append_assoc, List.append_assoc, List.singleton_append] at hword
    rw [Item.text, hp, Option.map_some, Option.getD_some, Placeholder.text]
    exact hword

theorem trimRight_names (n : Names) : Text.trimRight n.text = n.text := by
  cases n with
  | one item => exact trimRight_item item []
  | two first separator second _ =>
    have hitem := trimRight_item second (first.text ++ separator.text)
    rwa [List.append_assoc] at hitem

theorem Names.exists_text (n : Names) : ∃ tail, n.text = '-' :: tail := by
  cases n with
  | one item => exact item.exists_text
  | two first separator second _ =>
    obtain ⟨tail, htail⟩ := first.exists_text
    exact ⟨_, by rw [text, htail, List.cons_append]⟩

/-- **The first two spaces part what was written.** -/
theorem cut?_names (n : Names) (r : List Char) :
    (Text.cut? [' ', ' '] (Text.trim (n.text ++ ' ' :: ' ' :: r))).getD
      (Text.trim (n.text ++ ' ' :: ' ' :: r), []) = (n.text, Text.trimRight r) := by
  have hchain := isChain_names n
  have htrim := trimRight_names n
  obtain ⟨tail, htail⟩ := n.exists_text
  rw [htail] at hchain htrim ⊢
  exact Text.cut?_trim (by decide) hchain htrim r

theorem throughBracket?_eq_none (h : ']' ∉ tail.takeWhile (· ≠ '\n')) :
    throughBracket? tail = none := by
  induction tail with
  | nil => rfl
  | cons c tail ih =>
    rw [throughBracket?]
    by_cases hc : c = '\n'
    · exact if_pos hc
    · rw [List.takeWhile_cons, if_pos (decide_eq_true hc), List.mem_cons, not_or] at h
      rw [if_neg hc, ih h.2]
      exact if_neg (Ne.symm h.1)

/-- The value goes on to the last closing bracket of the line. -/
theorem throughBracket?_last (hvalue : '\n' ∉ value) (h : ']' ∉ tail.takeWhile (· ≠ '\n')) :
    throughBracket? (value ++ ']' :: tail) = some value := by
  induction value with
  | nil =>
    rw [List.nil_append, throughBracket?, throughBracket?_eq_none h]
    rfl
  | cons c value ih =>
    rw [List.mem_cons, not_or] at hvalue
    rw [List.cons_append, throughBracket?, if_neg (Ne.symm hvalue.1), ih hvalue.2]

theorem default?_eq_none (h : ¬ Text.Holds defaultLabel s) : default? s = none := by
  induction s with
  | nil => rfl
  | cons c s ih =>
    have hnone : Text.afterLetters? defaultLabel (c :: s) = none := by
      rw [Option.eq_none_iff_forall_ne_some]
      intro rest hrest
      exact h (Text.holds_of_start hrest)
    rw [default?, hnone]
    exact ih fun hs => h (hs.cons c)

/-- The label has one opening bracket, at its start. -/
theorem exists_label (h : SameLetters defaultLabel label) :
    ∃ rest, label = '[' :: rest ∧ '[' ∉ rest := by
  have hlabel : defaultLabel = '[' :: "default: ".toList := by decide
  have hself : Text.foldCase '[' = '[' := by decide
  rw [hlabel] at h
  cases h with
  | cons hfirst hrest =>
    rw [Text.sameLetter, hself, beq_iff_eq] at hfirst
    obtain rfl := Text.foldCase_eq_sign (by decide) (by decide) hfirst.symm
    refine ⟨_, rfl, fun hmem => ?_⟩
    exact absurd (SameLetters.mem_of_sign hrest hself (by decide) (by decide) hmem) (by decide)

/-- No label that starts in the prose ends behind it. -/
theorem default?_append (h : ¬ Text.Holds defaultLabel s) (hlabel : SameLetters defaultLabel label)
    (r : List Char) : default? (s ++ (label ++ r)) = default? (label ++ r) := by
  induction s with
  | nil => rfl
  | cons c s ih =>
    have hnone : Text.afterLetters? defaultLabel (c :: (s ++ (label ++ r))) = none := by
      rw [Option.eq_none_iff_forall_ne_some]
      intro rest hrest
      obtain ⟨own, hown, hsame⟩ := Text.afterLetters?_eq_some_iff.mp hrest
      rw [← List.cons_append] at hown
      rcases List.append_eq_append_iff.mp hown with ⟨inside, rfl, hinside⟩ | ⟨inside, hs, -⟩
      · cases inside with
        | nil => exact h ⟨[], c :: s, [], by simp, by simpa using hsame⟩
        | cons d inside =>
          obtain ⟨more, rfl, -⟩ := exists_label hlabel
          obtain ⟨tail, htail, hnot⟩ := exists_label hsame
          rw [List.cons_append, List.cons_append, List.cons.injEq] at hinside
          rw [List.cons_append, List.cons.injEq, ← hinside.1] at htail
          exact hnot (htail.2 ▸ List.mem_append_right s List.mem_cons_self)
      · exact h ⟨[], own, inside, hs, hsame⟩
    rw [List.cons_append, default?, hnone]
    exact ih fun hs => h (hs.cons c)

theorem default?_label (d : Declared) : default? d.text = some d.value := by
  obtain ⟨more, hlabel, -⟩ := exists_label d.spelled
  have hafter : Text.afterLetters? defaultLabel d.text = some (d.value ++ ']' :: d.tail) :=
    Text.afterLetters?_eq_some_iff.mpr ⟨d.label, rfl, d.spelled⟩
  rw [Declared.text, hlabel, List.cons_append] at hafter ⊢
  rw [default?, hafter, Option.bind_some, throughBracket?_last d.unbroken d.last]

/-- The declaration without the blanks at its end. -/
def Declared.trimmed (d : Declared) : Declared :=
  { d with
    tail := Text.trimRight d.tail
    last := by
      obtain ⟨gap, -, htail⟩ := Text.exists_trimRight d.tail
      have hlast := d.last
      rw [htail, List.takeWhile_append] at hlast
      split at hlast
      next => exact fun hmem => hlast (List.mem_append_left _ (List.takeWhile_subset _ hmem))
      next => exact hlast }

/-- The default value is found, and none where none is declared. -/
theorem default?_written (w : Written) :
    default? (Text.trimRight (w.prose ++ (w.declared.map Declared.text).getD [])) =
      w.declared.map Declared.value := by
  cases hd : w.declared with
  | none =>
    rw [Option.map_none, Option.getD_none, List.append_nil]
    refine default?_eq_none fun h => w.plain ?_
    obtain ⟨gap, -, hprose⟩ := Text.exists_trimRight w.prose
    obtain ⟨before, own, after, htrim, hsame⟩ := h
    exact ⟨before, own, after ++ gap, by rw [hprose, htrim]; simp, hsame⟩
  | some d =>
    have hsplit : ∀ tail, w.prose ++ (d.label ++ (d.value ++ ']' :: tail)) =
        (w.prose ++ (d.label ++ d.value)) ++ ']' :: tail := fun tail => by
      rw [List.append_assoc, List.append_assoc]
    have hbracket : Text.isBlank ']' = false := by decide
    have hink : ¬ AllBlank (']' :: d.tail) := fun hall =>
      nomatch hbracket.symm.trans (hall ']' List.mem_cons_self)
    have htrim : Text.trimRight (w.prose ++ d.text) = w.prose ++ d.trimmed.text := by
      rw [Declared.text, hsplit, Text.trimRight_append_of_ink hink,
        Text.trimRight_cons_of_ink hbracket, ← hsplit]
      rfl
    rw [Option.map_some, Option.getD_some, htrim]
    exact (default?_append w.plain d.spelled _).trans (default?_label d.trimmed)

/-- **Reading what was written gives it back**, and it is refused exactly if it declares a default
value and has no placeholder. -/
theorem read_written (w : Written) (line : Option Int) :
    read w.text line =
      if w.declared.isSome && !w.names.valued then
        .error ⟨.defaultWithoutValue ((w.names.long?.or w.names.short?).getD "None"), line, none⟩
      else .ok w.option := by
  obtain ⟨tail, htail⟩ := w.names.exists_text
  have hnamed : (forms w.names.text).IsNamed := htail ▸ isNamed_forms tail
  rw [forms_names] at hnamed
  unfold read Written.text
  rw [cut?_names]
  dsimp only
  rw [forms_names, default?_written, Option.isSome_map]
  dsimp only
  rw [if_pos (hnamed.isNamed _ _), Option.map_map]
  rfl

/-- A description with all its parts. -/
theorem read_written_complete : ∃ w : Written,
    w.text = "--out=FILE, -o  Where to. [Default: a].txt] Or not.".toList ∧
      read w.text none = .ok
        { short := some "-o", long := some "--out", arity := 1, default := some "a].txt" } := by
  have hlabel : SameLetters defaultLabel "[Default: ".toList := by
    unfold SameLetters
    decide
  have hplain : ¬ Text.Holds defaultLabel "Where to. ".toList := by
    rw [← Section.isHeading_iff]
    decide
  let long : Item := ⟨.long "out".toList ⟨by decide, List.all_eq_true.mp rfl⟩,
    some ⟨true, "FILE".toList, ⟨by decide, List.all_eq_true.mp rfl⟩, by decide⟩⟩
  let short : Item := ⟨.short 'o' (by decide) (by decide), none⟩
  let w : Written := ⟨.two long .commaSpace short (by decide), "Where to. ".toList, hplain,
    some ⟨"[Default: ".toList, hlabel, "a].txt".toList, by decide, " Or not.".toList, by decide⟩⟩
  have hread : read w.text none = .ok w.option := read_written w none
  exact ⟨w, rfl, hread.trans rfl⟩

end Description

end Synopsis
