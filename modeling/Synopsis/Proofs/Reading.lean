import Mathlib.Data.List.Basic
import Synopsis.Cursor
import Synopsis.Proofs.Lookup
import Synopsis.Proofs.Success

/-!
# What arguments are read into

`Reads` says what one argument gives, by what it looks like: the marker, a long option, a cluster of
short ones or a plain word. `tokens?` is what a row of arguments gives; it is settled by the first
argument and what the ones after it give. An argument that stands last takes nothing from what
follows, so a row that is read to its end is read in the same way in front of any other.
-/

namespace Synopsis.Conventions

variable (c : Conventions)

/-- How an option comes by its value, if it has one: a flag has none, and otherwise it is what the
same argument holds for it or else the next argument. -/
inductive Valued (o : OptionDef) (inline next : Option String) : Option String → Bool → Prop
  | flag : o.takesValue = false → inline = none → Valued o inline next none false
  | inline {v} : o.takesValue = true → inline = some v → Valued o inline next (some v) false
  | next {v} : o.takesValue = true → inline = none → next = some v → v ≠ "--" →
      Valued o inline next (some v) true

inductive ReadsLong (raw : String) (next : Option String) : Token → Bool → Prop
  | intro {form inline o v took} : Text.splitAt '=' raw.toList = (form, inline) →
      c.options.Resolves (String.ofList form) o →
      Valued o (inline.map String.ofList) next v took → ReadsLong raw next (.option o raw v) took

/-- What is left of a cluster for the value of an option in it. -/
def remainder (letters : List Char) : Option String :=
  if letters.isEmpty then none else some (String.ofList letters)

/-- The letters of a cluster are read. The first option with a value is the last option. -/
inductive ReadsLetters (raw : String) (next : Option String) :
    List Char → List Token → Bool → Prop
  | nil : ReadsLetters raw next [] [] false
  | flag {letter rest o tokens took} :
      c.options.byShort (String.ofList ['-', letter]) = [o] → o.takesValue = false →
      ReadsLetters raw next rest tokens took →
      ReadsLetters raw next (letter :: rest) (.option o raw none :: tokens) took
  | valued {letter rest o v took} :
      c.options.byShort (String.ofList ['-', letter]) = [o] →
      Valued o (remainder rest) next (some v) took →
      ReadsLetters raw next (letter :: rest) [.option o raw (some v)] took

/-- **An argument is read**, the ones from it on being plain or not. -/
inductive Reads : Bool → String → Option String → Step → Prop
  | literal {raw next} : Reads true raw next ⟨[.plain raw], false, true⟩
  | marker {next} : Reads false "--" next ⟨if c.keepMarker then [.marker "--"] else [], false, true⟩
  | long {raw next first rest token took} : raw.toList = '-' :: '-' :: first :: rest →
      c.ReadsLong raw next token took → Reads false raw next ⟨[token], took, false⟩
  | cluster {raw next first rest tokens took} : raw.toList = '-' :: first :: rest → first ≠ '-' →
      c.ReadsLetters raw next (first :: rest) tokens took →
      Reads false raw next ⟨tokens, took, false⟩
  | word {raw next} : (∀ first rest, raw.toList ≠ '-' :: first :: rest) →
      Reads false raw next ⟨[.plain raw], false, c.optionsFirst⟩

variable {c} {raw : String} {next : Option String}

theorem nextValue_eq_ok {form v : String} :
    nextValue form raw next = .ok v ↔ next = some v ∧ v ≠ "--" := by
  cases next with
  | none => simp [nextValue]
  | some w =>
    by_cases hw : w = "--"
    · simp only [nextValue, hw, if_true, reduceCtorEq, Option.some.injEq, false_iff, not_and]
      exact fun h h' => h' h.symm
    · simp only [nextValue, hw, if_false, Except.ok.injEq, Option.some.injEq]
      exact ⟨fun h => ⟨h, h ▸ hw⟩, fun h => h.1⟩

theorem resolveLong_eq_ok {form : String} {o : OptionDef} :
    c.resolveLong form raw = .ok o ↔ c.options.Resolves form o := by
  unfold resolveLong OptionTable.Resolves
  cases c.options.byLong form with
  | nil =>
    cases c.options.byStart form with
    | nil => simp
    | cons x xs => cases xs <;> simp
  | cons x xs => cases xs <;> simp

theorem resolveShort_eq_ok {form : String} {o : OptionDef} :
    c.resolveShort form raw = .ok o ↔ c.options.byShort form = [o] := by
  unfold resolveShort
  cases c.options.byShort form with
  | nil => simp
  | cons x xs => cases xs <;> simp

theorem readsLong_of_readLong {token : Token} {took : Bool}
    (h : c.readLong raw next = .ok (token, took)) : c.ReadsLong raw next token took := by
  unfold readLong at h
  cases hs : Text.splitAt '=' raw.toList with
  | mk form inline =>
    rw [hs] at h
    obtain ⟨o, ho, h⟩ := bind_eq_ok.mp h
    cases ht : o.takesValue with
    | false =>
      cases inline with
      | none =>
        simp only [ht] at h
        obtain ⟨rfl, rfl⟩ := Prod.mk.inj (pure_eq_ok.mp h)
        exact .intro hs (resolveLong_eq_ok.mp ho) (.flag ht rfl)
      | some value => simp [ht] at h
    | true =>
      cases inline with
      | none =>
        simp only [ht] at h
        obtain ⟨v, hv, h⟩ := bind_eq_ok.mp h
        obtain ⟨rfl, rfl⟩ := Prod.mk.inj (pure_eq_ok.mp h)
        obtain ⟨hn, hm⟩ := nextValue_eq_ok.mp hv
        exact .intro hs (resolveLong_eq_ok.mp ho) (.next ht rfl hn hm)
      | some value =>
        simp only [ht] at h
        obtain ⟨rfl, rfl⟩ := Prod.mk.inj (pure_eq_ok.mp h)
        exact .intro hs (resolveLong_eq_ok.mp ho) (.inline ht rfl)

theorem ReadsLong.readLong_eq {token : Token} {took : Bool} (h : c.ReadsLong raw next token took) :
    c.readLong raw next = .ok (token, took) := by
  cases h with
  | @intro form inline o v took hs ho hv =>
    unfold readLong
    rw [hs]
    refine bind_eq_ok.mpr ⟨o, resolveLong_eq_ok.mpr ho, ?_⟩
    cases hv with
    | flag ht hi => simp [ht, Option.map_eq_none_iff.mp hi, pure, Except.pure]
    | inline ht hi =>
      obtain ⟨value, rfl, rfl⟩ := Option.map_eq_some_iff.mp hi
      simp [ht, pure, Except.pure]
    | @next v ht hi hn hm =>
      have hv : nextValue (o.long.getD "") raw next = .ok v := nextValue_eq_ok.mpr ⟨hn, hm⟩
      simp [ht, Option.map_eq_none_iff.mp hi, hv, bind, Except.bind, pure, Except.pure]

theorem readsLetters_of_readLetters {letters : List Char} {tokens : List Token} {took : Bool}
    (h : c.readLetters raw next letters = .ok (tokens, took)) :
    c.ReadsLetters raw next letters tokens took := by
  induction letters generalizing tokens took with
  | nil =>
    obtain ⟨rfl, rfl⟩ := Prod.mk.inj (Except.ok.inj h)
    exact .nil
  | cons letter rest ih =>
    obtain ⟨o, ho, h⟩ := bind_eq_ok.mp h
    have ho := resolveShort_eq_ok.mp ho
    cases ht : o.takesValue with
    | false =>
      simp only [ht, Bool.false_eq_true, if_false] at h
      obtain ⟨⟨more, took'⟩, hm, h⟩ := bind_eq_ok.mp h
      obtain ⟨rfl, rfl⟩ := Prod.mk.inj (pure_eq_ok.mp h)
      exact .flag ho ht (ih hm)
    | true =>
      cases rest with
      | nil =>
        simp only [ht, if_true, List.isEmpty_nil] at h
        obtain ⟨v, hv, h⟩ := bind_eq_ok.mp h
        obtain ⟨rfl, rfl⟩ := Prod.mk.inj (pure_eq_ok.mp h)
        obtain ⟨hn, hm⟩ := nextValue_eq_ok.mp hv
        exact .valued ho (.next ht rfl hn hm)
      | cons second rest =>
        simp only [ht, if_true, List.isEmpty_cons, Bool.false_eq_true, if_false] at h
        obtain ⟨rfl, rfl⟩ := Prod.mk.inj (pure_eq_ok.mp h)
        exact .valued ho (.inline ht rfl)

theorem ReadsLetters.readLetters_eq {letters : List Char} {tokens : List Token} {took : Bool}
    (h : c.ReadsLetters raw next letters tokens took) :
    c.readLetters raw next letters = .ok (tokens, took) := by
  induction h with
  | nil => rfl
  | flag ho ht _ ih =>
    rw [readLetters, resolveShort_eq_ok.mpr ho]
    simp [bind, Except.bind, ht, ih, pure, Except.pure]
  | @valued letter rest o v took ho hv =>
    rw [readLetters, resolveShort_eq_ok.mpr ho]
    cases hv with
    | inline ht hi =>
      cases rest with
      | nil => exact nomatch hi
      | cons second rest =>
        obtain rfl := Option.some.inj hi
        simp [bind, Except.bind, ht, pure, Except.pure]
    | next ht hi hn hm =>
      cases rest with
      | nil =>
        have hv : nextValue (String.ofList ['-', letter]) raw next = .ok v :=
          nextValue_eq_ok.mpr ⟨hn, hm⟩
        refine bind_eq_ok.mpr ⟨o, rfl, ?_⟩
        rw [if_pos ht, List.isEmpty_nil, if_pos rfl]
        exact bind_eq_ok.mpr ⟨v, hv, rfl⟩
      | cons second rest => exact nomatch hi

theorem toList_eq_marker : raw.toList = ['-', '-'] ↔ raw = "--" :=
  ⟨fun h => String.toList_inj.mp h, fun h => h ▸ rfl⟩

theorem reads_of_step {literal : Bool} {s : Step} (h : c.step literal raw next = .ok s) :
    c.Reads literal raw next s := by
  cases literal with
  | true =>
    obtain rfl := Except.ok.inj h
    exact .literal
  | false =>
    unfold step at h
    rw [if_neg Bool.false_ne_true] at h
    split at h
    next hr =>
      obtain rfl := toList_eq_marker.mp hr
      obtain rfl := Except.ok.inj h
      exact .marker
    next tail hmark hr =>
      obtain ⟨⟨token, took⟩, hl, h⟩ := bind_eq_ok.mp h
      obtain rfl := pure_eq_ok.mp h
      cases tail with
      | nil => exact absurd rfl hmark
      | cons first rest => exact .long hr (readsLong_of_readLong hl)
    next first rest hmark hlong hr =>
      obtain ⟨⟨tokens, took⟩, hl, h⟩ := bind_eq_ok.mp h
      obtain rfl := pure_eq_ok.mp h
      rw [readShorts, hr] at hl
      exact .cluster hr hlong (readsLetters_of_readLetters hl)
    next hmark hlong hcluster =>
      obtain rfl := Except.ok.inj h
      exact .word hcluster

theorem Reads.step_eq {literal : Bool} {s : Step} (h : c.Reads literal raw next s) :
    c.step literal raw next = .ok s := by
  cases h with
  | literal => rfl
  | marker => rfl
  | long hr hl =>
    unfold step
    rw [if_neg Bool.false_ne_true, hr]
    exact bind_eq_ok.mpr ⟨_, hl.readLong_eq, rfl⟩
  | @cluster _ _ first rest tokens took hr hf hl =>
    have hs : c.readShorts raw next = .ok (tokens, took) := by
      rw [readShorts, hr]
      exact hl.readLetters_eq
    unfold step
    rw [if_neg Bool.false_ne_true, hr]
    split
    next hm => exact absurd (List.cons.inj (List.cons.inj hm).2).1 hf
    next hd => exact absurd (List.cons.inj (List.cons.inj hd).2).1 hf
    next => exact bind_eq_ok.mpr ⟨_, hs, rfl⟩
    next hword => exact absurd rfl (hword first rest)
  | word hr =>
    unfold step
    rw [if_neg Bool.false_ne_true]
    split
    next hm => exact absurd hm (hr _ _)
    next hl => exact absurd hl (hr _ _)
    next hc => exact absurd hc (hr _ _)
    next => rfl

/-- **A step succeeds exactly if the argument is read.** -/
theorem step_eq_ok {literal : Bool} {s : Step} :
    c.step literal raw next = .ok s ↔ c.Reads literal raw next s :=
  ⟨reads_of_step, Reads.step_eq⟩

/-- The value that the argument takes along, if there is one. -/
def Step.taken (s : Step) (ahead : List String) : List String :=
  if s.tookNext then ahead.take 1 else []

def Step.following (s : Step) (ahead : List String) : List String :=
  if s.tookNext then ahead.drop 1 else ahead

theorem Step.taken_append_following (s : Step) (ahead : List String) :
    s.taken ahead ++ s.following ahead = ahead := by
  unfold taken following
  split
  · exact List.take_append_drop 1 ahead
  · rfl

theorem Step.following_shorter (s : Step) (raw : String) (ahead : List String) :
    (s.following ahead).length < (raw :: ahead).length := by
  unfold following
  split
  · rw [List.length_drop, List.length_cons]
    omega
  · exact Nat.lt_succ_self _

/-- The tokens of a cursor that met no faulty argument, and whether arguments after them are
plain. -/
def ending : Cursor × Option InputError → Option (List Token × Bool)
  | (_, some _) => none
  | (done, none) => some (done.tokens, done.literal)

variable (c) in
/-- **What a row of arguments is read into**, if none of them is faulty: the tokens, and whether
arguments after them are plain. -/
def tokens? (literal : Bool) (arguments : List String) : Option (List Token × Bool) :=
  ending (Cursor.readAll c [] [] literal arguments)

theorem readAll_cons {literal : Bool} {ahead : List String} {s : Step}
    (hs : c.step literal raw ahead.head? = .ok s) (past : List String) (before : List Token) :
    Cursor.readAll c past before literal (raw :: ahead) =
      Cursor.readAll c (past ++ raw :: s.taken ahead) (before ++ s.tokens) s.literal
        (s.following ahead) := by
  rw [Cursor.readAll, hs]
  cases ht : s.tookNext with
  | false => simp [Step.taken, Step.following, ht]
  | true =>
    cases ahead with
    | nil => simp [Step.taken, Step.following, ht]
    | cons value rest => simp [Step.taken, Step.following, ht]

/-- What was read before does not matter. -/
theorem ending_readAll (past : List String) (before : List Token) (literal : Bool)
    (arguments : List String) :
    ending (Cursor.readAll c past before literal arguments) =
      (c.tokens? literal arguments).map fun (tokens, after) => (before ++ tokens, after) := by
  -- a step may take two arguments, so the induction is on how many there are
  induction hn : arguments.length using Nat.strongRecOn
    generalizing past before literal arguments with
  | _ n ih =>
    unfold tokens?
    cases arguments with
    | nil => simp [Cursor.readAll, ending]
    | cons raw ahead =>
      cases hs : c.step literal raw ahead.head? with
      | error e =>
        rw [Cursor.readAll, Cursor.readAll, hs]
        rfl
      | ok s =>
        have hshort : (s.following ahead).length < n := hn ▸ s.following_shorter raw ahead
        rw [readAll_cons hs, readAll_cons hs, ih _ hshort _ _ _ _ rfl, ih _ hshort _ _ _ _ rfl,
          Option.map_map]
        simp only [Function.comp_def, List.nil_append, List.append_assoc]

theorem tokens?_cons {literal : Bool} {ahead : List String} {s : Step}
    (hs : c.step literal raw ahead.head? = .ok s) :
    c.tokens? literal (raw :: ahead) =
      (c.tokens? s.literal (s.following ahead)).map fun (tokens, after) =>
        (s.tokens ++ tokens, after) := by
  rw [tokens?, readAll_cons hs, ending_readAll, List.nil_append]

theorem tokens?_cons_error {literal : Bool} {ahead : List String} {e : InputError}
    (hs : c.step literal raw ahead.head? = .error e) :
    c.tokens? literal (raw :: ahead) = none := by
  rw [tokens?, Cursor.readAll, hs]
  rfl

theorem tokenize_toOption (arguments : List String) :
    (c.tokenize arguments).toOption = (c.tokens? false arguments).map Prod.fst := by
  unfold Conventions.tokenize Cursor.tokenize Cursor.start tokens?
  cases Cursor.readAll c [] [] false arguments with
  | mk done error => cases error <;> rfl

variable (c) in
/-- **A row of arguments is read**, one step after the other. -/
inductive ReadsAll : Bool → List String → List Token → Bool → Prop
  | nil {literal} : ReadsAll literal [] [] literal
  | cons {literal raw ahead s tokens after} : c.Reads literal raw ahead.head? s →
      ReadsAll s.literal (s.following ahead) tokens after →
      ReadsAll literal (raw :: ahead) (s.tokens ++ tokens) after

theorem ReadsAll.tokens?_eq {literal after : Bool} {arguments : List String} {tokens : List Token}
    (h : c.ReadsAll literal arguments tokens after) :
    c.tokens? literal arguments = some (tokens, after) := by
  induction h with
  | nil => rfl
  | cons hs _ ih => rw [tokens?_cons (step_eq_ok.mpr hs), ih, Option.map_some]

theorem readsAll_of_tokens? {literal after : Bool} {arguments : List String} {tokens : List Token}
    (h : c.tokens? literal arguments = some (tokens, after)) :
    c.ReadsAll literal arguments tokens after := by
  induction hn : arguments.length using Nat.strongRecOn
    generalizing literal arguments tokens with
  | _ n ih =>
    cases arguments with
    | nil =>
      obtain ⟨rfl, rfl⟩ := Prod.mk.inj (Option.some.inj h)
      exact .nil
    | cons raw ahead =>
      cases hs : c.step literal raw ahead.head? with
      | error e =>
        rw [tokens?_cons_error hs] at h
        exact nomatch h
      | ok s =>
        rw [tokens?_cons hs] at h
        obtain ⟨⟨more, after'⟩, hm, heq⟩ := Option.map_eq_some_iff.mp h
        obtain ⟨rfl, rfl⟩ := Prod.mk.inj heq
        have hshort : (s.following ahead).length < n := hn ▸ s.following_shorter raw ahead
        exact .cons (step_eq_ok.mp hs) (ih _ hshort hm rfl)

/-- **Tokenizing succeeds exactly if all arguments are read.** -/
theorem tokenize_eq_ok {arguments : List String} {tokens : List Token} :
    c.tokenize arguments = .ok tokens ↔ ∃ after, c.ReadsAll false arguments tokens after := by
  have hopt : c.tokenize arguments = .ok tokens ↔
      (c.tokenize arguments).toOption = some tokens := by
    cases c.tokenize arguments <;> simp [Except.toOption]
  rw [hopt, tokenize_toOption, Option.map_eq_some_iff]
  constructor
  · rintro ⟨⟨_, after⟩, h, rfl⟩
    exact ⟨after, readsAll_of_tokens? h⟩
  · rintro ⟨after, h⟩
    exact ⟨(tokens, after), h.tokens?_eq, rfl⟩

/-- The marker is never taken for a value. -/
theorem Valued.taken {o : OptionDef} {inline v : Option String} {took : Bool}
    (h : Valued o inline next v took) (ht : took = true) : ∃ w, next = some w ∧ w ≠ "--" := by
  cases h with
  | flag => exact nomatch ht
  | inline => exact nomatch ht
  | next _ _ hn hm => exact ⟨_, hn, hm⟩

theorem ReadsLetters.taken {letters : List Char} {tokens : List Token} {took : Bool}
    (h : c.ReadsLetters raw next letters tokens took) (ht : took = true) :
    ∃ w, next = some w ∧ w ≠ "--" := by
  induction h with
  | nil => exact nomatch ht
  | flag _ _ _ ih => exact ih ht
  | valued _ hv => exact hv.taken ht

theorem Reads.taken {literal : Bool} {s : Step} (h : c.Reads literal raw next s)
    (ht : s.tookNext = true) : ∃ w, next = some w ∧ w ≠ "--" := by
  cases h with
  | literal => exact nomatch ht
  | marker => exact nomatch ht
  | long _ hl =>
    cases hl with
    | intro _ _ hv => exact hv.taken ht
  | cluster _ _ hl => exact hl.taken ht
  | word => exact nomatch ht

theorem Valued.alone {o : OptionDef} {inline v : Option String} {took : Bool}
    (h : Valued o inline next v took) (ht : took = false) (other : Option String) :
    Valued o inline other v took := by
  cases h with
  | flag hv hi => exact .flag hv hi
  | inline hv hi => exact .inline hv hi
  | next => exact nomatch ht

theorem ReadsLetters.alone {letters : List Char} {tokens : List Token} {took : Bool}
    (h : c.ReadsLetters raw next letters tokens took) (ht : took = false) (other : Option String) :
    c.ReadsLetters raw other letters tokens took := by
  induction h with
  | nil => exact .nil
  | flag ho hv _ ih => exact .flag ho hv (ih ht)
  | valued ho hv => exact .valued ho (hv.alone ht other)

/-- An argument that takes nothing along is read by itself. -/
theorem Reads.alone {literal : Bool} {s : Step} (h : c.Reads literal raw next s)
    (ht : s.tookNext = false) (other : Option String) : c.Reads literal raw other s := by
  cases h with
  | literal => exact .literal
  | marker => exact .marker
  | long hr hl =>
    cases hl with
    | intro hs ho hv => exact .long hr (.intro hs ho (hv.alone ht other))
  | cluster hr hf hl => exact .cluster hr hf (hl.alone ht other)
  | word hr => exact .word hr

/-- **What stands behind the value that an argument takes along makes no difference to it.** -/
theorem Reads.before {literal : Bool} {ahead : List String} {s : Step}
    (h : c.Reads literal raw ahead.head? s) (more : List String) :
    c.Reads literal raw (s.taken ahead ++ more).head? s ∧
      s.following (s.taken ahead ++ more) = more := by
  cases ht : s.tookNext with
  | false =>
    have hnone : s.taken ahead = [] := by simp [Step.taken, ht]
    rw [hnone, List.nil_append]
    exact ⟨h.alone ht more.head?, by simp [Step.following, ht]⟩
  | true =>
    obtain ⟨value, hvalue, -⟩ := h.taken ht
    obtain ⟨rest, rfl⟩ := List.head?_eq_some_iff.mp hvalue
    have hone : s.taken (value :: rest) = [value] := by simp [Step.taken, ht]
    rw [hone]
    exact ⟨h, by simp [Step.following, ht]⟩

/-- Arguments added behind a row are read after it. -/
theorem Reads.append {literal : Bool} {ahead : List String} {s : Step}
    (h : c.Reads literal raw ahead.head? s) (ys : List String) :
    c.Reads literal raw (ahead ++ ys).head? s ∧
      s.following (ahead ++ ys) = s.following ahead ++ ys := by
  have hsplit : ahead ++ ys = s.taken ahead ++ (s.following ahead ++ ys) := by
    rw [← List.append_assoc, s.taken_append_following]
  rw [hsplit]
  exact h.before (s.following ahead ++ ys)

/-- **What comes first is read in the same way whatever follows.** -/
theorem ReadsAll.tokens?_append {literal after : Bool} {xs : List String} {tokens : List Token}
    (h : c.ReadsAll literal xs tokens after) (ys : List String) :
    c.tokens? literal (xs ++ ys) =
      (c.tokens? after ys).map fun (more, last) => (tokens ++ more, last) := by
  induction h with
  | nil => simp
  | cons hs _ ih =>
    obtain ⟨hstep, hfollowing⟩ := hs.append ys
    rw [List.cons_append, tokens?_cons (step_eq_ok.mpr hstep), hfollowing, ih, Option.map_map]
    simp only [Function.comp_def, List.append_assoc]

/-- What follows the marker or, where that ends the options, the first plain word is plain. -/
theorem readsAll_literal (ws : List String) : c.ReadsAll true ws (ws.map .plain) true := by
  induction ws with
  | nil => exact .nil
  | cons w ws ih => exact .cons .literal ih

/-- A dash alone, or what does not start with one, is a plain word. -/
theorem reads_word (h : raw = "-" ∨ raw.toList.head? ≠ some '-')
    (next : Option String) :
    c.Reads false raw next ⟨[.plain raw], false, c.optionsFirst⟩ := by
  refine .word fun first rest heq => ?_
  rcases h with rfl | hne
  · exact nomatch (List.cons.inj heq).2
  · rw [heq] at hne
    exact hne rfl

end Synopsis.Conventions
