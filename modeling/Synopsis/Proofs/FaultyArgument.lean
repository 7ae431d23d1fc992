import Synopsis.Interface
import Synopsis.Proofs.Reading

/-!
# The faulty argument

Reading stops at the first faulty argument. The error names that argument; the ones before it are
read as they are without it, since an argument that was about to be read was not taken for a value.
So the cursor stands right behind the faulty argument, and the arguments reported with the error
start with it.
-/

namespace Synopsis

namespace Conventions

variable {c : Conventions} {raw form : String} {next : Option String} {e : InputError}

theorem nextValue_error (h : nextValue form raw next = .error e) : e.argument = raw := by
  cases next with
  | none => rw [← Except.error.inj h]
  | some value =>
    rw [nextValue] at h
    split at h
    · rw [← Except.error.inj h]
    · cases h

theorem resolveLong_error (h : c.resolveLong form raw = .error e) : e.argument = raw := by
  unfold resolveLong at h
  dsimp only at h
  split at h
  · rw [← Except.error.inj h]
  · exact nomatch h
  · rw [← Except.error.inj h]

theorem resolveShort_error (h : c.resolveShort form raw = .error e) : e.argument = raw := by
  unfold resolveShort at h
  split at h
  · rw [← Except.error.inj h]
  · exact nomatch h
  · rw [← Except.error.inj h]

theorem readLong_error (h : c.readLong raw next = .error e) : e.argument = raw := by
  unfold readLong at h
  dsimp only at h
  rcases bind_eq_error.mp h with h | ⟨o, -, h⟩
  · exact resolveLong_error h
  · split at h
    · exact nomatch h
    · rw [← Except.error.inj h]
    · exact nomatch h
    · rcases bind_eq_error.mp h with h | ⟨value, -, h⟩
      · exact nextValue_error h
      · exact nomatch h

theorem readLetters_error {letters : List Char} (h : c.readLetters raw next letters = .error e) :
    e.argument = raw := by
  induction letters with
  | nil => exact nomatch h
  | cons letter rest ih =>
    rcases bind_eq_error.mp h with h | ⟨o, -, h⟩
    · exact resolveShort_error h
    · split at h
      · split at h
        · rcases bind_eq_error.mp h with h | ⟨value, -, h⟩
          · exact nextValue_error h
          · exact nomatch h
        · exact nomatch h
      · rcases bind_eq_error.mp h with h | ⟨read, -, h⟩
        · exact ih h
        · exact nomatch h

/-- **An error names the argument that is read.** -/
theorem step_error {literal : Bool} (h : c.step literal raw next = .error e) :
    e.argument = raw := by
  unfold step at h
  split at h
  · exact nomatch h
  · split at h
    · exact nomatch h
    · rcases bind_eq_error.mp h with h | ⟨read, -, h⟩
      · exact readLong_error h
      · exact nomatch h
    · rcases bind_eq_error.mp h with h | ⟨read, -, h⟩
      · exact readLetters_error h
      · exact nomatch h
    · exact nomatch h

/-- An argument in front of a row, with the value that it takes along. -/
theorem ReadsAll.behind {literal after : Bool} {ahead more : List String} {s : Step}
    {tokens : List Token} (hs : c.Reads literal raw ahead.head? s)
    (h : c.ReadsAll s.literal more tokens after) :
    c.ReadsAll literal (raw :: (s.taken ahead ++ more)) (s.tokens ++ tokens) after := by
  obtain ⟨hstep, hfollowing⟩ := hs.before more
  refine .cons hstep ?_
  rwa [hfollowing]

/-- **Where reading stops**: the arguments before the faulty one are read, and it is at fault
then. -/
theorem readAll_error {literal : Bool} {arguments past : List String} {before : List Token}
    {stopped : Cursor} (h : Cursor.readAll c past before literal arguments = (stopped, some e)) :
    ∃ xs tokens, arguments = xs ++ e.argument :: stopped.ahead ∧
      c.ReadsAll literal xs tokens stopped.literal ∧
      c.step stopped.literal e.argument stopped.ahead.head? = .error e ∧
      stopped.past = past ++ xs ++ [e.argument] ∧ stopped.tokens = before ++ tokens := by
  -- a step may take two arguments, so the induction is on how many there are
  induction hn : arguments.length using Nat.strongRecOn
    generalizing past before literal arguments with
  | _ n ih =>
    cases arguments with
    | nil => exact nomatch h
    | cons raw ahead =>
      cases hs : c.step literal raw ahead.head? with
      | error e' =>
        rw [Cursor.readAll, hs] at h
        obtain ⟨rfl, he⟩ := Prod.mk.inj h
        obtain rfl : e' = e := Option.some.inj he
        obtain rfl := step_error hs
        exact ⟨[], [], rfl, .nil, hs, by simp, by simp⟩
      | ok s =>
        have hshort : (s.following ahead).length < n := hn ▸ s.following_shorter raw ahead
        rw [readAll_cons hs] at h
        obtain ⟨xs, tokens, hahead, hread, hstep, hpast, htokens⟩ := ih _ hshort h rfl
        refine ⟨raw :: (s.taken ahead ++ xs), s.tokens ++ tokens, ?_,
          .behind (step_eq_ok.mp hs) hread, hstep, ?_, ?_⟩
        · rw [List.cons_append, List.append_assoc, ← hahead, s.taken_append_following]
        · simp [hpast]
        · rw [htokens, List.append_assoc]

/-- **A fault points at the argument that caused it.** If reading a command line stops, then the
arguments before the faulty one are read by themselves to the tokens collected so far, it is at
fault behind them, and the arguments reported with the error are those from it on. -/
theorem errorData_of_fault {arguments : List String} {stopped : Cursor}
    (h : (Cursor.start arguments).tokenize c = (stopped, some e)) :
    ∃ before after, arguments = before ++ e.argument :: after ∧
      c.tokenize before = .ok stopped.tokens ∧
      c.ReadsAll false before stopped.tokens stopped.literal ∧
      c.step stopped.literal e.argument after.head? = .error e ∧
      ∀ i : Interface, i.settings.raiseException = false →
        ∃ a, i.conclude ⟨stopped, .stopped (.input e)⟩ = .ok a ∧
          a.errorData = e.argument :: after := by
  obtain ⟨before, tokens, harguments, hread, hstep, hpast, htokens⟩ := readAll_error h
  obtain rfl : stopped.tokens = tokens := htokens
  refine ⟨before, stopped.ahead, harguments, tokenize_eq_ok.mpr ⟨_, hread⟩, hread, hstep, ?_⟩
  intro i hquiet
  have hdata : Interface.errorData stopped (.input e) = e.argument :: stopped.ahead := by
    have hpast : stopped.past = before ++ [e.argument] := hpast
    have hposition : stopped.position - 1 = before.length := by
      rw [Cursor.position, hpast, List.length_append, List.length_singleton]
      omega
    rw [Interface.errorData, hposition, Cursor.arguments, hpast, List.append_assoc]
    exact List.drop_left
  refine ⟨⟨i.grammar.program, stopped.arguments, false, [], some (.input e),
    Interface.errorData stopped (.input e), none⟩, ?_, hdata⟩
  simp [Interface.conclude, hquiet, Stop.output?]

/-- An option with its value in front of a cluster with an unknown letter. -/
theorem errorData_of_unknown_letter :
    ∃ (c : Conventions) (stopped : Cursor),
      (Cursor.start ["-o", "v", "-ab", "x"]).tokenize c =
        (stopped, some ⟨.unknown "-b", "-ab"⟩) ∧
      ∃ before after, ["-o", "v", "-ab", "x"] = before ++ "-ab" :: after ∧
        c.tokenize before = .ok stopped.tokens ∧
        c.ReadsAll false before stopped.tokens stopped.literal ∧
        c.step stopped.literal "-ab" after.head? = .error ⟨.unknown "-b", "-ab"⟩ ∧
        ∀ i : Interface, i.settings.raiseException = false →
          ∃ a, i.conclude ⟨stopped, .stopped (.input ⟨.unknown "-b", "-ab"⟩)⟩ = .ok a ∧
            a.errorData = "-ab" :: after := by
  let c : Conventions :=
    { options := .ofList [{ short := some "-a" }, { short := some "-o", arity := 1 }] }
  have h : (Cursor.start ["-o", "v", "-ab", "x"]).tokenize c =
      (⟨["-o", "v", "-ab"], ["x"], [.option { short := some "-o", arity := 1 } "-o" (some "v")],
        false⟩, some ⟨.unknown "-b", "-ab"⟩) := rfl
  exact ⟨c, _, h, errorData_of_fault h⟩

end Conventions

end Synopsis
