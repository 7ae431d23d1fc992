import Synopsis.Proofs.Reading

/-!
# Where the options end

Two dashes always end the options: no option takes them for its value, and the argument before them
is read as if it were the last one. Where the first plain word ends the options as well, it is the
only other thing to do so. Behind either, every argument is a plain word.
-/

namespace Synopsis.Conventions

variable {c : Conventions} {raw : String} {next : Option String}

section BeforeMarker

theorem nextValue_marker (form raw : String) :
    nextValue form raw (some "--") = nextValue form raw none := by
  simp only [nextValue, if_true]

theorem readLong_marker (raw : String) : c.readLong raw (some "--") = c.readLong raw none := by
  simp only [readLong, nextValue_marker]

theorem readLetters_marker (raw : String) (letters : List Char) :
    c.readLetters raw (some "--") letters = c.readLetters raw none letters := by
  induction letters with
  | nil => rfl
  | cons letter rest ih => simp only [readLetters, nextValue_marker, ih]

/-- **An argument before the marker is read as if it were the last one.** -/
theorem step_marker (literal : Bool) (raw : String) :
    c.step literal raw (some "--") = c.step literal raw none := by
  simp only [step, readLong_marker, readShorts, readLetters_marker]

/-- A fault in front of the marker is found as it is without it. -/
theorem fault_append_marker {literal : Bool} {xs past past' : List String}
    {before before' : List Token} {e : InputError} (ys : List String)
    (h : (Cursor.readAll c past before literal xs).2 = some e) :
    (Cursor.readAll c past' before' literal (xs ++ "--" :: ys)).2 = some e := by
  -- an argument may take the next one along, so the induction is on how many there are
  induction hn : xs.length using Nat.strongRecOn
    generalizing past past' before before' literal xs with
  | _ n ih =>
    cases xs with
    | nil => exact nomatch h
    | cons raw ahead =>
      have hsame : c.step literal raw (ahead ++ "--" :: ys).head? =
          c.step literal raw ahead.head? := by
        cases ahead with
        | nil => exact step_marker literal raw
        | cons value rest => rfl
      rw [List.cons_append]
      cases hs : c.step literal raw ahead.head? with
      | error e' =>
        rw [Cursor.readAll, hs] at h
        rw [Cursor.readAll, hsame, hs]
        exact h
      | ok s =>
        have hshort : (s.following ahead).length < n := hn ▸ s.following_shorter raw ahead
        rw [readAll_cons hs] at h
        rw [readAll_cons (hsame.trans hs), ((step_eq_ok.mp hs).append _).2]
        exact ih _ hshort h rfl

theorem tokenize_append_marker {xs : List String} {e : InputError} (h : c.tokenize xs = .error e)
    (ys : List String) : c.tokenize (xs ++ "--" :: ys) = .error e := by
  unfold Conventions.tokenize Cursor.tokenize Cursor.start at h ⊢
  have hfault : (Cursor.readAll c [] [] false xs).2 = some e := by
    cases hx : Cursor.readAll c [] [] false xs with
    | mk done error =>
      rw [hx] at h
      cases error with
      | none => exact nomatch h
      | some e' => exact congrArg some (Except.error.inj h)
  have hfault' : (Cursor.readAll c [] [] false (xs ++ "--" :: ys)).2 = some e :=
    fault_append_marker ys hfault
  cases hx : Cursor.readAll c [] [] false (xs ++ "--" :: ys) with
  | mk done error =>
    rw [hx] at hfault'
    obtain rfl : error = some e := hfault'
    rfl

end BeforeMarker

section Ends

theorem Reads.marker_mem_following {literal : Bool} {ahead : List String} {s : Step}
    (h : c.Reads literal raw ahead.head? s) : "--" ∈ s.following ahead ↔ "--" ∈ ahead := by
  unfold Step.following
  by_cases ht : s.tookNext = true
  · obtain ⟨w, hw, hne⟩ := h.taken ht
    obtain ⟨rest, rfl⟩ := List.head?_eq_some_iff.mp hw
    rw [if_pos ht, List.drop_one, List.tail_cons, List.mem_cons]
    exact (or_iff_right hne.symm).symm
  · rw [if_neg ht]

theorem ReadsLetters.not_plain {letters : List Char} {tokens : List Token} {took : Bool}
    (h : c.ReadsLetters raw next letters tokens took) (w : String) : .plain w ∉ tokens := by
  induction h with
  | nil => exact List.not_mem_nil
  | flag _ _ _ ih => simpa using ih
  | valued => simp

/-- One argument ends the options if it is the marker or, where plain words do so, one of them. -/
theorem Reads.literal_iff {s : Step} (h : c.Reads false raw next s) :
    s.literal = false ↔
      raw ≠ "--" ∧ (c.optionsFirst = true → ∀ w, .plain w ∉ s.tokens) := by
  cases h with
  | marker => simp
  | long hr hl =>
    have hraw : raw ≠ "--" := by
      rintro rfl
      exact nomatch hr
    cases hl with
    | intro => simp [hraw]
  | cluster hr hf hl =>
    have hraw : raw ≠ "--" := by
      rintro rfl
      exact hf (List.cons.inj (List.cons.inj hr).2).1.symm
    exact iff_of_true rfl ⟨hraw, fun _ => hl.not_plain⟩
  | word hr =>
    have hraw : raw ≠ "--" := by
      rintro rfl
      exact hr _ _ rfl
    simp [hraw]

theorem ReadsAll.literal_stays {xs : List String} {tokens : List Token} {after : Bool}
    (h : c.ReadsAll true xs tokens after) : after = true := by
  have heq := h.tokens?_eq.symm.trans (readsAll_literal xs).tokens?_eq
  exact (Prod.mk.inj (Option.some.inj heq)).2

/-- **What ends the options**: the marker, wherever it stands, and where plain words do so the first
one of them. -/
theorem ReadsAll.literal_iff {xs : List String} {tokens : List Token} {after : Bool}
    (h : c.ReadsAll false xs tokens after) :
    after = false ↔
      "--" ∉ xs ∧ (c.optionsFirst = true → ∀ w, .plain w ∉ tokens) := by
  generalize hl : false = literal at h
  induction h with
  | nil => simp [← hl]
  | @cons literal raw ahead s tokens after hs hrest ih =>
    subst hl
    have hstep := hs.literal_iff
    have hmem : "--" ∉ raw :: ahead ↔ raw ≠ "--" ∧ "--" ∉ s.following ahead := by
      rw [hs.marker_mem_following, List.mem_cons, not_or, ne_comm]
    have hplain : ∀ w, .plain w ∉ s.tokens ++ tokens ↔ .plain w ∉ s.tokens ∧ .plain w ∉ tokens := by
      intro w
      rw [List.mem_append, not_or]
    -- this argument ends the options, or those that it leaves ahead decide
    cases hlit : s.literal with
    | true =>
      rw [hlit] at hrest hstep
      obtain rfl := hrest.literal_stays
      refine iff_of_false nofun fun ⟨hmark, hwords⟩ => ?_
      have hopen := hstep.mpr ⟨(hmem.mp hmark).1, fun hc w => ((hplain w).mp (hwords hc w)).1⟩
      exact nomatch hopen
    | false =>
      obtain ⟨hraw, hfirst⟩ := hstep.mp hlit
      rw [hlit] at ih
      rw [ih rfl, hmem]
      constructor
      · rintro ⟨hmark, hwords⟩
        exact ⟨⟨hraw, hmark⟩, fun hc w => (hplain w).mpr ⟨hfirst hc w, hwords hc w⟩⟩
      · rintro ⟨⟨-, hmark⟩, hwords⟩
        exact ⟨hmark, fun hc w => ((hplain w).mp (hwords hc w)).2⟩

end Ends

/-- A row that leaves the options open may be read first. -/
theorem tokenize_append {xs ys : List String} {tokens more : List Token} {after : Bool}
    (h : c.ReadsAll false xs tokens false) (k : c.ReadsAll false ys more after) :
    c.tokenize (xs ++ ys) = .ok (tokens ++ more) := by
  refine tokenize_eq_ok.mpr ⟨after, readsAll_of_tokens? ?_⟩
  rw [h.tokens?_append, k.tokens?_eq]
  rfl

variable (c) in
/-- **The arguments are cut where the options end.** Without `optionsFirst`, arguments in front of
the first marker are read as they are alone, to the same fault or the same tokens, and behind them
stand the marker, if it is kept, and plain words only. With it, a word behind arguments among which
there is neither a plain word nor a marker makes itself and all that follows plain. -/
theorem tokenize_cut :
    (c.optionsFirst = false → ∀ xs ys, "--" ∉ xs →
      c.tokenize (xs ++ "--" :: ys) = (c.tokenize xs).map fun tokens =>
        tokens ++ (if c.keepMarker then [.marker "--"] else []) ++ ys.map .plain) ∧
    (c.optionsFirst = true → ∀ xs tokens word ys, c.tokenize xs = .ok tokens →
      (∀ w, .plain w ∉ tokens) → "--" ∉ xs → word = "-" ∨ word.toList.head? ≠ some '-' →
      c.tokenize (xs ++ word :: ys) = .ok (tokens ++ .plain word :: ys.map .plain)) := by
  constructor
  · intro hfirst xs ys hmark
    cases hx : c.tokenize xs with
    | error e => exact tokenize_append_marker hx ys
    | ok tokens =>
      obtain ⟨after, hread⟩ := tokenize_eq_ok.mp hx
      obtain rfl : after = false :=
        hread.literal_iff.mpr ⟨hmark, fun h => nomatch hfirst.symm.trans h⟩
      have hbehind := ReadsAll.cons (c := c) .marker (readsAll_literal ys)
      rw [tokenize_append hread hbehind, ← List.append_assoc]
      rfl
  · intro hfirst xs tokens word ys hx hwords hmark hword
    obtain ⟨after, hread⟩ := tokenize_eq_ok.mp hx
    obtain rfl : after = false := hread.literal_iff.mpr ⟨hmark, fun _ => hwords⟩
    have hstep := reads_word (c := c) hword ys.head?
    rw [hfirst] at hstep
    exact tokenize_append hread (.cons hstep (readsAll_literal ys))

/-- A flag and an option without its value in front of the marker, and a flag in front of a dash. -/
theorem tokenize_cut_behind_flag :
    ∃ c c' : Conventions, c.optionsFirst = false ∧ c'.optionsFirst = true ∧
      "--" ∉ ["-a"] ∧ "--" ∉ ["-a", "-o"] ∧
      c.tokenize (["-a"] ++ "--" :: ["-a", "--"]) =
        .ok [.option { short := some "-a" } "-a" none, .marker "--", .plain "-a", .plain "--"] ∧
      c.tokenize (["-a", "-o"] ++ "--" :: ["x"]) = .error ⟨.valueMissing "-o", "-o"⟩ ∧
      (∀ w, Token.plain w ∉ [Token.option { short := some "-a" } "-a" none]) ∧
      c'.tokenize (["-a"] ++ "-" :: ["--", "-o"]) =
        .ok [.option { short := some "-a" } "-a" none, .plain "-", .plain "--", .plain "-o"] := by
  let c : Conventions :=
    { options := .ofList [{ short := some "-a" }, { short := some "-o", arity := 1 }] }
  let c' : Conventions := { c with optionsFirst := true }
  have hmark : "--" ∉ ["-a"] := by decide
  have hmark' : "--" ∉ ["-a", "-o"] := by decide
  have hplain : ∀ w, Token.plain w ∉ [Token.option { short := some "-a" } "-a" none] := by simp
  refine ⟨c, c', rfl, rfl, hmark, hmark', ?_, ?_, hplain, ?_⟩
  · exact (tokenize_cut c).1 rfl ["-a"] ["-a", "--"] hmark
  · exact (tokenize_cut c).1 rfl ["-a", "-o"] ["x"] hmark'
  · exact (tokenize_cut c').2 rfl ["-a"] _ "-" ["--", "-o"] rfl hplain hmark (.inl rfl)

end Synopsis.Conventions
