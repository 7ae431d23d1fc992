import Synopsis.Bindings
import Synopsis.Proofs.Locality
import Synopsis.Proofs.Reading

/-!
# Other spellings of the same options

An option may be spelled in several ways: its value behind an equals sign, attached or as an
argument of its own, its long form cut short, flags one by one or as a cluster. `Respelled` relates
two spellings. Reading goes the same way after both, since both are read to the end of what they
spell and neither makes the arguments after it plain. So a command line is faulty in both spellings
or in none, and otherwise says the same.
-/

namespace Synopsis

namespace OptionTable

/-- The form is two dashes and a word without an equals sign. -/
def IsLongForm (form : String) : Prop :=
  ∃ first rest, form.toList = '-' :: '-' :: first :: rest ∧ '=' ∉ first :: rest

/-- Every long form is two dashes and a word without an equals sign. -/
def LongFormsPlain (t : OptionTable) : Prop :=
  ∀ o ∈ t.options, ∀ form, o.long = some form → IsLongForm form

theorem IsLongForm.ne_empty {form : String} (h : IsLongForm form) : form ≠ "" := by
  obtain ⟨first, rest, hf, -⟩ := h
  rintro rfl
  exact nomatch hf

theorem IsLongForm.of_prefix {form start : String} (h : IsLongForm form)
    (hs : start.toList <+: form.toList) (hlen : 2 < start.toList.length) : IsLongForm start := by
  obtain ⟨first, rest, hf, he⟩ := h
  obtain ⟨more, hmore⟩ := hs
  rw [hf] at hmore
  match hstart : start.toList, hlen with
  | a :: b :: d :: tail, _ =>
    rw [hstart] at hmore
    simp only [List.cons_append, List.cons.injEq] at hmore
    obtain ⟨rfl, rfl, rfl, rfl⟩ := hmore
    refine ⟨d, tail, hstart, fun hmem => he ?_⟩
    exact List.mem_append_left more hmem

/-- A long form, with a value behind an equals sign if there is one. -/
def withValue (form : String) : Option String → String
  | none => form
  | some v => form ++ "=" ++ v

/-- **Two spellings of the same options.** -/
inductive Respelled (t : OptionTable) : List String → List String → Prop
  | value {o name v} : o ∈ t.options → o.long = some name → o.takesValue = true → v ≠ "--" →
      Respelled t [withValue name (some v)] [name, v]
  | start {o start name inline} : t.Resolves start o → o.long = some name →
      start.toList <+: name.toList → 2 < start.toList.length →
      Respelled t [withValue start inline] [withValue name inline]
  | cluster {letters} : letters ≠ [] →
      (∀ letter ∈ letters, letter ≠ '-' ∧
        ∃ o, t.byShort (String.ofList ['-', letter]) = [o] ∧ o.takesValue = false) →
      Respelled t [String.ofList ('-' :: letters)]
        (letters.map fun letter => String.ofList ['-', letter])
  | attached {o letter v} : letter ≠ '-' → t.byShort (String.ofList ['-', letter]) = [o] →
      o.takesValue = true → v ≠ "" → v ≠ "--" →
      Respelled t [String.ofList ('-' :: letter :: v.toList)] [String.ofList ['-', letter], v]

end OptionTable

namespace Conventions

open OptionTable (IsLongForm withValue)

variable {c : Conventions} {raw : String} {next : Option String}

theorem splitAt_withValue {form : String} (h : IsLongForm form) (inline : Option String) :
    Text.splitAt '=' (withValue form inline).toList =
      (form.toList, inline.map String.toList) := by
  obtain ⟨first, rest, hf, he⟩ := h
  have hmem : '=' ∉ form.toList := by
    rw [hf]
    simpa using he
  cases inline with
  | none => exact Text.splitAt_of_not_mem hmem
  | some v =>
    have htext : (withValue form (some v)).toList = form.toList ++ '=' :: v.toList := by
      simp [withValue]
    rw [htext, Text.splitAt_append hmem, Option.map_some]

/-- What a long option is read into depends on the option that its form names. -/
theorem reads_long_iff {form : String} (h : IsLongForm form) (inline : Option String) {s : Step} :
    c.Reads false (withValue form inline) next s ↔
      ∃ o v took, c.options.Resolves form o ∧ Valued o inline next v took ∧
        s = ⟨[.option o (withValue form inline) v], took, false⟩ := by
  have hsplit := splitAt_withValue h inline
  obtain ⟨first, rest, hf, -⟩ := h
  have hraw : ∃ rest', (withValue form inline).toList = '-' :: '-' :: first :: rest' := by
    cases inline with
    | none => exact ⟨rest, hf⟩
    | some v => exact ⟨rest ++ '=' :: v.toList, by simp [withValue, hf]⟩
  obtain ⟨rest', hraw⟩ := hraw
  have hround : (inline.map String.toList).map String.ofList = inline := by
    cases inline <;> simp
  generalize withValue form inline = raw at hsplit hraw ⊢
  constructor
  · intro hreads
    cases hreads with
    | marker => cases hraw
    | long _ hl =>
      cases hl with
      | @intro form' inline' o v _ hs ho hv =>
        rw [hsplit] at hs
        obtain ⟨rfl, rfl⟩ := Prod.mk.inj hs
        rw [String.ofList_toList] at ho
        rw [hround] at hv
        exact ⟨o, v, _, ho, hv, rfl⟩
    | cluster hr hne =>
      rw [hraw] at hr
      exact absurd (List.cons.inj (List.cons.inj hr).2).1.symm hne
    | word hr => exact absurd hraw (hr _ _)
  · rintro ⟨o, v, took, ho, hv, rfl⟩
    refine .long hraw (.intro hsplit ?_ ?_)
    · rwa [String.ofList_toList]
    · rwa [hround]

variable (c) in
/-- **What a row of arguments says**, if none of them is faulty: what its tokens say, and whether
arguments after it are plain. -/
def says? (literal : Bool) (arguments : List String) : Option (List Token × Bool) :=
  (c.tokens? literal arguments).map fun (tokens, after) => (tokens.map Token.meaning, after)

theorem says?_cons {literal : Bool} {s : Step} (ahead : List String)
    (h : c.Reads literal raw ahead.head? s) :
    c.says? literal (raw :: ahead) =
      (c.says? s.literal (s.following ahead)).map fun (said, after) =>
        (s.tokens.map Token.meaning ++ said, after) := by
  unfold says?
  rw [tokens?_cons (step_eq_ok.mpr h), Option.map_map, Option.map_map]
  simp only [Function.comp_def, List.map_append]

theorem says?_cons_none {literal : Bool} {ahead : List String}
    (h : ∀ s, ¬ c.Reads literal raw ahead.head? s) : c.says? literal (raw :: ahead) = none := by
  cases hs : c.step literal raw ahead.head? with
  | error e => rw [says?, tokens?_cons_error hs, Option.map_none]
  | ok s => exact absurd (step_eq_ok.mp hs) (h s)

theorem says?_start {start name : String} {o : OptionDef} (hc : c.options.LongFormsPlain)
    (ho : c.options.Resolves start o) (hl : o.long = some name)
    (hs : start.toList <+: name.toList) (hlen : 2 < start.toList.length) (inline : Option String)
    (ys : List String) :
    c.says? false (withValue start inline :: ys) = c.says? false (withValue name inline :: ys) := by
  have hname : IsLongForm name := hc o ho.mem name hl
  have hstart : IsLongForm start := hname.of_prefix hs hlen
  have ho' : c.options.Resolves name o :=
    .inl (OptionTable.byLong_eq_singleton ho.mem hl hname.ne_empty)
  -- either form is read if the option comes by its value, and neither is if it does not
  by_cases hv : ∃ v took, Valued o inline ys.head? v took
  · obtain ⟨v, took, hv⟩ := hv
    rw [says?_cons ys ((reads_long_iff hstart inline).mpr ⟨o, v, took, ho, hv, rfl⟩),
      says?_cons ys ((reads_long_iff hname inline).mpr ⟨o, v, took, ho', hv, rfl⟩)]
    rfl
  · have hnone : ∀ form, IsLongForm form → c.options.Resolves form o →
        c.says? false (withValue form inline :: ys) = none := by
      intro form hform hres
      refine says?_cons_none fun s hreads => hv ?_
      obtain ⟨o', v, took, ho', hv', -⟩ := (reads_long_iff hform inline).mp hreads
      exact ⟨v, took, hres.unique ho' ▸ hv'⟩
    rw [hnone start hstart ho, hnone name hname ho']

theorem reads_cluster {letters : List Char} {tokens : List Token} {took : Bool}
    (hne : letters ≠ []) (hdash : ∀ letter ∈ letters, letter ≠ '-')
    (h : c.ReadsLetters (String.ofList ('-' :: letters)) next letters tokens took) :
    c.Reads false (String.ofList ('-' :: letters)) next ⟨tokens, took, false⟩ := by
  obtain ⟨first, rest, rfl⟩ := List.exists_cons_of_ne_nil hne
  exact .cluster String.toList_ofList (hdash first List.mem_cons_self) h

/-- Flags one by one say what the letters of a cluster say. -/
theorem says?_flags {letters : List Char}
    (h : ∀ letter ∈ letters, letter ≠ '-' ∧
      ∃ o, c.options.byShort (String.ofList ['-', letter]) = [o] ∧ o.takesValue = false)
    (raw : String) (next : Option String) (ys : List String) :
    ∃ tokens, c.ReadsLetters raw next letters tokens false ∧
      c.says? false ((letters.map fun letter => String.ofList ['-', letter]) ++ ys) =
        (c.says? false ys).map fun (said, after) => (tokens.map Token.meaning ++ said, after) := by
  induction letters with
  | nil => exact ⟨[], .nil, by simp⟩
  | cons letter rest ih =>
    obtain ⟨hdash, o, ho, ht⟩ := h letter List.mem_cons_self
    obtain ⟨tokens, htokens, hsays⟩ := ih fun l hl => h l (List.mem_cons_of_mem letter hl)
    refine ⟨.option o raw none :: tokens, .flag ho ht htokens, ?_⟩
    have hone : c.Reads false (String.ofList ['-', letter])
        ((rest.map fun letter => String.ofList ['-', letter]) ++ ys).head?
        ⟨[.option o (String.ofList ['-', letter]) none], false, false⟩ :=
      reads_cluster (List.cons_ne_nil letter []) (by simpa using hdash) (.flag ho ht .nil)
    rw [List.map_cons, List.cons_append, says?_cons _ hone]
    simp only [Step.following, Bool.false_eq_true, if_false, hsays, Option.map_map,
      Function.comp_def, List.map_cons, List.map_nil, List.cons_append, List.nil_append,
      Token.meaning]

/-- **Both spellings say the same**, whatever follows. -/
theorem says?_respelled (hc : c.options.LongFormsPlain) {us vs : List String}
    (h : c.options.Respelled us vs) (ys : List String) :
    c.says? false (us ++ ys) = c.says? false (vs ++ ys) := by
  cases h with
  | @value o name v ho hl ht hv =>
    have hname : IsLongForm name := hc o ho name hl
    have hres : c.options.Resolves name o :=
      .inl (OptionTable.byLong_eq_singleton ho hl hname.ne_empty)
    have hinline : c.Reads false (withValue name (some v)) ys.head?
        ⟨[.option o (withValue name (some v)) (some v)], false, false⟩ :=
      (reads_long_iff hname (some v)).mpr ⟨o, some v, false, hres, .inline ht rfl, rfl⟩
    have hnext : c.Reads false name (some v) ⟨[.option o name (some v)], true, false⟩ :=
      (reads_long_iff hname none).mpr ⟨o, some v, true, hres, .next ht rfl rfl hv, rfl⟩
    have hleft := says?_cons ys hinline
    have hright := says?_cons (v :: ys) hnext
    exact hleft.trans hright.symm
  | start ho hl hs hlen => exact says?_start hc ho hl hs hlen _ ys
  | @cluster letters hne hflags =>
    obtain ⟨tokens, htokens, hsays⟩ :=
      says?_flags hflags (String.ofList ('-' :: letters)) ys.head? ys
    have hcluster := reads_cluster hne (fun letter hl => (hflags letter hl).1) htokens
    exact (says?_cons ys hcluster).trans hsays.symm
  | @attached o letter v hdash ho ht hne hv =>
    have hattached : c.Reads false (String.ofList ('-' :: letter :: v.toList)) ys.head?
        ⟨[.option o (String.ofList ('-' :: letter :: v.toList)) (some v)], false, false⟩ := by
      refine .cluster String.toList_ofList hdash (.valued ho (.inline ht ?_))
      have hvne : v.toList ≠ [] := fun h => hne (String.toList_inj.mp h)
      simp [remainder, hvne]
    have hnext : c.Reads false (String.ofList ['-', letter]) (some v)
        ⟨[.option o (String.ofList ['-', letter]) (some v)], true, false⟩ :=
      .cluster String.toList_ofList hdash (.valued ho (.next ht rfl rfl hv))
    have hleft := says?_cons ys hattached
    have hright := says?_cons (v :: ys) hnext
    exact hleft.trans hright.symm

theorem meaning_tokenize_append {xs : List String} {tokens : List Token}
    (hx : c.tokens? false xs = some (tokens, false)) (ws : List String) :
    (c.tokenize (xs ++ ws)).toOption.map (List.map Token.meaning) =
      (c.says? false ws).map fun (said, _) => tokens.map Token.meaning ++ said := by
  rw [tokenize_toOption, (readsAll_of_tokens? hx).tokens?_append, says?, Option.map_map,
    Option.map_map, Option.map_map]
  simp only [Function.comp_def, List.map_append]

theorem meaning_tokenize_respelled (hc : c.options.LongFormsPlain) {xs us vs : List String}
    {tokens : List Token} (hx : c.tokens? false xs = some (tokens, false))
    (h : c.options.Respelled us vs) (ys : List String) :
    (c.tokenize (xs ++ us ++ ys)).toOption.map (List.map Token.meaning) =
      (c.tokenize (xs ++ vs ++ ys)).toOption.map (List.map Token.meaning) := by
  rw [List.append_assoc, List.append_assoc, meaning_tokenize_append hx,
    meaning_tokenize_append hx, says?_respelled hc h]

/-- **Equivalent spellings mean the same** between any arguments: both command lines are faulty, or
their tokens differ in the spelling of options alone, and every pattern binds them alike. -/
theorem tokenize_respelled (hc : c.options.LongFormsPlain) {xs us vs : List String} {done : Cursor}
    (hx : (Cursor.start xs).tokenize c = (done, none)) (hl : done.literal = false)
    (h : c.options.Respelled us vs) (ys : List String) :
    (∃ e e', c.tokenize (xs ++ us ++ ys) = .error e ∧ c.tokenize (xs ++ vs ++ ys) = .error e') ∨
    ∃ ts ts', c.tokenize (xs ++ us ++ ys) = .ok ts ∧ c.tokenize (xs ++ vs ++ ys) = .ok ts' ∧
      ts.map Token.meaning = ts'.map Token.meaning ∧
      ∀ p, Matching.run ts p = Matching.run ts' p ∧
        (Matching.run ts p).matched.map (Bindings.reduce · p.actions) =
          (Matching.run ts' p).matched.map (Bindings.reduce · p.actions) := by
  have hread : c.tokens? false xs = some (done.tokens, done.literal) := congrArg ending hx
  rw [hl] at hread
  have hsame := meaning_tokenize_respelled hc hread h ys
  cases hu : c.tokenize (xs ++ us ++ ys) with
  | error e =>
    cases hv : c.tokenize (xs ++ vs ++ ys) with
    | error e' => exact .inl ⟨e, e', rfl, rfl⟩
    | ok ts' =>
      rw [hu, hv] at hsame
      exact nomatch hsame
  | ok ts =>
    cases hv : c.tokenize (xs ++ vs ++ ys) with
    | error e' =>
      rw [hu, hv] at hsame
      exact nomatch hsame
    | ok ts' =>
      rw [hu, hv] at hsame
      have hmeaning : ts.map Token.meaning = ts'.map Token.meaning := Option.some.inj hsame
      refine .inr ⟨ts, ts', rfl, rfl, hmeaning, fun p => ?_⟩
      have hrun := Matching.run_congr hmeaning p
      exact ⟨hrun, by rw [hrun]⟩

/-- A long form cut short between a flag and a value that looks like the marker. -/
theorem tokenize_respelled_start :
    ∃ c : Conventions, c.options.LongFormsPlain ∧
      (∃ done, (Cursor.start ["-a"]).tokenize c = (done, none) ∧ done.literal = false) ∧
      c.options.Respelled ["--ou=--"] ["--out=--"] ∧
      ∃ ts ts', c.tokenize ["-a", "--ou=--", "x"] = .ok ts ∧
        c.tokenize ["-a", "--out=--", "x"] = .ok ts' ∧ ts ≠ ts' ∧
        ts.map Token.meaning = ts'.map Token.meaning := by
  let c : Conventions :=
    { options := .ofList [{ short := some "-a" },
        { short := some "-o", long := some "--out", arity := 1 }] }
  have hc : c.options.LongFormsPlain := by
    intro o ho form hform
    have ho' : o ∈ [{ short := some "-a" },
        ({ short := some "-o", long := some "--out", arity := 1 } : OptionDef)] := ho
    rcases List.mem_pair.mp ho' with rfl | rfl
    · exact nomatch hform
    · obtain rfl := Option.some.inj hform
      exact ⟨'o', ['u', 't'], rfl, by decide⟩
  have hx : (Cursor.start ["-a"]).tokenize c =
      (⟨["-a"], [], [.option { short := some "-a" } "-a" none], false⟩, none) := rfl
  have hstart : c.options.Resolves "--ou"
      { short := some "-o", long := some "--out", arity := 1 } := .inr ⟨rfl, rfl⟩
  have h : c.options.Respelled [withValue "--ou" (some "--")] [withValue "--out" (some "--")] :=
    .start hstart rfl (by decide) (by decide)
  refine ⟨c, hc, ⟨_, hx, rfl⟩, h, ?_⟩
  rcases tokenize_respelled hc hx rfl h ["x"] with ⟨e, _, he, -⟩ | ⟨ts, ts', hu, hv, hmeaning, -⟩
  · exact nomatch he
  · refine ⟨ts, ts', hu, hv, ?_, hmeaning⟩
    obtain rfl := Except.ok.inj hu
    obtain rfl := Except.ok.inj hv
    decide

end Conventions

end Synopsis
