import Synopsis.Proofs.Reading

/-!
# The place of a cursor as a number

A `Pointer` keeps all arguments of a command line and counts how many of them are read. It looks
every argument up by its number, where there may be none, and takes the end to be reached when the
count equals the number of arguments. Whatever is done with a pointer, in whatever order and also
after a faulty argument, the count stays within the arguments: every argument that is looked up is
there, the end is not jumped over, and the pointer does what the cursor does.
-/

namespace Synopsis

namespace Conventions

/-- An argument is read by what it looks like. -/
theorem step_eq_ite (c : Conventions) (raw : String) (next : Option String) :
    c.step false raw next =
      if raw = "--" then .ok ⟨if c.keepMarker then [.marker raw] else [], false, true⟩
      else if "--".toList.isPrefixOf raw.toList then
        c.readLong raw next >>= fun x => pure ⟨[x.1], x.2, false⟩
      else if "-".toList.isPrefixOf raw.toList ∧ raw ≠ "-" then
        c.readShorts raw next >>= fun x => pure ⟨x.1, x.2, false⟩
      else .ok ⟨[.plain raw], false, c.optionsFirst⟩ := by
  unfold step
  rw [if_neg Bool.false_ne_true]
  split
  next hr =>
    obtain rfl := toList_eq_marker.mp hr
    rfl
  next tail hmark hr =>
    have hraw : raw ≠ "--" := by
      rintro rfl
      exact hmark (List.cons.inj (List.cons.inj hr).2).2.symm
    rw [if_neg hraw, hr, if_pos (by rfl)]
  next first rest hmark hlong hr =>
    have hraw : raw ≠ "--" := by
      rintro rfl
      exact hlong (List.cons.inj (List.cons.inj hr).2).1.symm
    have hdash : raw ≠ "-" := by
      rintro rfl
      exact nomatch (List.cons.inj hr).2
    have hno : ¬ "--".toList.isPrefixOf raw.toList = true := by
      rw [hr]
      simpa [List.isPrefixOf] using fun h => hlong h.symm
    have hyes : "-".toList.isPrefixOf raw.toList = true := by
      rw [hr]
      rfl
    rw [if_neg hraw, if_neg hno, if_pos ⟨hyes, hdash⟩]
  next hmark hlong hcluster =>
    have hno : ¬ "--".toList.isPrefixOf raw.toList = true := by
      intro h
      obtain ⟨tail, ht⟩ := List.isPrefixOf_iff_prefix.mp h
      exact hlong tail ht.symm
    have hword : ¬ ("-".toList.isPrefixOf raw.toList = true ∧ raw ≠ "-") := by
      rintro ⟨h, hne⟩
      obtain ⟨tail, ht⟩ := List.isPrefixOf_iff_prefix.mp h
      cases tail with
      | nil => exact hne (String.toList_inj.mp ht.symm)
      | cons first rest => exact hcluster first rest ht.symm
    have hraw : raw ≠ "--" := by
      rintro rfl
      exact hno rfl
    rw [if_neg hraw, if_neg hno, if_neg hword]

end Conventions

/-- All arguments of a command line, and how many of them are read. -/
structure Pointer where
  arguments : List String := []
  size : Nat := 0
  place : Nat := 0
  tokens : List Token := []
  literal : Bool := false

/-- What can be done with a cursor. -/
inductive Operation where
  | build (arguments : List String)
  | reset
  | next
  | peek
  | tokenize
  | long (raw : String)
  | shorts (raw : String)

/-- What an operation answers. -/
inductive Answer where
  | nothing
  | argument (raw : Option String)
  | stopped (fault : Option InputError)
  | token (read : Except InputError Token)
  | tokens (read : Except InputError (List Token))

namespace Pointer

variable (p : Pointer)

/-- The pointer before the given arguments. -/
def start (arguments : List String) : Pointer :=
  { arguments := arguments, size := arguments.length }

def isDone : Bool :=
  p.place == p.size

/-- The argument at the place, if there is one, and the pointer after it. -/
def fetch : Option (Pointer × String) :=
  p.arguments[p.place]?.map fun raw => ({ p with place := p.place + 1 }, raw)

def next : Option (Pointer × Option String) :=
  if p.isDone then some (p, none) else p.fetch.map fun (q, raw) => (q, some raw)

def peek : Option (Option String) :=
  if p.isDone then some none else p.arguments[p.place]?.map some

/-- The value of an option given by the next argument. -/
def valueFor (form raw : String) : Option (Pointer × Except InputError String) :=
  p.peek.map fun
    | none => (p, .error ⟨.valueMissing form, raw⟩)
    | some value =>
      if value = "--" then (p, .error ⟨.valueMissing form, raw⟩)
      else ({ p with place := p.place + 1 }, .ok value)

variable (rules : Conventions)

def readLong (raw : String) : Option (Pointer × Except InputError Token) :=
  let (form, inline) := Text.splitAt '=' raw.toList
  match rules.resolveLong (String.ofList form) raw with
  | .error e => some (p, .error e)
  | .ok o =>
    match o.takesValue, inline with
    | false, none => some (p, .ok (.option o raw none))
    | false, some _ => some (p, .error ⟨.valueRefused (o.long.getD ""), raw⟩)
    | true, some value => some (p, .ok (.option o raw (some (String.ofList value))))
    | true, none =>
      (p.valueFor (o.long.getD "") raw).map fun (q, value) =>
        (q, value.map fun v => .option o raw (some v))

def readLetters (raw : String) : List Char → Option (Pointer × Except InputError (List Token))
  | [] => some (p, .ok [])
  | letter :: rest =>
    match rules.resolveShort (String.ofList ['-', letter]) raw with
    | .error e => some (p, .error e)
    | .ok o =>
      if o.takesValue then
        if rest.isEmpty then
          (p.valueFor (String.ofList ['-', letter]) raw).map fun (q, value) =>
            (q, value.map fun v => [.option o raw (some v)])
        else some (p, .ok [.option o raw (some (String.ofList rest))])
      else
        (readLetters raw rest).map fun (q, tokens) => (q, tokens.map (.option o raw none :: ·))

def readShorts (raw : String) : Option (Pointer × Except InputError (List Token)) :=
  p.readLetters rules raw (raw.toList.drop 1)

/-- The pointer with what was read, or the fault. -/
def keep (read : Except InputError (List Token)) : Pointer × Option InputError :=
  match read with
  | .ok tokens => ({ p with tokens := p.tokens ++ tokens }, none)
  | .error e => (p, some e)

/-- Reads an argument that is among the arguments. -/
def read (raw : String) : Option (Pointer × Option InputError) :=
  if p.literal then some (p.keep (.ok [.plain raw]))
  else if raw = "--" then
    some (keep { p with literal := true } (.ok (if rules.keepMarker then [.marker raw] else [])))
  else if "--".toList.isPrefixOf raw.toList then
    (p.readLong rules raw).map fun (q, token) => q.keep (token.map ([·]))
  else if "-".toList.isPrefixOf raw.toList ∧ raw ≠ "-" then
    (p.readShorts rules raw).map fun (q, tokens) => q.keep tokens
  else some (keep { p with literal := rules.optionsFirst } (.ok [.plain raw]))

/-- Reads the argument at the place. -/
def iterate : Option (Pointer × Option InputError) :=
  p.fetch.bind fun (q, raw) => q.read rules raw

section Moves

variable {α β : Type} {p q : Pointer} {rules : Conventions}

/-- The pointer is where it was, or one further if the reading succeeded. -/
inductive Moves (p : Pointer) : Pointer → Except InputError α → Prop
  | stays (read : Except InputError α) : Moves p p read
  | goesOn (value : α) : Moves p { p with place := p.place + 1 } (.ok value)

theorem Moves.map {read : Except InputError α} (f : α → β) (h : Moves p q read) :
    Moves p q (read.map f) := by
  cases h with
  | stays => exact .stays _
  | goesOn value => exact .goesOn (f value)

theorem Moves.place {read : Except InputError α} (h : Moves p q read) :
    (q.place = p.place ∨ q.place = p.place + 1) ∧ ∀ e, read = .error e → q.place = p.place := by
  cases h with
  | stays => exact ⟨.inl rfl, fun _ _ => rfl⟩
  | goesOn => exact ⟨.inr rfl, nofun⟩

theorem Moves.arguments {read : Except InputError α} (h : Moves p q read) :
    q.arguments = p.arguments ∧ q.size = p.size := by
  cases h with
  | stays => exact ⟨rfl, rfl⟩
  | goesOn => exact ⟨rfl, rfl⟩

theorem moves_of_staying {read read' : Except InputError α}
    (h : (p, read) = (q, read')) : Moves p q read' := by
  obtain ⟨rfl, rfl⟩ := Prod.mk.inj h
  exact .stays read

theorem valueFor_moves {form raw : String} {value : Except InputError String}
    (h : p.valueFor form raw = some (q, value)) : Moves p q value := by
  rw [valueFor, Option.map_eq_some_iff] at h
  obtain ⟨next, -, h⟩ := h
  cases next with
  | none => exact moves_of_staying h
  | some v =>
    dsimp only at h
    split at h
    · exact moves_of_staying h
    · obtain ⟨rfl, rfl⟩ := Prod.mk.inj h
      exact .goesOn v

theorem moves_of_map {f : α → β} {r : Option (Pointer × Except InputError α)}
    {read : Except InputError β} (hr : ∀ q value, r = some (q, value) → Moves p q value)
    (h : (r.map fun (q, value) => (q, value.map f)) = some (q, read)) : Moves p q read := by
  obtain ⟨⟨q', value⟩, hq, heq⟩ := Option.map_eq_some_iff.mp h
  obtain ⟨rfl, rfl⟩ := Prod.mk.inj heq
  exact (hr q' value hq).map f

theorem readLong_moves {raw : String} {token : Except InputError Token}
    (h : p.readLong rules raw = some (q, token)) : Moves p q token := by
  unfold readLong at h
  dsimp only at h
  split at h
  · exact moves_of_staying (Option.some.inj h)
  · split at h
    · exact moves_of_staying (Option.some.inj h)
    · exact moves_of_staying (Option.some.inj h)
    · exact moves_of_staying (Option.some.inj h)
    · exact moves_of_map (fun _ _ => valueFor_moves) h

theorem readLetters_moves {raw : String} {letters : List Char}
    {tokens : Except InputError (List Token)}
    (h : p.readLetters rules raw letters = some (q, tokens)) : Moves p q tokens := by
  induction letters generalizing q tokens with
  | nil => exact moves_of_staying (Option.some.inj h)
  | cons letter rest ih =>
    unfold readLetters at h
    split at h
    · exact moves_of_staying (Option.some.inj h)
    · split at h
      · split at h
        · exact moves_of_map (fun _ _ => valueFor_moves) h
        · exact moves_of_staying (Option.some.inj h)
      · exact moves_of_map (fun _ _ => ih) h

/-- One argument is read, or two. -/
structure Passes (p q : Pointer) : Prop where
  arguments : q.arguments = p.arguments
  size : q.size = p.size
  available : p.place < p.arguments.length
  place : q.place = p.place + 1 ∨ q.place = p.place + 2

theorem Moves.passes {raw : String} {read : Except InputError α}
    (ht : p.arguments[p.place]? = some raw)
    (h : Moves { p with place := p.place + 1 } q read) : Passes p q := by
  obtain ⟨hlt, -⟩ := List.getElem?_eq_some_iff.mp ht
  exact ⟨h.arguments.1, h.arguments.2, hlt, h.place.1⟩

theorem Passes.literal (h : Passes p q) (literal : Bool) :
    Passes p { q with literal := literal } :=
  ⟨h.arguments, h.size, h.available, h.place⟩

/-- What is read of an argument does not change the place. -/
theorem Passes.keep {e : Option InputError} {q' : Pointer} (h : Passes p q)
    (read : Except InputError (List Token)) (hq : q.keep read = (q', e)) : Passes p q' := by
  cases read with
  | ok tokens =>
    obtain ⟨rfl, -⟩ := Prod.mk.inj hq
    exact ⟨h.arguments, h.size, h.available, h.place⟩
  | error e =>
    obtain ⟨rfl, -⟩ := Prod.mk.inj hq
    exact h

/-- **A round reads one argument or two**, and looks for the first of them where it is. -/
theorem iterate_passes {e : Option InputError} (h : p.iterate rules = some (q, e)) :
    Passes p q := by
  obtain ⟨⟨q₀, raw⟩, hfetch, h⟩ := Option.bind_eq_some_iff.mp h
  obtain ⟨raw', ht, heq⟩ := Option.map_eq_some_iff.mp hfetch
  obtain ⟨rfl, rfl⟩ := Prod.mk.inj heq
  have hone : Passes p { p with place := p.place + 1 } := Moves.passes ht (.stays (.ok ()))
  dsimp only [read] at h
  split at h
  · exact hone.keep _ (Option.some.inj h)
  split at h
  · exact (hone.literal true).keep _ (Option.some.inj h)
  split at h
  · obtain ⟨⟨q₁, token⟩, hread, heq⟩ := Option.map_eq_some_iff.mp h
    exact ((readLong_moves hread).passes ht).keep _ heq
  split at h
  · obtain ⟨⟨q₁, tokens⟩, hread, heq⟩ := Option.map_eq_some_iff.mp h
    exact ((readLetters_moves hread).passes ht).keep _ heq
  · exact (hone.literal rules.optionsFirst).keep _ (Option.some.inj h)

end Moves

/-- Reads arguments until the end is reached, or up to a faulty one. -/
def tokenize (p : Pointer) (rules : Conventions) : Option (Pointer × Option InputError) :=
  if p.isDone then some (p, none)
  else
    match _ : p.iterate rules with
    | none => none
    | some (q, some e) => some (q, some e)
    | some (q, none) => tokenize q rules
termination_by p.arguments.length - p.place
decreasing_by
  have hpass := iterate_passes ‹_›
  have hplace := hpass.place
  have hlt := hpass.available
  rw [hpass.arguments]
  omega

/-- What comes of reading on after a round that meets no fault. -/
def goOn (rules : Conventions) : Pointer × Option InputError → Option (Pointer × Option InputError)
  | (q, some e) => some (q, some e)
  | (q, none) => q.tokenize rules

theorem tokenize_eq {p : Pointer} {rules : Conventions} {round : Pointer × Option InputError}
    (hd : p.isDone = false) (h : p.iterate rules = some round) :
    p.tokenize rules = goOn rules round := by
  rw [tokenize, if_neg (Bool.eq_false_iff.mp hd)]
  split
  next hnone => exact nomatch h.symm.trans hnone
  next q e hsome =>
    obtain rfl := Option.some.inj (h.symm.trans hsome)
    rfl
  next q hsome =>
    obtain rfl := Option.some.inj (h.symm.trans hsome)
    rfl

def perform (p : Pointer) (rules : Conventions) : Operation → Option (Pointer × Answer)
  | .build arguments => some (start arguments, .nothing)
  | .reset => some ({}, .nothing)
  | .next => p.next.map fun (q, raw) => (q, .argument raw)
  | .peek => p.peek.map fun raw => (p, .argument raw)
  | .tokenize => (p.tokenize rules).map fun (q, fault) => (q, .stopped fault)
  | .long raw => (p.readLong rules raw).map fun (q, read) => (q, .token read)
  | .shorts raw => (p.readShorts rules raw).map fun (q, read) => (q, .tokens read)

end Pointer

namespace Cursor

def perform (c : Cursor) (rules : Conventions) : Operation → Cursor × Answer
  | .build arguments => (start arguments, .nothing)
  | .reset => (start [], .nothing)
  | .next => (c.advance, .argument c.peek)
  | .peek => (c, .argument c.peek)
  | .tokenize => ((c.tokenize rules).1, .stopped (c.tokenize rules).2)
  | .long raw => ((c.readLong rules raw).1, .token (c.readLong rules raw).2)
  | .shorts raw => ((c.readShorts rules raw).1, .tokens (c.readShorts rules raw).2)

/-- The cursor behind an argument, after what came of reading it. -/
def arrive (c : Cursor) : Except InputError Conventions.Step → Cursor × Option InputError
  | .error e => (c, some e)
  | .ok s =>
    (⟨c.past ++ s.taken c.ahead, s.following c.ahead, c.tokens ++ s.tokens, s.literal⟩, none)

theorem advance_eq (c : Cursor) :
    c.advance = { c with past := c.past ++ c.ahead.take 1, ahead := c.ahead.drop 1 } := by
  obtain ⟨past, ahead, tokens, literal⟩ := c
  cases ahead with
  | nil => simp [advance]
  | cons raw rest => rfl

/-- Behind an argument that is no plain one and not the marker. -/
theorem arrive_ok {c : Cursor} (hl : c.literal = false) (tokens : List Token) (took : Bool) :
    c.arrive (.ok ⟨tokens, took, false⟩) =
      ({ (if took then c.advance else c) with tokens := c.tokens ++ tokens }, none) := by
  cases took with
  | false => simp [arrive, Conventions.Step.taken, Conventions.Step.following, hl]
  | true => simp [arrive, Conventions.Step.taken, Conventions.Step.following, advance_eq, hl]

theorem settle_map {α β : Type} (c : Cursor) (f : α → β) (read : Except InputError (α × Bool)) :
    c.settle (read.map fun (x, took) => (f x, took)) =
      ((c.settle read).1, (c.settle read).2.map f) := by
  cases read with
  | error e => rfl
  | ok x =>
    obtain ⟨x, took⟩ := x
    cases took with
    | false => rfl
    | true => rfl

end Cursor

namespace Pointer

/-- The cursor at the place. -/
def cursor (p : Pointer) : Cursor :=
  ⟨p.arguments.take p.place, p.arguments.drop p.place, p.tokens, p.literal⟩

/-- The place is one between the arguments. -/
structure Inside (p : Pointer) : Prop where
  size_eq : p.size = p.arguments.length
  place_le : p.place ≤ p.size

/-- The pointer succeeds in what it does, stays inside and does what the cursor does. -/
def Tracks {α : Type} (done : Option (Pointer × α)) (c : Cursor × α) : Prop :=
  ∃ q, done = some (q, c.2) ∧ q.Inside ∧ q.cursor = c.1

section Tracking

variable {p : Pointer} (rules : Conventions) {α β : Type}

theorem Tracks.map {done : Option (Pointer × α)} {c : Cursor × α} (f : α → β) (h : Tracks done c) :
    Tracks (done.map fun (q, x) => (q, f x)) (c.1, f c.2) := by
  obtain ⟨q, rfl, hin, hc⟩ := h
  exact ⟨q, rfl, hin, hc⟩

theorem Inside.isDone_iff (h : p.Inside) : p.isDone = true ↔ p.cursor.ahead = [] := by
  have hsize := h.size_eq
  have hle := h.place_le
  rw [isDone, beq_iff_eq, cursor, List.drop_eq_nil_iff]
  omega

theorem Inside.position (h : p.Inside) : p.cursor.position = p.place := by
  have hsize := h.size_eq
  have hle := h.place_le
  rw [Cursor.position, cursor, List.length_take]
  omega

theorem cursor_arguments (p : Pointer) : p.cursor.arguments = p.arguments :=
  List.take_append_drop p.place p.arguments

/-- **Before the end the argument at the place is there.** -/
theorem Inside.fetch_eq (h : p.Inside) (hd : p.isDone = false) :
    ∃ raw ahead, p.cursor.ahead = raw :: ahead ∧
      p.arguments[p.place]? = some raw ∧ Inside { p with place := p.place + 1 } ∧
      cursor { p with place := p.place + 1 } = p.cursor.advance := by
  have hsize := h.size_eq
  have hle := h.place_le
  have hne : p.place ≠ p.size := by simpa [isDone] using hd
  have hlt : p.place < p.arguments.length := by omega
  have hahead : p.cursor.ahead = p.arguments[p.place] :: p.arguments.drop (p.place + 1) :=
    List.drop_eq_getElem_cons hlt
  have hnext : p.place + 1 ≤ p.size := by omega
  refine ⟨_, _, hahead, List.getElem?_eq_getElem hlt, ⟨hsize, hnext⟩, ?_⟩
  rw [Cursor.advance, hahead, cursor, List.take_succ_eq_append_getElem hlt]
  rfl

theorem peek_eq (h : p.Inside) : p.peek = some p.cursor.peek := by
  unfold peek
  cases hd : p.isDone with
  | true => rw [if_pos rfl, Cursor.peek, h.isDone_iff.mp hd, List.head?_nil]
  | false =>
    obtain ⟨raw, ahead, hahead, ht, -, -⟩ := h.fetch_eq hd
    rw [if_neg Bool.false_ne_true, ht, Cursor.peek, hahead]
    rfl

theorem next_tracks (h : p.Inside) : Tracks p.next (p.cursor.advance, p.cursor.peek) := by
  unfold next
  cases hd : p.isDone with
  | true =>
    have hahead := h.isDone_iff.mp hd
    refine ⟨p, ?_, h, ?_⟩
    · rw [if_pos rfl, Cursor.peek, hahead, List.head?_nil]
    · rw [Cursor.advance, hahead]
  | false =>
    obtain ⟨raw, ahead, hahead, ht, hin, hc⟩ := h.fetch_eq hd
    refine ⟨_, ?_, hin, hc⟩
    rw [if_neg Bool.false_ne_true, fetch, ht, Cursor.peek, hahead]
    rfl

theorem stays_tracks (h : p.Inside) (x : α) : Tracks (some (p, x)) (p.cursor, x) :=
  ⟨p, rfl, h, rfl⟩

theorem valueFor_tracks (h : p.Inside) (form raw : String) :
    Tracks (p.valueFor form raw)
      (p.cursor.settle
        ((Conventions.nextValue form raw p.cursor.peek).map fun v => (v, true))) := by
  unfold valueFor
  cases hd : p.isDone with
  | true =>
    rw [peek_eq h, Cursor.peek, h.isDone_iff.mp hd]
    exact stays_tracks h _
  | false =>
    obtain ⟨value, ahead, hahead, -, hin, hc⟩ := h.fetch_eq hd
    rw [peek_eq h, Cursor.peek, hahead, List.head?_cons, Option.map_some, Conventions.nextValue]
    dsimp only
    split
    · exact stays_tracks h _
    · exact ⟨_, rfl, hin, hc⟩

/-- What is made of what was read does not matter. -/
theorem tracks_settle_map {done : Option (Pointer × Except InputError α)} {c : Cursor}
    {read : Except InputError (α × Bool)} (f : α → β) (h : Tracks done (c.settle read)) :
    Tracks (done.map fun (q, x) => (q, x.map f))
      (c.settle (read >>= fun x => pure (f x.1, x.2))) := by
  have hmap := h.map (Except.map f)
  rw [← Cursor.settle_map] at hmap
  cases read with
  | error e => exact hmap
  | ok x => exact hmap

/-- An option that takes the next argument for its value. -/
theorem valued_tracks (h : p.Inside) (form raw : String) (f : String → α) :
    Tracks ((p.valueFor form raw).map fun (q, value) => (q, value.map f))
      (p.cursor.settle
        (Conventions.nextValue form raw p.cursor.peek >>= fun v => pure (f v, true))) := by
  have hmap := tracks_settle_map f (valueFor_tracks h form raw)
  cases hn : Conventions.nextValue form raw p.cursor.peek with
  | error e =>
    rw [hn] at hmap
    exact hmap
  | ok v =>
    rw [hn] at hmap
    exact hmap

theorem readLong_tracks (h : p.Inside) (raw : String) :
    Tracks (p.readLong rules raw) (p.cursor.readLong rules raw) := by
  unfold readLong Cursor.readLong Conventions.readLong
  cases Text.splitAt '=' raw.toList with
  | mk form inline =>
    dsimp only
    cases rules.resolveLong (String.ofList form) raw with
    | error e => exact stays_tracks h _
    | ok o =>
      dsimp only [bind, Except.bind]
      cases ht : o.takesValue with
      | false =>
        cases inline with
        | none => exact stays_tracks h _
        | some value => exact stays_tracks h _
      | true =>
        cases inline with
        | some value => exact stays_tracks h _
        | none => exact valued_tracks h _ raw _

theorem readLetters_tracks (h : p.Inside) (raw : String) (letters : List Char) :
    Tracks (p.readLetters rules raw letters)
      (p.cursor.settle (rules.readLetters raw p.cursor.peek letters)) := by
  induction letters with
  | nil => exact stays_tracks h _
  | cons letter rest ih =>
    unfold readLetters Conventions.readLetters
    dsimp only
    cases rules.resolveShort (String.ofList ['-', letter]) raw with
    | error e => exact stays_tracks h _
    | ok o =>
      dsimp only [bind, Except.bind]
      cases ht : o.takesValue with
      | false =>
        rw [if_neg Bool.false_ne_true, if_neg Bool.false_ne_true]
        exact tracks_settle_map _ ih
      | true =>
        rw [if_pos rfl, if_pos rfl]
        cases rest with
        | nil => exact valued_tracks h _ raw _
        | cons second rest => exact stays_tracks h _

theorem readShorts_tracks (h : p.Inside) (raw : String) :
    Tracks (p.readShorts rules raw) (p.cursor.readShorts rules raw) :=
  readLetters_tracks rules h raw _

/-- What is read of an argument is kept as the cursor keeps it. -/
theorem keep_tracks {done : Option (Pointer × Except InputError α)} {c : Cursor}
    {read : Except InputError (α × Bool)} (f : α → List Token) (hl : c.literal = false)
    (h : Tracks done (c.settle read)) :
    Tracks (done.map fun (q, x) => q.keep (x.map f))
      (c.arrive (read >>= fun x => pure ⟨f x.1, x.2, false⟩)) := by
  obtain ⟨q, rfl, hin, hc⟩ := h
  cases read with
  | error e => exact ⟨q, rfl, hin, hc⟩
  | ok x =>
    obtain ⟨x, took⟩ := x
    show Tracks _ (c.arrive (.ok ⟨f x, took, false⟩))
    rw [Cursor.arrive_ok hl]
    refine ⟨{ q with tokens := q.tokens ++ f x }, ?_, ⟨hin.size_eq, hin.place_le⟩, ?_⟩
    · cases took with
      | false => rfl
      | true => rfl
    · show { q.cursor with tokens := q.cursor.tokens ++ f x } = _
      rw [hc]
      cases took with
      | false => rfl
      | true => simp [Cursor.settle, Cursor.advance_eq]

theorem keep_plain_tracks (h : p.Inside) (tokens : List Token) (literal : Bool) :
    Tracks (some (keep { p with literal := literal } (.ok tokens)))
      (p.cursor.arrive (.ok ⟨tokens, false, literal⟩)) := by
  refine ⟨_, rfl, ⟨h.size_eq, h.place_le⟩, ?_⟩
  simp [cursor, Cursor.arrive, Conventions.Step.taken, Conventions.Step.following]

theorem read_tracks (h : p.Inside) (raw : String) :
    Tracks (p.read rules raw)
      (p.cursor.arrive (rules.step p.literal raw p.cursor.peek)) := by
  unfold read
  by_cases hl : p.literal = true
  · rw [if_pos hl, hl]
    -- literal mode is set again, which changes nothing
    have hsame : { p with literal := true } = p := by rw [← hl]
    have hplain := keep_plain_tracks h [.plain raw] true
    rwa [hsame] at hplain
  have hopen : p.literal = false := Bool.eq_false_iff.mpr hl
  rw [if_neg hl, hopen, Conventions.step_eq_ite]
  by_cases hmark : raw = "--"
  · rw [if_pos hmark, if_pos hmark]
    exact keep_plain_tracks h _ true
  rw [if_neg hmark, if_neg hmark]
  by_cases hlong : "--".toList.isPrefixOf raw.toList = true
  · rw [if_pos hlong, if_pos hlong]
    exact keep_tracks ([·]) hopen (readLong_tracks rules h raw)
  rw [if_neg hlong, if_neg hlong]
  by_cases hshort : "-".toList.isPrefixOf raw.toList = true ∧ raw ≠ "-"
  · rw [if_pos hshort, if_pos hshort]
    have hread := keep_tracks id hopen (readShorts_tracks rules h raw)
    simpa using hread
  · rw [if_neg hshort, if_neg hshort]
    exact keep_plain_tracks h _ rules.optionsFirst

/-- **A round does what the cursor does at the next argument.** -/
theorem iterate_tracks (h : p.Inside) (hd : p.isDone = false) :
    ∃ raw ahead, p.cursor.ahead = raw :: ahead ∧
      Tracks (p.iterate rules)
        (Cursor.arrive ⟨p.cursor.past ++ [raw], ahead, p.tokens, p.literal⟩
          (rules.step p.literal raw ahead.head?)) := by
  obtain ⟨raw, ahead, hahead, ht, hin, hc⟩ := h.fetch_eq hd
  refine ⟨raw, ahead, hahead, ?_⟩
  rw [Cursor.advance, hahead] at hc
  have hread := read_tracks rules hin raw
  rw [hc] at hread
  rw [iterate, fetch, ht]
  exact hread

theorem tokenize_tracks (h : p.Inside) : Tracks (p.tokenize rules) (p.cursor.tokenize rules) := by
  -- every round leaves fewer arguments ahead
  induction hn : p.arguments.length - p.place using Nat.strongRecOn generalizing p with
  | _ n ih =>
    cases hd : p.isDone with
    | true =>
      have hend := h.isDone_iff.mp hd
      have hc : p.cursor = { p.cursor with ahead := [] } := by rw [← hend]
      rw [tokenize, if_pos hd, Cursor.tokenize, hend]
      exact ⟨p, rfl, h, hc⟩
    | false =>
      obtain ⟨raw, ahead, hahead, q, hq, hin, hc⟩ := iterate_tracks rules h hd
      have hpass := iterate_passes hq
      have hplace := hpass.place
      have hlt := hpass.available
      have hless : q.arguments.length - q.place < n := by
        rw [hpass.arguments]
        omega
      have hliteral : p.cursor.literal = p.literal := rfl
      have htokens : p.cursor.tokens = p.tokens := rfl
      rw [Cursor.tokenize, hahead, hliteral, htokens, tokenize_eq hd hq]
      cases hs : rules.step p.literal raw ahead.head? with
      | error e =>
        rw [Cursor.readAll, hs]
        rw [hs] at hc
        exact ⟨q, rfl, hin, hc⟩
      | ok s =>
        have hmore := ih _ hless hin rfl
        rw [hs] at hc
        rw [Cursor.tokenize, hc] at hmore
        rw [Conventions.readAll_cons hs]
        simpa [Cursor.arrive, goOn] using hmore

/-- Without a fault the end is reached. -/
theorem tokenize_ends {rules : Conventions} {q : Pointer}
    (h : p.tokenize rules = some (q, none)) : q.isDone = true := by
  fun_induction tokenize p rules with
  | case1 p hd =>
    obtain ⟨rfl, -⟩ := Prod.mk.inj (Option.some.inj h)
    exact hd
  | case2 => exact nomatch h
  | case3 => exact nomatch h
  | case4 p _ q' _ ih => exact ih h

theorem perform_tracks (h : p.Inside) (op : Operation) :
    Tracks (p.perform rules op) (p.cursor.perform rules op) := by
  cases op with
  | build arguments =>
    refine ⟨_, rfl, ⟨rfl, Nat.zero_le _⟩, rfl⟩
  | reset => exact ⟨_, rfl, ⟨rfl, Nat.zero_le _⟩, rfl⟩
  | next => exact (next_tracks h).map _
  | peek =>
    rw [perform, peek_eq h]
    exact stays_tracks h _
  | tokenize => exact (tokenize_tracks rules h).map _
  | long raw => exact (readLong_tracks rules h raw).map _
  | shorts raw => exact (readShorts_tracks rules h raw).map _

end Tracking

/-- The pointer may be found after some operations, or between two rounds of one. -/
inductive Reached (rules : Conventions) : Pointer → Prop
  | fresh : Reached rules {}
  | perform {p q op answer} : Reached rules p → p.perform rules op = some (q, answer) →
      Reached rules q
  | iterate {p q fault} : Reached rules p → p.isDone = false →
      p.iterate rules = some (q, fault) → Reached rules q

variable {rules : Conventions} {p : Pointer}

theorem Reached.inside (h : Reached rules p) : p.Inside := by
  induction h with
  | fresh => exact ⟨rfl, Nat.zero_le 0⟩
  | @perform p q op answer _ hop ih =>
    obtain ⟨q', hq, hin, -⟩ := perform_tracks rules ih op
    obtain ⟨rfl, -⟩ := Prod.mk.inj (Option.some.inj (hop.symm.trans hq))
    exact hin
  | iterate _ hd hround ih =>
    obtain ⟨_, _, _, q', hq, hin, -⟩ := iterate_tracks rules ih hd
    obtain ⟨rfl, -⟩ := Prod.mk.inj (Option.some.inj (hround.symm.trans hq))
    exact hin

/-- **The place never leaves the arguments.** Whatever was done before, it lies between the first
argument and the end, and every operation succeeds and does what the cursor does. A round reads one
argument or two, and the rounds end where the arguments end unless there is a fault. An option or a
cluster read by itself takes one argument at most, and none if it is at fault. -/
theorem place_stays_inside (h : Reached rules p) :
    p.place ≤ p.size ∧ p.size = p.arguments.length ∧
    p.cursor.position = p.place ∧ p.cursor.arguments = p.arguments ∧
    (∀ op, ∃ q answer, p.perform rules op = some (q, answer) ∧
      p.cursor.perform rules op = (q.cursor, answer)) ∧
    (p.isDone = false → ∃ q fault, p.iterate rules = some (q, fault) ∧
      (q.place = p.place + 1 ∨ q.place = p.place + 2)) ∧
    (∀ q, p.tokenize rules = some (q, none) → q.place = q.size) ∧
    (∀ raw q token, p.readLong rules raw = some (q, token) →
      (q.place = p.place ∨ q.place = p.place + 1) ∧
        ∀ e, token = .error e → q.place = p.place) ∧
    (∀ raw q tokens, p.readShorts rules raw = some (q, tokens) →
      (q.place = p.place ∨ q.place = p.place + 1) ∧
        ∀ e, tokens = .error e → q.place = p.place) := by
  have hin := h.inside
  refine ⟨hin.place_le, hin.size_eq, hin.position, cursor_arguments p, fun op => ?_, fun hd => ?_,
    fun q hend => beq_iff_eq.mp (tokenize_ends hend),
    fun raw q token hread => (readLong_moves hread).place,
    fun raw q tokens hread => (readLetters_moves hread).place⟩
  · obtain ⟨q, hq, -, hc⟩ := perform_tracks rules hin op
    exact ⟨q, _, hq, by rw [hc]⟩
  · obtain ⟨_, _, _, q, hq, -, -⟩ := iterate_tracks rules hin hd
    exact ⟨q, _, hq, (iterate_passes hq).place⟩

/-- An option that has no value because the marker follows, then the marker. -/
theorem place_stays_inside_after_fault :
    ∃ (rules : Conventions) (p : Pointer), Reached rules p ∧
      p.arguments = ["--out", "--", "x"] ∧ p.place = 1 ∧ p.size = 3 ∧
      (∃ q fault, p.iterate rules = some (q, fault) ∧ (q.place = 2 ∨ q.place = 3)) ∧
      ∃ q, p.perform rules .next = some (q, .argument (some "--")) := by
  let rules : Conventions := { options := .ofList [{ long := some "--out", arity := 1 }] }
  have hbuild : perform {} rules (.build ["--out", "--", "x"]) =
      some (start ["--out", "--", "x"], .nothing) := rfl
  have hstart : Reached rules (start ["--out", "--", "x"]) := .perform .fresh hbuild
  obtain ⟨p, hp, -, hc⟩ := tokenize_tracks rules hstart.inside
  have hcursor : p.cursor = ⟨["--out"], ["--", "x"], [], false⟩ := hc
  have hread : perform (start ["--out", "--", "x"]) rules .tokenize =
      some (p, .stopped (some ⟨.valueMissing "--out", "--out"⟩)) := by
    rw [perform, hp]
    rfl
  have hreached : Reached rules p := .perform hstart hread
  obtain ⟨-, hsize, hplace, harguments, hperform, hround, -⟩ := place_stays_inside hreached
  rw [hcursor] at hplace harguments hperform
  have hone : p.place = 1 := hplace.symm
  have hthree : p.size = 3 := by rw [hsize, ← harguments]; rfl
  have hopen : p.isDone = false := by rw [isDone, hone, hthree]; rfl
  obtain ⟨q, answer, hq, hanswer⟩ := hperform .next
  obtain ⟨-, rfl⟩ := Prod.mk.inj hanswer
  rw [hone] at hround
  exact ⟨rules, p, hreached, harguments.symm, hone, hthree, hround hopen, q, hq⟩

end Pointer

end Synopsis
