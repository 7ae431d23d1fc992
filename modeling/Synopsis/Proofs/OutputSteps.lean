import Synopsis.Output
import Synopsis.Proofs.Reduction

/-!
# Steps of an output

An output goes through steps: texts are sent, handlers set, captures opened and closed, by a release
or after a failure. `heard` lists what is known of the texts sent in a run that the captures of a
program take. A step adds what is heard to the entries kept for a program, unless it releases a
capture of the program.
-/

namespace Synopsis

/-- Entries after several updates. -/
def Entries.updateAll (entries : Entries) (added : List Entries) : Entries :=
  added.foldl Entries.update entries

namespace Entries

theorem put_ne_nil (x : String × Value) (entries : Entries) :
    Keyed.put Prod.fst x entries ≠ [] := by
  cases entries with
  | nil => exact List.cons_ne_nil _ _
  | cons y ys =>
    rw [Keyed.put]
    split <;> exact List.cons_ne_nil _ _

/-- Updates only add. -/
theorem update_eq_nil {entries added : Entries} :
    entries.update added = [] ↔ entries = [] ∧ added = [] := by
  constructor
  · intro h
    induction added generalizing entries with
    | nil => exact ⟨h, rfl⟩
    | cons x xs ih => exact absurd (ih h).1 (put_ne_nil x entries)
  · rintro ⟨rfl, rfl⟩
    rfl

theorem updateAll_eq_nil {entries : Entries} {added : List Entries} (h : ∀ e ∈ added, e ≠ []) :
    entries.updateAll added = [] ↔ entries = [] ∧ added = [] := by
  constructor
  · intro hnil
    induction added generalizing entries with
    | nil => exact ⟨hnil, rfl⟩
    | cons e rest ih =>
      have hrest := ih (fun x hx => h x (List.mem_cons_of_mem e hx)) hnil
      exact absurd (update_eq_nil.mp hrest.1).2 (h e List.mem_cons_self)
  · rintro ⟨rfl, rfl⟩
    rfl

end Entries

/-- What a handler tells of a text is never nothing. -/
theorem Handler.deliver_ne_nil (h : Handler) (text : String) : (h.deliver text).2 ≠ [] := by
  cases h with
  | print => exact List.cons_ne_nil _ _
  | custom tag reply =>
    show (if (reply text).isEmpty then [("output", Value.text text)] else reply text) ≠ []
    by_cases hr : (reply text).isEmpty = true
    · rw [if_pos hr]
      exact List.cons_ne_nil _ _
    · rw [if_neg hr]
      exact fun hnil => hr (List.isEmpty_iff.mpr hnil)

namespace Output

/-- What is done with an output. -/
inductive Step where
  | send (text : String) (program : Option String)
  | setHandler (h : Handler) (program : Option String)
  | capture (program : Option String)
  /-- The innermost capture is closed. -/
  | release
  /-- A failure closes the innermost capture. -/
  | abandon

/-- The output after a step. There is nothing to close without an open capture. -/
def step (o : Output) : Step → Output
  | .send text program => (o.send text program).1
  | .setHandler h program => o.setHandler h program
  | .capture program => o.capture program
  | .release => (o.release?.map Prod.fst).getD o
  | .abandon => (o.abandon?.map Prod.fst).getD o

/-- The output after some steps. -/
def run (o : Output) (steps : List Step) : Output :=
  steps.foldl step o

/-- What is known of a text sent in a step, if the captures of a key take it. -/
def reply? (k : String) (o : Output) : Step → Option Entries
  | .send text program =>
    if k = key program ∨ k = everyone then some (o.send text program).2 else none
  | _ => none

/-- **What is known of the texts sent in a run** that the captures of a key take, the earlier ones
first. -/
def heard (k : String) (o : Output) : List Step → List Entries
  | [] => []
  | s :: rest => (o.reply? k s).toList ++ heard k (o.step s) rest

/-- A capture of the key is opened in a run. -/
def Captures (k : String) (steps : List Step) : Prop :=
  ∃ program, .capture program ∈ steps ∧ key program = k

/-- Entries are kept for the key. -/
def Keeps (o : Output) (k : String) : Prop :=
  k ∈ o.captured.map Prod.fst

/-- Entries are kept for every open capture. -/
def Anchored (o : Output) : Prop :=
  ∀ k ∈ o.opened, o.Keeps k

variable {o : Output} {k : String} {s : Step} {steps : List Step}

theorem run_append (o : Output) (before after : List Step) :
    o.run (before ++ after) = (o.run before).run after :=
  List.foldl_append

theorem run_split (o : Output) (before : List Step) (s : Step) (after : List Step) :
    o.run (before ++ s :: after) = ((o.run before).step s).run after :=
  List.foldl_append

theorem heard_ne_nil : ∀ e ∈ heard k o steps, e ≠ [] := by
  induction steps generalizing o with
  | nil => exact fun e he => nomatch he
  | cons s rest ih =>
    intro e he
    rcases List.mem_append.mp he with he | he
    · rw [Option.mem_toList] at he
      cases s with
      | send text program =>
        obtain ⟨-, hreply⟩ := Option.ite_none_right_eq_some.mp he
        rw [← Option.some.inj hreply]
        exact (o.handler (key program)).deliver_ne_nil text
      | _ => exact nomatch he
    · exact ih e he

section OneStep

theorem setHandler_eq (o : Output) (h : Handler) (program : Option String) :
    ∃ handlers fallback, o.setHandler h program = { o with handlers, fallback } := by
  cases program with
  | none => exact ⟨_, _, rfl⟩
  | some name =>
    rw [setHandler]
    split <;> exact ⟨_, _, rfl⟩

theorem entries_eq_nil_of_not_keeps (h : ¬ o.Keeps k) : o.entries k = [] := by
  have hnone : Keyed.get? Prod.fst k o.captured = none :=
    Keyed.get?_eq_none.mpr fun x hx hxk => h (List.mem_map.mpr ⟨x, hx, hxk⟩)
  rw [entries, hnone]
  rfl

theorem entries_put (o : Output) (name : String) (kept : Entries) (opened : List String) :
    ({ o with captured := Keyed.put Prod.fst (name, kept) o.captured, opened } : Output).entries k =
      if name = k then kept else o.entries k := by
  rw [entries, Keyed.get?_put]
  by_cases hk : name = k
  · rw [if_pos hk, if_pos hk]
    rfl
  · rw [if_neg hk, if_neg hk]
    rfl

theorem keeps_put {name : String} {kept : Entries} {captured : List (String × Entries)} :
    k ∈ (Keyed.put Prod.fst (name, kept) captured).map Prod.fst ↔
      name = k ∨ k ∈ captured.map Prod.fst := by
  rw [Keyed.map_put]
  by_cases hname : name ∈ captured.map Prod.fst
  · rw [if_pos hname]
    exact ⟨.inr, fun h => h.elim (fun heq => heq ▸ hname) id⟩
  · rw [if_neg hname, List.mem_append, List.mem_singleton, or_comm, eq_comm]

/-- A capture starts with what is kept for its program. -/
theorem entries_capture (o : Output) (program : Option String) :
    (o.capture program).entries k = o.entries k := by
  rw [capture, entries_put]
  by_cases hk : key program = k
  · rw [if_pos hk, hk]
  · rw [if_neg hk]

theorem entries_release (h : o.opened.head? = some k) : (o.step .release).entries k = [] := by
  obtain ⟨outer, ho⟩ := List.head?_eq_some_iff.mp h
  rw [step, release?, ho]
  show ({ o with captured := _, opened := outer } : Output).entries k = []
  rw [entries_put, if_pos rfl]

theorem entries_send (o : Output) (text : String) (program : Option String) (h : o.Keeps k) :
    (o.send text program).1.entries k =
      (o.entries k).updateAll (o.reply? k (.send text program)).toList := by
  obtain ⟨x, hx⟩ : ∃ x, Keyed.get? Prod.fst k o.captured = some x := by
    obtain ⟨x, hx, hxk⟩ := List.mem_map.mp h
    exact Option.isSome_iff_exists.mp (List.find?_isSome.mpr ⟨x, hx, decide_eq_true hxk⟩)
  have hk := (Keyed.mem_of_get? hx).2
  let added := (o.send text program).2
  have hget : Keyed.get? Prod.fst k (o.send text program).1.captured =
      some (x.1, if x.1 = key program ∨ x.1 = everyone then Entries.update x.2 added else x.2) := by
    show Keyed.get? Prod.fst k (o.captured.map fun y =>
      (y.1, if y.1 = key program ∨ y.1 = everyone then Entries.update y.2 added else y.2)) = _
    rw [Keyed.get?_map_entries, hx]
    rfl
  rw [entries, entries, hget, hx, hk, reply?]
  by_cases htakes : k = key program ∨ k = everyone
  · rw [if_pos htakes]
    simp only [if_pos htakes]
    rfl
  · rw [if_neg htakes]
    simp only [if_neg htakes]
    rfl

/-- **What a step does to the entries kept for a program**: they take what is heard, unless a
capture of the program is released. -/
theorem entries_step (hkeeps : o.Keeps k) (h : s = .release → o.opened.head? ≠ some k) :
    (o.step s).entries k = (o.entries k).updateAll (o.reply? k s).toList := by
  cases s with
  | send text program => exact entries_send o text program hkeeps
  | setHandler handler program =>
    obtain ⟨handlers, fallback, hset⟩ := setHandler_eq o handler program
    rw [step, hset]
    rfl
  | capture program => exact entries_capture o program
  | release =>
    rw [step, release?]
    cases ho : o.opened with
    | nil => rfl
    | cons name outer =>
      have hname : ¬ name = k := fun heq => h rfl (by rw [ho, heq, List.head?_cons])
      show ({ o with captured := _, opened := outer } : Output).entries k = _
      rw [entries_put, if_neg hname]
      rfl
  | abandon =>
    rw [step, abandon?]
    cases o.opened <;> rfl

/-- A step opens no capture but that of its own program. -/
theorem opened_step (h : k ∈ (o.step s).opened) : Captures k [s] ∨ k ∈ o.opened := by
  cases s with
  | send text program => exact .inr h
  | setHandler handler program =>
    obtain ⟨handlers, fallback, hset⟩ := setHandler_eq o handler program
    rw [step, hset] at h
    exact .inr h
  | capture program =>
    rcases List.mem_cons.mp h with rfl | h
    · exact .inl ⟨program, List.mem_singleton_self _, rfl⟩
    · exact .inr h
  | release =>
    rw [step, release?] at h
    cases ho : o.opened with
    | nil => simp [ho] at h
    | cons name outer =>
      simp only [ho] at h
      exact .inr (List.mem_cons_of_mem name h)
  | abandon =>
    rw [step, abandon?] at h
    cases ho : o.opened with
    | nil => simp [ho] at h
    | cons name outer =>
      simp only [ho] at h
      exact .inr (List.mem_cons_of_mem name h)

/-- Entries go on being kept, and opening a capture makes sure that those of its program are. -/
theorem keeps_step (ho : o.Anchored) : (o.step s).Keeps k ↔ Captures k [s] ∨ o.Keeps k := by
  cases s with
  | send text program =>
    have hkeys : (o.send text program).1.captured.map Prod.fst = o.captured.map Prod.fst := by
      show (record _ _ o.captured).map Prod.fst = _
      rw [record.eq_1, List.map_map]
      rfl
    simp [step, Keeps, hkeys, Captures]
  | setHandler handler program =>
    obtain ⟨handlers, fallback, hset⟩ := setHandler_eq o handler program
    simp [step, hset, Keeps, Captures]
  | capture program =>
    have hput : (o.capture program).Keeps k ↔ key program = k ∨ o.Keeps k := keeps_put
    simp [step, hput, Captures]
  | release =>
    rw [step, release?]
    cases hopened : o.opened with
    | nil => simp [Captures]
    | cons name outer =>
      have hname : o.Keeps name := ho name (by simp [hopened])
      have hput : Keeps { o with
          captured := Keyed.put Prod.fst (name, []) o.captured, opened := outer } k ↔
          name = k ∨ o.Keeps k := keeps_put
      have hiff : name = k ∨ o.Keeps k ↔ o.Keeps k := or_iff_right_of_imp fun heq => heq ▸ hname
      simp [hput, hiff, Captures]
  | abandon =>
    rw [step, abandon?]
    cases o.opened <;> simp [Captures, Keeps]

theorem Anchored.step (h : o.Anchored) (s : Step) : (o.step s).Anchored := by
  intro k hk
  exact (keeps_step h).mpr ((opened_step hk).imp_right (h k))

end OneStep

theorem keeps_run (h : o.Anchored) :
    (o.run steps).Keeps k ↔ Captures k steps ∨ o.Keeps k := by
  induction steps generalizing o with
  | nil => simp [run, Captures]
  | cons s rest ih =>
    have hcaptures : Captures k (s :: rest) ↔ Captures k rest ∨ Captures k [s] := by
      simp [Captures, or_and_right, exists_or, or_comm]
    show ((o.step s).run rest).Keeps k ↔ _
    rw [ih (h.step s), keeps_step h, hcaptures, or_assoc]

theorem anchored_run (h : o.Anchored) (steps : List Step) : (o.run steps).Anchored := by
  induction steps generalizing o with
  | nil => exact h
  | cons s rest ih => exact ih (h.step s)

end Output

end Synopsis
