import Mathlib.Data.List.Basic
import Synopsis.OptionTable

/-!
# Finding options in a table

A long form belongs to one option at most, since it is the canonical name of its option. A table
`Extends` another if the forms that named one option in the latter name the same one in the former.
A table is extended by an option that it does not hold, unless the new short form is the canonical
name of some option already: this is ruled out if long forms start with two dashes.
-/

namespace Synopsis

namespace Keyed

variable {α κ : Type} {key : α → κ} {p : α → Bool} {x : α} {l : List α}

theorem filter_eq_singleton (hn : (l.map key).Nodup) (hx : x ∈ l) (hp : p x = true)
    (hk : ∀ y ∈ l, p y = true → key y = key x) : l.filter p = [x] := by
  obtain ⟨before, after, rfl⟩ := List.append_of_mem hx
  rw [List.map_append, List.map_cons, List.nodup_append] at hn
  obtain ⟨-, hafter, hbefore⟩ := hn
  have hb : before.filter p = [] := by
    rw [List.filter_eq_nil_iff]
    intro y hy hpy
    exact hbefore _ (List.mem_map_of_mem hy) _ List.mem_cons_self
      (hk y (List.mem_append_left _ hy) hpy)
  have ha : after.filter p = [] := by
    rw [List.filter_eq_nil_iff]
    intro y hy hpy
    have hkey := hk y (List.mem_append_right _ (List.mem_cons_of_mem _ hy)) hpy
    exact (List.nodup_cons.mp hafter).1 (hkey ▸ List.mem_map_of_mem hy)
  rw [List.filter_append, List.filter_cons, if_pos hp, hb, ha, List.nil_append]

variable [DecidableEq κ]

theorem mem_put {y : α} (h : y ∈ put key x l) : y = x ∨ y ∈ l := by
  induction l with
  | nil => exact .inl (List.mem_singleton.mp h)
  | cons z zs ih =>
    unfold put at h
    split at h
    · rcases List.mem_cons.mp h with h | h
      · exact .inl h
      · exact .inr (List.mem_cons_of_mem z h)
    · rcases List.mem_cons.mp h with rfl | h
      · exact .inr List.mem_cons_self
      · rcases ih h with h | h
        · exact .inl h
        · exact .inr (List.mem_cons_of_mem z h)

theorem mem_putAll {xs : List α} {y : α} (h : y ∈ putAll key xs l) : y ∈ xs ∨ y ∈ l := by
  induction xs generalizing l with
  | nil => exact .inr h
  | cons x xs ih =>
    rcases ih h with h | h
    · exact .inl (List.mem_cons_of_mem x h)
    · rcases mem_put h with rfl | h
      · exact .inl List.mem_cons_self
      · exact .inr h

theorem filter_put_of_new (hp : p x = true) (hl : l.filter p = []) :
    (put key x l).filter p = [x] := by
  induction l with
  | nil => simp [put, hp]
  | cons y ys ih =>
    have hy : ¬ p y = true := fun h => by simp [h] at hl
    rw [List.filter_cons, if_neg hy] at hl
    unfold put
    split
    · rw [List.filter_cons, if_pos hp, hl]
    · rw [List.filter_cons, if_neg hy, ih hl]

/-- The entry that makes way for a new one is missed only by those who looked for it. -/
theorem filter_put_of_other (hp : p x = false) (hk : ∀ y ∈ l, key y = key x → p y = false) :
    (put key x l).filter p = l.filter p := by
  induction l with
  | nil => simp [put, hp]
  | cons y ys ih =>
    unfold put
    split
    · next hy => simp [hp, hk y List.mem_cons_self hy]
    · rw [List.filter_cons, List.filter_cons, ih fun z hz => hk z (List.mem_cons_of_mem y hz)]

end Keyed

namespace OptionDef

theorem long?_eq_some {o : OptionDef} {form : String} :
    o.long? = some form ↔ o.long = some form ∧ form ≠ "" := by
  simp [long?, Option.filter_eq_some_iff]

theorem short?_eq_some {o : OptionDef} {form : String} :
    o.short? = some form ↔ o.short = some form ∧ form ≠ "" := by
  simp [short?, Option.filter_eq_some_iff]

theorem name_of_long {o : OptionDef} {form : String} (h : o.long = some form) (hne : form ≠ "") :
    o.name = form := by
  simp [name, long?_eq_some.mpr ⟨h, hne⟩]

theorem name_of_short {o : OptionDef} {form : String} (hl : o.long? = none)
    (h : o.short = some form) (hne : form ≠ "") : o.name = form := by
  simp [name, hl, short?_eq_some.mpr ⟨h, hne⟩]

/-- The canonical name is the long form or, without one, any short form there is. -/
theorem long_or_short_of_name {o : OptionDef} {form other : String} (hn : o.name = form)
    (hs : o.short = some other) (hne : other ≠ "") : o.long = some form ∨ other = form := by
  cases hl : o.long? with
  | none => exact .inr ((name_of_short hl hs hne).symm.trans hn)
  | some long =>
    obtain ⟨hlong, hlne⟩ := long?_eq_some.mp hl
    rw [name_of_long hlong hlne] at hn
    exact .inl (hn ▸ hlong)

end OptionDef

namespace OptionTable

variable {t : OptionTable} {o : OptionDef} {form : String}

/-- **The form names the option**: in full, or by its start if no option has it in full. -/
def Resolves (t : OptionTable) (form : String) (o : OptionDef) : Prop :=
  t.byLong form = [o] ∨ t.byLong form = [] ∧ t.byStart form = [o]

theorem Resolves.unique {o' : OptionDef} (h : t.Resolves form o) (h' : t.Resolves form o') :
    o = o' := by
  rcases h with h | ⟨h, hs⟩ <;> rcases h' with h' | ⟨h', hs'⟩
  · rw [h] at h'
    exact (List.cons.inj h').1
  · rw [h] at h'
    exact nomatch h'
  · rw [h] at h'
    exact nomatch h'
  · rw [hs] at hs'
    exact (List.cons.inj hs').1

theorem mem_of_filter_eq {p : OptionDef → Bool} (h : t.options.filter p = [o]) :
    o ∈ t.options ∧ p o = true :=
  List.mem_filter.mp (h ▸ List.mem_singleton_self o)

theorem Resolves.mem (h : t.Resolves form o) : o ∈ t.options := by
  rcases h with h | ⟨_, h⟩
  · exact (mem_of_filter_eq h).1
  · exact (mem_of_filter_eq h).1

/-- **A long form belongs to one option.** -/
theorem byLong_eq_singleton (ho : o ∈ t.options) (hl : o.long = some form) (hne : form ≠ "") :
    t.byLong form = [o] := by
  refine Keyed.filter_eq_singleton t.distinct ho (by simp [hl]) fun y _ hy => ?_
  have hy' : y.long = some form := beq_iff_eq.mp hy
  rw [OptionDef.name_of_long hy' hne, OptionDef.name_of_long hl hne]

theorem byLong_eq_nil (h : t.byLong form = []) (ho : o ∈ t.options) : o.long ≠ some form := by
  intro hl
  exact List.filter_eq_nil_iff.mp h o ho (beq_iff_eq.mpr hl)

theorem byLong_insert (hl : o.long = some form) (h : t.byLong form = []) :
    (t.insert o).byLong form = [o] :=
  Keyed.filter_put_of_new (beq_iff_eq.mpr hl) h

theorem byShort_insert (hs : o.short = some form) (h : t.byShort form = []) :
    (t.insert o).byShort form = [o] :=
  Keyed.filter_put_of_new (beq_iff_eq.mpr hs) h

/-- The forms that name one option in `t` name the same one in `t'`. -/
structure Extends (t t' : OptionTable) : Prop where
  long : ∀ form o, form ≠ "" → t.byLong form = [o] → t'.byLong form = [o]
  short : ∀ letter o, letter ≠ '-' → t.byShort (String.ofList ['-', letter]) = [o] →
    t'.byShort (String.ofList ['-', letter]) = [o]

theorem Extends.refl (t : OptionTable) : Extends t t :=
  ⟨fun _ _ _ h => h, fun _ _ _ h => h⟩

theorem Extends.trans {t' t'' : OptionTable} (h : Extends t t') (h' : Extends t' t'') :
    Extends t t'' :=
  ⟨fun form o hne hf => h'.long form o hne (h.long form o hne hf),
    fun letter o hl hs => h'.short letter o hl (h.short letter o hl hs)⟩

/-- A long form, if there is one, starts with two dashes. -/
def IsDashed (long : Option String) : Prop :=
  ∀ form, long = some form → ∃ rest, form.toList = '-' :: '-' :: rest

def LongFormsDashed (t : OptionTable) : Prop :=
  ∀ o ∈ t.options, IsDashed o.long

theorem LongFormsDashed.insert (h : t.LongFormsDashed) (ho : IsDashed o.long) :
    (t.insert o).LongFormsDashed := by
  intro y hy
  rcases Keyed.mem_put hy with rfl | hy
  · exact ho
  · exact h y hy

theorem longFormsDashed_ofList {os : List OptionDef} (h : ∀ o ∈ os, IsDashed o.long) :
    (ofList os).LongFormsDashed := by
  intro o ho
  rcases Keyed.mem_putAll ho with ho | ho
  · exact h o ho
  · exact nomatch ho

theorem ofList_ne_empty {c : Char} {s : List Char} : String.ofList (c :: s) ≠ "" := by
  simp

theorem extends_insert_long {rest : List Char} (hf : form.toList = '-' :: '-' :: rest)
    (hl : o.long = some form) (hs : o.short = none) (h : t.byLong form = []) :
    Extends t (t.insert o) := by
  have hne : form ≠ "" := by
    rintro rfl
    exact nomatch hf
  have hname := OptionDef.name_of_long hl hne
  -- the entry that makes way is named by the new form, so it was not found by any other form
  constructor
  · intro other x hone hx
    have hother : form ≠ other := by
      rintro rfl
      rw [h] at hx
      exact nomatch hx
    refine (Keyed.filter_put_of_other ?_ ?_).trans hx
    · simp [hl, hother]
    · intro y _ hkey
      rw [hname] at hkey
      refine beq_false_of_ne fun hy => hother ?_
      rw [← hkey, OptionDef.name_of_long hy hone]
  · intro letter x hletter hx
    refine (Keyed.filter_put_of_other ?_ ?_).trans hx
    · simp [hs]
    · intro y hy hkey
      rw [hname] at hkey
      refine beq_false_of_ne fun hys => ?_
      rcases OptionDef.long_or_short_of_name hkey hys ofList_ne_empty with hyl | hform
      · exact byLong_eq_nil h hy hyl
      · rw [← hform, String.toList_ofList] at hf
        exact hletter (List.cons.inj (List.cons.inj hf).2).1

theorem extends_insert_short {letter : Char} (ht : t.LongFormsDashed) (hletter : letter ≠ '-')
    (hl : o.long = none) (hs : o.short = some (String.ofList ['-', letter]))
    (h : t.byShort (String.ofList ['-', letter]) = []) : Extends t (t.insert o) := by
  have hname : o.name = String.ofList ['-', letter] :=
    OptionDef.name_of_short (by simp [OptionDef.long?, hl]) hs ofList_ne_empty
  -- an entry may be named by its long form, but that starts with two dashes
  have hlong : ∀ y ∈ t.options, y.long ≠ some (String.ofList ['-', letter]) := by
    intro y hy hyl
    obtain ⟨rest, hrest⟩ := ht y hy _ hyl
    rw [String.toList_ofList] at hrest
    exact hletter (List.cons.inj (List.cons.inj hrest).2).1
  constructor
  · intro other x hone hx
    refine (Keyed.filter_put_of_other ?_ ?_).trans hx
    · simp [hl]
    · intro y hy hkey
      refine beq_false_of_ne fun hyl => hlong y hy ?_
      rw [← hname, ← hkey, OptionDef.name_of_long hyl hone]
      exact hyl
  · intro other x _ hx
    have hother : String.ofList ['-', letter] ≠ String.ofList ['-', other] := by
      intro heq
      rw [← heq, h] at hx
      exact nomatch hx
    refine (Keyed.filter_put_of_other ?_ ?_).trans hx
    · rw [hs]
      exact beq_false_of_ne fun heq => hother (Option.some.inj heq)
    · intro y hy hkey
      rw [hname] at hkey
      refine beq_false_of_ne fun hys => ?_
      rcases OptionDef.long_or_short_of_name hkey hys ofList_ne_empty with hyl | heq
      · exact hlong y hy hyl
      · exact hother heq.symm

end OptionTable

end Synopsis
