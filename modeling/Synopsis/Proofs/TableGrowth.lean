import Mathlib.Data.List.Basic
import Mathlib.Data.List.Induction
import Synopsis.Proofs.Lookup

/-!
# What a table holds after it has grown

A table of definitions holds the last one of each name, in the order in which the names first came
up, and adding definitions in two goes or at once makes no difference. `Dictionaries` are tables as
objects that are filled in place, one assignment after the other: a table that grows is built anew,
from the definitions that it holds and the new ones, and the tables from before stay as they are.
-/

namespace Synopsis

namespace Keyed

variable {α β κ : Type} [DecidableEq κ] {key : α → κ}

theorem put_of_not_mem {x : α} {l : List α} (h : key x ∉ l.map key) : put key x l = l ++ [x] := by
  induction l with
  | nil => rfl
  | cons y ys ih =>
    rw [List.map_cons, List.mem_cons, not_or] at h
    rw [put, if_neg fun hy => h.1 hy.symm, ih h.2, List.cons_append]

theorem putAll_append (xs ys l : List α) :
    putAll key (xs ++ ys) l = putAll key ys (putAll key xs l) :=
  List.foldl_append

theorem putAll_concat (xs : List α) (x : α) (l : List α) :
    putAll key (xs ++ [x]) l = put key x (putAll key xs l) :=
  putAll_append xs [x] l

/-- Entries with distinct keys, put one after the other, are all kept. -/
theorem putAll_of_nodup {l : List α} (h : (l.map key).Nodup) : putAll key l [] = l := by
  induction l using List.reverseRecOn with
  | nil => rfl
  | append_singleton l x ih =>
    rw [List.map_append, List.nodup_append] at h
    obtain ⟨hl, -, hx⟩ := h
    have hnew : key x ∉ l.map key := fun hmem => hx _ hmem _ List.mem_cons_self rfl
    rw [putAll_concat, ih hl, put_of_not_mem hnew]

/-- **The keys stand in the order in which they first came up.** -/
theorem map_putAll (xs : List α) : (putAll key xs []).map key = (xs.map key).eraseDups := by
  induction xs using List.reverseRecOn with
  | nil => rfl
  | append_singleton xs x ih =>
    rw [putAll_concat, map_put, ih, List.map_append, List.eraseDups_append]
    -- a key that came up before keeps its place, a new one goes to the end
    by_cases hx : key x ∈ xs.map key
    · have hnone : [key x].removeAll (xs.map key) = [] := by
        simp [List.removeAll, hx, -List.mem_map]
      rw [if_pos (List.mem_eraseDups.mpr hx), List.map_singleton, hnone, List.eraseDups_nil,
        List.append_nil]
    · have hone : [key x].removeAll (xs.map key) = [key x] := by
        simp [List.removeAll, hx, -List.mem_map]
      rw [if_neg (fun h => hx (List.mem_eraseDups.mp h)), List.map_singleton, hone]
      rfl

/-- **A key holds the last entry that has it.** -/
theorem get?_putAll (k : κ) (xs : List α) :
    get? key k (putAll key xs []) = (xs.filter (key · = k)).getLast? := by
  induction xs using List.reverseRecOn with
  | nil => rfl
  | append_singleton xs x ih =>
    rw [putAll_concat, get?_put, ih, List.filter_append]
    by_cases hx : key x = k
    · simp [hx]
    · simp [hx]

theorem put_map {f : α → β} {key' : β → κ} (hf : ∀ x, key' (f x) = key x) (x : α) (l : List α) :
    put key' (f x) (l.map f) = (put key x l).map f := by
  induction l with
  | nil => rfl
  | cons y ys ih =>
    rw [List.map_cons, put, put, hf, hf, ih]
    split
    · rfl
    · rfl

theorem putAll_map {f : α → β} {key' : β → κ} (hf : ∀ x, key' (f x) = key x) (xs l : List α) :
    putAll key' (xs.map f) (l.map f) = (putAll key xs l).map f := by
  induction xs generalizing l with
  | nil => rfl
  | cons x xs ih =>
    show putAll key' (xs.map f) (put key' (f x) (l.map f)) = _
    rw [put_map hf]
    exact ih _

end Keyed

/-- Options under their keys, in the order in which the keys came up. -/
abbrev Dictionary := List (String × OptionDef)

/-- All dictionaries so far, each at its place. -/
abbrev Dictionaries := List Dictionary

namespace Dictionaries

variable (s : Dictionaries)

/-- Stores an option under its canonical name. -/
def assign (place : Nat) (o : OptionDef) : Dictionaries :=
  s.modify place (Keyed.put Prod.fst (o.name, o))

def assignAll (place : Nat) (os : List OptionDef) : Dictionaries :=
  os.foldl (fun s o => assign s place o) s

/-- Makes a dictionary, at the next place, and fills it. -/
def make (os : List OptionDef) : Dictionaries :=
  assignAll (s ++ [[]]) s.length os

/-- The options of a dictionary. -/
def valuesAt (place : Nat) : List OptionDef :=
  (s[place]?.getD []).map Prod.snd

/-- Makes a dictionary of the options of another one and more options. -/
def extend (place : Nat) (os : List OptionDef) : Dictionaries :=
  s.make (s.valuesAt place ++ os)

end Dictionaries

namespace OptionTable

/-- A table as a dictionary. -/
def dictionary (t : OptionTable) : Dictionary :=
  t.options.map fun o => (o.name, o)

theorem ext_options {t' : OptionTable} (h : t.options = t'.options) : t = t' := by
  cases t
  cases t'
  cases h
  rfl

theorem insertAll_insertAll (t : OptionTable) (xs ys : List OptionDef) :
    (t.insertAll xs).insertAll ys = t.insertAll (xs ++ ys) :=
  ext_options (Keyed.putAll_append xs ys t.options).symm

/-- **A table that grows may as well be built anew** from what it holds and what is added. -/
theorem ofList_append_options (t : OptionTable) (os : List OptionDef) :
    ofList (t.options ++ os) = t.insertAll os := by
  refine ext_options ?_
  show Keyed.putAll OptionDef.name (t.options ++ os) [] = Keyed.putAll OptionDef.name os t.options
  rw [Keyed.putAll_append, Keyed.putAll_of_nodup t.distinct]

theorem insertAll_ofList (xs ys : List OptionDef) :
    (ofList xs).insertAll ys = ofList (xs ++ ys) :=
  insertAll_insertAll empty xs ys

/-- The names come in the order in which they first came up. -/
theorem names_ofList (xs : List OptionDef) :
    (ofList xs).names = (xs.map OptionDef.name).eraseDups :=
  Keyed.map_putAll xs

/-- A name stands for its last definition. -/
theorem get?_ofList (name : String) (xs : List OptionDef) :
    (ofList xs).get? name = (xs.filter (·.name = name)).getLast? :=
  Keyed.get?_putAll name xs

end OptionTable

namespace Dictionaries

variable (s : Dictionaries)

theorem assign_last (d : Dictionary) (o : OptionDef) :
    assign (s ++ [d]) s.length o = s ++ [Keyed.put Prod.fst (o.name, o) d] := by
  rw [assign, List.modify_eq_take_cons_drop (by simp)]
  simp

/-- Only the dictionary made last is filled. -/
theorem assignAll_last (d : Dictionary) (os : List OptionDef) :
    assignAll (s ++ [d]) s.length os =
      s ++ [Keyed.putAll Prod.fst (os.map fun o => (o.name, o)) d] := by
  induction os generalizing d with
  | nil => rfl
  | cons o os ih =>
    show assignAll (assign (s ++ [d]) s.length o) s.length os = _
    rw [assign_last, ih]
    rfl

/-- **A dictionary is made of options as a table is**, and no other dictionary changes. -/
theorem make_eq (os : List OptionDef) : s.make os = s ++ [(OptionTable.ofList os).dictionary] := by
  rw [make, assignAll_last]
  have hmap : Keyed.putAll Prod.fst (os.map fun o => (o.name, o)) [] =
      (Keyed.putAll OptionDef.name os []).map fun o => (o.name, o) :=
    Keyed.putAll_map (fun _ => rfl) os []
  rw [hmap]
  rfl

variable {s}

theorem valuesAt_eq {place : Nat} {t : OptionTable} (h : s[place]? = some t.dictionary) :
    s.valuesAt place = t.options := by
  rw [valuesAt, h, Option.getD_some, OptionTable.dictionary, List.map_map]
  exact List.map_id t.options

/-- **A dictionary is extended as a table is**, into a new one. -/
theorem extend_eq {place : Nat} {t : OptionTable} (h : s[place]? = some t.dictionary)
    (os : List OptionDef) : s.extend place os = s ++ [(t.insertAll os).dictionary] := by
  rw [extend, valuesAt_eq h, make_eq, OptionTable.ofList_append_options]

end Dictionaries

namespace OptionTable

/-- The options found are those of the table that meet the condition, in the order of the table. -/
structure Lists (t : OptionTable) (condition : OptionDef → Prop) (found : List OptionDef) :
    Prop where
  ordered : found.Sublist t.options
  mem_iff : ∀ o, o ∈ found ↔ o ∈ t.options ∧ condition o

/-- **What the look-ups of a table rely on.** -/
structure Searchable (t : OptionTable) : Prop where
  /-- Each option is stored under its own canonical name. -/
  stored : ∀ o ∈ t.options, t.get? o.name = some o
  longUnique : ∀ form, form ≠ "" → (t.byLong form).length ≤ 1
  startOfItself : ∀ o ∈ t.options, ∀ form, o.long = some form → form ≠ "" → o ∈ t.byStart form
  short : ∀ form, t.Lists (·.short = some form) (t.byShort form)
  long : ∀ form, t.Lists (·.long = some form) (t.byLong form)
  start : ∀ first, t.Lists
    (fun o => ∃ form, o.long = some form ∧ form ≠ "" ∧ first.toList <+: form.toList)
    (t.byStart first)
  form : ∀ form, t.Lists
    (fun o => if "--".toList <+: form.toList then o.long = some form else o.short = some form)
    (t.lookup form)

variable (t : OptionTable)

theorem lists_filter {condition : OptionDef → Prop} {p : OptionDef → Bool}
    (h : ∀ o, p o = true ↔ condition o) : t.Lists condition (t.options.filter p) :=
  ⟨List.filter_sublist, fun o => List.mem_filter.trans (and_congr_right fun _ => h o)⟩

theorem lists_byShort (form : String) : t.Lists (·.short = some form) (t.byShort form) :=
  t.lists_filter fun _ => beq_iff_eq

theorem lists_byLong (form : String) : t.Lists (·.long = some form) (t.byLong form) :=
  t.lists_filter fun _ => beq_iff_eq

theorem lists_byStart (first : String) : t.Lists
    (fun o => ∃ form, o.long = some form ∧ form ≠ "" ∧ first.toList <+: form.toList)
    (t.byStart first) := by
  refine t.lists_filter fun o => ?_
  rw [Option.any_eq_true]
  refine exists_congr fun form => ?_
  rw [OptionDef.long?_eq_some, List.isPrefixOf_iff_prefix, and_assoc]

theorem lists_lookup (form : String) : t.Lists
    (fun o => if "--".toList <+: form.toList then o.long = some form else o.short = some form)
    (t.lookup form) := by
  unfold lookup
  by_cases h : "--".toList <+: form.toList
  · simp only [h, if_true, List.isPrefixOf_iff_prefix]
    exact t.lists_byLong form
  · simp only [h, if_false, List.isPrefixOf_iff_prefix]
    exact t.lists_byShort form

theorem length_byLong_le {form : String} (hne : form ≠ "") : (t.byLong form).length ≤ 1 := by
  cases hl : t.byLong form with
  | nil => exact Nat.zero_le 1
  | cons o os =>
    have ho : o ∈ t.byLong form := hl ▸ List.mem_cons_self
    obtain ⟨hmem, hlong⟩ := ((t.lists_byLong form).mem_iff o).mp ho
    rw [← hl, byLong_eq_singleton hmem hlong hne]
    exact Nat.le_refl 1

theorem searchable : t.Searchable where
  stored _ ho := Keyed.get?_eq_some t.distinct ho
  longUnique _ hne := t.length_byLong_le hne
  startOfItself o ho form hl hne :=
    ((t.lists_byStart form).mem_iff o).mpr ⟨ho, form, hl, hne, List.prefix_refl _⟩
  short := t.lists_byShort
  long := t.lists_byLong
  start := t.lists_byStart
  form := t.lists_lookup

/-- **A table keeps its shape as it grows.** It holds the last definition of each name, in the order
in which the names first came up; growing twice is like growing once and leaves every table from
before as it was; and its options are found in table order, a long form naming one at most. -/
theorem ofList_grows (s : Dictionaries) (xs ys zs : List OptionDef) :
    (ofList xs).names = (xs.map OptionDef.name).eraseDups ∧
    (∀ name, (ofList xs).get? name = (xs.filter (·.name = name)).getLast?) ∧
    ((ofList xs).insertAll ys).insertAll zs = ofList (xs ++ ys ++ zs) ∧
    ((s.make xs).extend s.length ys).extend (s.length + 1) zs =
      s ++ [(ofList xs).dictionary, (ofList (xs ++ ys)).dictionary,
        (ofList (xs ++ ys ++ zs)).dictionary] ∧
    (ofList (xs ++ ys ++ zs)).Searchable := by
  refine ⟨names_ofList xs, fun name => get?_ofList name xs, ?_, ?_, searchable _⟩
  · rw [insertAll_ofList, insertAll_ofList]
  · have hfirst : (s ++ [(ofList xs).dictionary])[s.length]? = some (ofList xs).dictionary := by
      simp
    have hsecond : (s ++ [(ofList xs).dictionary] ++
        [(ofList (xs ++ ys)).dictionary])[s.length + 1]? =
          some (ofList (xs ++ ys)).dictionary := by
      simp
    rw [Dictionaries.make_eq, Dictionaries.extend_eq hfirst, insertAll_ofList,
      Dictionaries.extend_eq hsecond, insertAll_ofList]
    simp

end OptionTable

end Synopsis
