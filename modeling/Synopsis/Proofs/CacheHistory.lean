import Mathlib.Data.List.Induction
import Synopsis.Proofs.CachedGrammars
import Synopsis.Recency

/-!
# What a cache holds after a run

A cache goes through steps: help texts are compiled, the cache is resized or cleared. What it should
hold by then is said by the steps alone: the help texts used since it was last cleared are those
that could be read, each once and the last used one first. The cache holds the first of these, and
it holds a text if at no moment since its last use as many others were used more recently as there
was room for.
-/

namespace Synopsis.GrammarCache

def Step.isClear : Step → Bool
  | .clear => true
  | _ => false

/-- The help text that a step compiles. -/
def Step.source? : Step → Option String
  | .compile source => some source
  | _ => none

/-- The size that a step gives the cache. Sizes below one are refused. -/
def Step.size? : Step → Option Nat
  | .resize size => if size < 1 then none else some size.toNat
  | _ => none

/-- The steps since the cache was last cleared, the latest one first. -/
def sinceCleared (steps : List Step) : List Step :=
  steps.reverse.takeWhile (!·.isClear)

/-- The help text can be read. -/
def IsReadable (source : String) : Bool :=
  (Grammar.ofHelp source).isOk

/-- **The help texts used** since the cache was last cleared, each once, the last used one first. A
text that cannot be read does not count. -/
def used (steps : List Step) : List String :=
  (((sinceCleared steps).filterMap Step.source?).filter IsReadable).eraseDups

/-- How often a help text was asked for since the cache was last cleared. -/
def requests (steps : List Step) : Nat :=
  ((sinceCleared steps).filterMap Step.source?).length

/-- How much room there is in a cache that had the given room at first. -/
def roomAfter (capacity : Nat) (steps : List Step) : Nat :=
  (steps.reverse.findSome? Step.size?).getD capacity

/-- At no moment since its last use as many other texts were used more recently as there was room
for. -/
def FitsIn (capacity : Nat) (steps : List Step) (source : String) : Prop :=
  ∀ earlier later, steps = earlier ++ later → .compile source ∉ later →
    (used earlier).idxOf source < roomAfter capacity earlier

/-- **What a cache is after a run.** -/
structure Reflects {σ : Type} [Store σ String Compiled] (capacity : Nat) (steps : List Step)
    (c : GrammarCache σ) : Prop where
  /-- Compiling gives what the help text says, be it a grammar or an error. -/
  transparent : ∀ source, (c.compile source).2.map Compiled.grammar = Grammar.ofHelp source
  /-- A help text that cannot be read is a miss and nothing else. -/
  fault : ∀ source e, Grammar.ofHelp source = .error e →
    (c.compile source).1 = { c with misses := c.misses + 1 }
  /-- A help text that was held is a hit, and no other one is. -/
  hit : ∀ source, (c.compile source).1.hits = if c.holds source then c.hits + 1 else c.hits
  counted : c.hits + c.misses = requests steps
  room : Store.capacity c.recent = roomAfter capacity steps
  bounded : c.cached ≤ roomAfter capacity steps
  /-- The texts held are those used last. -/
  order : Store.keys c.recent <+: used steps
  holds_iff : ∀ source, c.holds source ↔ source ∈ used steps ∧ FitsIn capacity steps source

section History

variable {steps : List Step} {s : Step} {source : String} {capacity : Nat}

theorem sinceCleared_snoc (h : s.isClear = false) :
    sinceCleared (steps ++ [s]) = s :: sinceCleared steps := by
  rw [sinceCleared, List.reverse_append, List.reverse_singleton, List.singleton_append,
    List.takeWhile_cons_of_pos (by simp [h])]
  rfl

theorem sinceCleared_clear : sinceCleared (steps ++ [.clear]) = [] := by
  rw [sinceCleared, List.reverse_append, List.reverse_singleton, List.singleton_append]
  exact List.takeWhile_cons_of_neg (by simp [Step.isClear])

/-- Leaving out one text and then repetitions is as good as the other way round. -/
theorem eraseDups_filter_ne (l : List String) :
    (l.filter (· ≠ source)).eraseDups = l.eraseDups.filter (· ≠ source) := by
  induction hn : l.length using Nat.strongRecOn generalizing l with
  | _ n ih =>
    cases l with
    | nil => rfl
    | cons x xs =>
      have hshort : (xs.filter fun y => !y == x).length < n := by
        have hle := List.length_filter_le (fun y => !y == x) xs
        rw [List.length_cons] at hn
        omega
      have hxs := ih _ hshort (xs.filter fun y => !y == x) rfl
      rw [List.filter_filter] at hxs
      by_cases hx : x = source
      · subst hx
        rw [List.filter_cons_of_neg (by simp), List.eraseDups_cons,
          List.filter_cons_of_neg (by simp), ← hxs]
        congr 1
        refine List.filter_congr fun y _ => ?_
        by_cases hy : y = x <;> simp [hy]
      · rw [List.filter_cons_of_pos (by simp [hx]), List.eraseDups_cons, List.eraseDups_cons,
          List.filter_cons_of_pos (by simp [hx]), ← hxs, List.filter_filter]
        congr 2
        refine List.filter_congr fun y _ => ?_
        rw [Bool.and_comm]

theorem used_compile (steps : List Step) (h : IsReadable source = true) :
    used (steps ++ [.compile source]) = source :: (used steps).filter (· ≠ source) := by
  have hsource : Step.source? (.compile source) = some source := rfl
  rw [used, sinceCleared_snoc rfl, List.filterMap_cons_some hsource, List.filter_cons_of_pos h,
    List.eraseDups_cons, used, ← eraseDups_filter_ne]
  congr 2
  refine List.filter_congr fun x _ => ?_
  by_cases hx : x = source <;> simp [hx]

theorem used_compile_unreadable (steps : List Step) (h : IsReadable source = false) :
    used (steps ++ [.compile source]) = used steps := by
  have hsource : Step.source? (.compile source) = some source := rfl
  rw [used, sinceCleared_snoc rfl, List.filterMap_cons_some hsource,
    List.filter_cons_of_neg (by simp [h]), used]

theorem used_resize (steps : List Step) (size : Int) :
    used (steps ++ [.resize size]) = used steps := by
  rw [used, sinceCleared_snoc rfl, List.filterMap_cons_none rfl, used]

theorem used_clear (steps : List Step) : used (steps ++ [.clear]) = [] := by
  rw [used, sinceCleared_clear]
  rfl

theorem not_mem_used_of_unreadable (h : IsReadable source = false) : source ∉ used steps := by
  intro hmem
  rw [used, List.mem_eraseDups, List.mem_filter, h] at hmem
  exact nomatch hmem.2

theorem roomAfter_snoc :
    roomAfter capacity (steps ++ [s]) = s.size?.getD (roomAfter capacity steps) := by
  rw [roomAfter, List.reverse_append, List.reverse_singleton, List.singleton_append,
    List.findSome?_cons]
  cases s.size? <;> rfl

/-- A text still fits in if there is room for it now, and if it fitted in before unless this is its
last use. -/
theorem fitsIn_snoc : FitsIn capacity (steps ++ [s]) source ↔
    (used (steps ++ [s])).idxOf source < roomAfter capacity (steps ++ [s]) ∧
      (s ≠ .compile source → FitsIn capacity steps source) := by
  constructor
  · intro h
    refine ⟨h _ [] (List.append_nil _).symm List.not_mem_nil, fun hs earlier later heq hlater => ?_⟩
    refine h earlier (later ++ [s]) (by rw [heq, List.append_assoc]) ?_
    rw [List.mem_append, List.mem_singleton]
    exact not_or.mpr ⟨hlater, fun heq => hs heq.symm⟩
  · rintro ⟨hnow, hbefore⟩ earlier later heq hlater
    rcases List.eq_nil_or_concat' later with rfl | ⟨later, t, rfl⟩
    · rw [List.append_nil] at heq
      rwa [← heq]
    · rw [← List.append_assoc] at heq
      obtain ⟨hsteps, hst⟩ := List.append_inj' heq rfl
      obtain rfl := List.singleton_inj.mp hst
      rw [List.mem_append, List.mem_singleton, not_or] at hlater
      exact hbefore (fun h => hlater.2 h.symm) earlier later hsteps hlater.1

theorem FitsIn.now (h : FitsIn capacity steps source) :
    (used steps).idxOf source < roomAfter capacity steps :=
  h steps [] (List.append_nil steps).symm List.not_mem_nil

/-- What of a prefix a shorter list keeps is said by the places in the whole. -/
theorem mem_take_iff_idxOf {l whole : List String} (h : l <+: whole) (n : Nat) :
    source ∈ l.take n ↔ source ∈ l ∧ whole.idxOf source < n := by
  constructor
  · intro hmem
    have hl := List.mem_of_mem_take hmem
    rw [← h.idxOf_eq_of_mem hl]
    exact ⟨hl, (List.mem_take_iff_idxOf_lt hl).mp hmem⟩
  · rintro ⟨hl, hlt⟩
    rw [← h.idxOf_eq_of_mem hl] at hlt
    exact (List.mem_take_iff_idxOf_lt hl).mpr hlt

end History

/-- The keys stand in the order of use, and those are there that fit in. -/
structure Holds (capacity : Nat) (steps : List Step) (keys : List String) : Prop where
  order : keys <+: used steps
  mem_iff : ∀ source, source ∈ keys ↔ source ∈ used steps ∧ FitsIn capacity steps source

namespace Holds

variable {capacity : Nat} {steps : List Step} {s : Step} {keys : List String} {source : String}

theorem initial (capacity : Nat) : Holds capacity [] [] where
  order := List.nil_prefix
  mem_iff source := by
    have hnil : used [] = [] := rfl
    simp [hnil]

theorem compile (h : Holds capacity steps keys) (hs : IsReadable source = true) :
    Holds capacity (steps ++ [.compile source])
      ((source :: keys.filter (· ≠ source)).take (roomAfter capacity steps)) := by
  have hused := used_compile steps hs
  have hroom : roomAfter capacity (steps ++ [.compile source]) = roomAfter capacity steps :=
    roomAfter_snoc
  have horder : source :: keys.filter (· ≠ source) <+: used (steps ++ [.compile source]) := by
    rw [hused]
    exact (List.prefix_cons_inj source).mpr (h.order.filter _)
  refine ⟨(List.take_prefix _ _).trans horder, fun x => ?_⟩
  rw [mem_take_iff_idxOf horder, fitsIn_snoc, hroom, hused, List.mem_cons, List.mem_cons,
    List.mem_filter, List.mem_filter, h.mem_iff x]
  by_cases hx : x = source
  · simp [hx]
  · simp [hx, Ne.symm hx]
    tauto

/-- A step that uses no text and changes no room leaves everything as it is. -/
theorem unchanged (h : Holds capacity steps keys) (hused : used (steps ++ [s]) = used steps)
    (hroom : roomAfter capacity (steps ++ [s]) = roomAfter capacity steps)
    (hother : ∀ x ∈ used steps, s ≠ .compile x) : Holds capacity (steps ++ [s]) keys := by
  refine ⟨hused ▸ h.order, fun x => ?_⟩
  rw [hused, h.mem_iff x, fitsIn_snoc, hused, hroom]
  refine and_congr_right fun hx => ⟨fun hfits => ⟨hfits.now, fun _ => hfits⟩, fun hfits => ?_⟩
  exact hfits.2 (hother x hx)

theorem compile_unreadable (h : Holds capacity steps keys) (hs : IsReadable source = false) :
    Holds capacity (steps ++ [.compile source]) keys := by
  refine h.unchanged (used_compile_unreadable steps hs) roomAfter_snoc fun x hx heq => ?_
  obtain rfl := Step.compile.inj heq
  exact not_mem_used_of_unreadable hs hx

theorem resize (h : Holds capacity steps keys) {size : Int} (hsize : 1 ≤ size) :
    Holds capacity (steps ++ [.resize size]) (keys.take size.toNat) := by
  have hused := used_resize steps size
  have hroom : roomAfter capacity (steps ++ [.resize size]) = size.toNat := by
    rw [roomAfter_snoc, Step.size?, if_neg (by omega)]
    rfl
  refine ⟨hused ▸ (List.take_prefix _ _).trans h.order, fun x => ?_⟩
  rw [mem_take_iff_idxOf h.order, hused, h.mem_iff x, fitsIn_snoc, hused, hroom]
  have hne : Step.resize size ≠ Step.compile x := nofun
  tauto

theorem resize_refused (h : Holds capacity steps keys) {size : Int} (hsize : size < 1) :
    Holds capacity (steps ++ [.resize size]) keys := by
  have hroom : roomAfter capacity (steps ++ [.resize size]) = roomAfter capacity steps := by
    rw [roomAfter_snoc, Step.size?, if_pos hsize]
    rfl
  exact h.unchanged (used_resize steps size) hroom fun _ _ => nofun

theorem clear : Holds capacity (steps ++ [.clear]) [] where
  order := List.nil_prefix
  mem_iff source := by
    rw [used_clear]
    simp

end Holds

section Run

variable {σ : Type} [Store σ String Compiled] {c : GrammarCache σ} {steps : List Step} {s : Step}
  {source : String} {capacity : Nat}

/-- What is known of a cache that went through some steps. -/
structure Kept (capacity : Nat) (steps : List Step) (c : GrammarCache σ) : Prop where
  honest : c.Honest
  room : Store.capacity c.recent = roomAfter capacity steps
  counted : c.hits + c.misses = requests steps
  holds : Holds capacity steps (Store.keys c.recent)

theorem isReadable_of_ok {g : Grammar} (hs : Grammar.ofHelp source = .ok g) :
    IsReadable source = true := by
  rw [IsReadable, hs]
  rfl

theorem isReadable_of_error {e : HelpError} (hs : Grammar.ofHelp source = .error e) :
    IsReadable source = false := by
  rw [IsReadable, hs]
  rfl

theorem requests_compile (steps : List Step) (source : String) :
    requests (steps ++ [.compile source]) = requests steps + 1 := by
  have hsource : Step.source? (.compile source) = some source := rfl
  rw [requests, sinceCleared_snoc rfl, List.filterMap_cons_some hsource, List.length_cons, requests]

theorem requests_resize (steps : List Step) (size : Int) :
    requests (steps ++ [.resize size]) = requests steps := by
  rw [requests, sinceCleared_snoc rfl, List.filterMap_cons_none rfl, requests]

variable [LawfulStore σ String Compiled]

theorem Kept.initial (capacity : Nat) : Kept capacity [] (ofSize capacity : GrammarCache σ) where
  honest := honest_ofSize capacity
  room := (LawfulStore.empty capacity).capacity
  counted := rfl
  holds := by
    rw [ofSize, Store.keys, (LawfulStore.empty capacity).entries]
    exact .initial capacity

theorem Kept.compile (h : Kept capacity steps c) (source : String) :
    Kept capacity (steps ++ [.compile source]) (c.compile source).1 := by
  have hhonest := h.honest.compile source
  have hcompiles := h.honest.compiles source
  have hroom : roomAfter capacity (steps ++ [.compile source]) = roomAfter capacity steps :=
    roomAfter_snoc
  have hcounted := h.counted
  have hrequests := requests_compile steps source
  generalize c.compile source = result at hhonest hcompiles
  cases hcompiles with
  | hit _ hs hshows | read _ hs hshows =>
    refine ⟨hhonest, (hshows.capacity.trans h.room).trans hroom.symm, by dsimp only; omega, ?_⟩
    rw [Store.keys, hshows.entries, Store.keys_renewed, h.room]
    exact h.holds.compile (isReadable_of_ok hs)
  | fault _ hs =>
    refine ⟨hhonest, h.room.trans hroom.symm, by dsimp only; omega, ?_⟩
    exact h.holds.compile_unreadable (isReadable_of_error hs)

theorem Kept.resize (h : Kept capacity steps c) (size : Int) :
    Kept capacity (steps ++ [.resize size]) (c.step (.resize size)) := by
  have hhonest := h.honest.step (.resize size)
  have hcounted := h.counted.trans (requests_resize steps size).symm
  rw [GrammarCache.step, resize?] at hhonest ⊢
  by_cases hsize : size < 1
  · have hroom : roomAfter capacity (steps ++ [.resize size]) = roomAfter capacity steps := by
      rw [roomAfter_snoc, Step.size?, if_pos hsize]
      rfl
    have hzero : size.toNat = 0 := by omega
    rw [hzero, LawfulStore.refused] at hhonest ⊢
    exact ⟨hhonest, h.room.trans hroom.symm, hcounted, h.holds.resize_refused hsize⟩
  · have hroom : roomAfter capacity (steps ++ [.resize size]) = size.toNat := by
      rw [roomAfter_snoc, Step.size?, if_neg hsize]
      rfl
    have hpos : 0 < size.toNat := by omega
    obtain ⟨after, hafter, hshows⟩ := LawfulStore.resized c.recent hpos
    rw [hafter] at hhonest ⊢
    refine ⟨hhonest, hshows.capacity.trans hroom.symm, hcounted, ?_⟩
    show Holds _ _ (Store.keys after)
    rw [Store.keys, hshows.entries, List.map_take]
    exact h.holds.resize (by omega)

theorem Kept.clear (h : Kept capacity steps c) : Kept capacity (steps ++ [.clear]) c.clear where
  honest := honest_clear c
  room := by
    rw [roomAfter_snoc]
    exact (LawfulStore.clear c.recent).capacity.trans h.room
  counted := by
    rw [requests, sinceCleared_clear]
    rfl
  holds := by
    rw [GrammarCache.clear, Store.keys, (LawfulStore.clear c.recent).entries]
    exact .clear

theorem Kept.step (h : Kept capacity steps c) (s : Step) :
    Kept capacity (steps ++ [s]) (c.step s) := by
  cases s with
  | compile source => exact h.compile source
  | resize size => exact h.resize size
  | clear => exact h.clear

theorem kept_run (capacity : Nat) (steps : List Step) :
    Kept capacity steps ((ofSize capacity : GrammarCache σ).run steps) := by
  induction steps using List.reverseRecOn with
  | nil => exact .initial capacity
  | append_singleton steps s ih =>
    rw [run, List.foldl_append]
    exact ih.step s

theorem Honest.hits_compile (h : c.Honest) (source : String) :
    (c.compile source).1.hits = if c.holds source then c.hits + 1 else c.hits := by
  have hcompiles := h.compiles source
  generalize c.compile source = result at hcompiles
  cases hcompiles with
  | hit hheld => exact (if_pos ((LawfulStore.holds_iff _ _).mpr hheld)).symm
  | read hheld | fault hheld => exact (if_neg (mt (LawfulStore.holds_iff _ _).mp hheld)).symm

theorem Honest.compile_fault (h : c.Honest) {e : HelpError}
    (hs : Grammar.ofHelp source = .error e) :
    (c.compile source).1 = { c with misses := c.misses + 1 } := by
  have hcompiles := h.compiles source
  generalize c.compile source = result at hcompiles
  cases hcompiles with
  | hit _ hok | read _ hok =>
    rw [hs] at hok
    exact nomatch hok
  | fault => rfl

/-- **A cache is what its steps make it**, whatever store it keeps its grammars in, from any
capacity and through any run: it never shows whether a help text was read again, counts what was
asked of it, stays within its room and holds the texts used last. -/
theorem reflects_run (capacity : Nat) (steps : List Step) :
    Reflects capacity steps ((ofSize capacity : GrammarCache σ).run steps) := by
  have hkept : Kept capacity steps ((ofSize capacity : GrammarCache σ).run steps) :=
    kept_run capacity steps
  generalize (ofSize capacity : GrammarCache σ).run steps = c at hkept
  exact {
    transparent := hkept.honest.transparent
    fault := fun _ _ hs => hkept.honest.compile_fault hs
    hit := hkept.honest.hits_compile
    counted := hkept.counted
    room := hkept.room
    bounded := by
      rw [cached, ← hkept.room]
      exact LawfulStore.size_le c.recent
    order := hkept.holds.order
    holds_iff := fun source => by
      rw [GrammarCache.holds, LawfulStore.holds_iff, hkept.holds.mem_iff] }

/-- Two help texts in room for one, kept in a list by recency. -/
theorem reflects_run_recency :
    Reflects 1 [.compile "Usage: p", .compile "Usage: q", .compile "Usage: p"]
      ((ofSize 1 : GrammarCache (Recency String Compiled)).run
        [.compile "Usage: p", .compile "Usage: q", .compile "Usage: p"]) :=
  reflects_run 1 _

end Run

end Synopsis.GrammarCache
