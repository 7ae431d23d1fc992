import Synopsis.Proofs.OutputSteps

/-!
# What a capture holds

The entries kept for a program are those of the texts heard since its capture was first opened or
last released, one update after the other. So opening a capture does not drop what was heard before,
and releasing one drops what an outer capture of the same program heard.
-/

namespace Synopsis.Output

/-- A capture of the key is released in a run. -/
def Releases (k : String) (o : Output) (steps : List Step) : Prop :=
  ∃ before after, steps = before ++ .release :: after ∧ (o.run before).opened.head? = some k

/-- The captures that are open before a run are not closed in it. -/
def StaysOpen (o : Output) (steps : List Step) : Prop :=
  ∀ early, early <+: steps → o.opened.length ≤ (o.run early).opened.length

variable {o : Output} {k : String} {s : Step} {steps : List Step}

theorem Releases.of_rest (h : Releases k (o.step s) steps) : Releases k o (s :: steps) := by
  obtain ⟨before, after, rfl, hk⟩ := h
  exact ⟨s :: before, after, rfl, hk⟩

/-- **What a run without a release of a program does to the entries kept for it**: they take
whatever is heard. -/
theorem entries_run (ho : o.Anchored) (hkeeps : o.Keeps k) (h : ¬ Releases k o steps) :
    (o.run steps).entries k = (o.entries k).updateAll (heard k o steps) := by
  induction steps generalizing o with
  | nil => rfl
  | cons s rest ih =>
    have hhead : s = .release → o.opened.head? ≠ some k := by
      rintro rfl hk
      exact h ⟨[], rest, rfl, hk⟩
    have hrest : ¬ Releases k (o.step s) rest := fun hr => h hr.of_rest
    have hkept : (o.step s).Keeps k := (keeps_step ho).mpr (.inr hkeeps)
    show ((o.step s).run rest).entries k = _
    rw [ih (ho.step s) hkept hrest, entries_step hkeeps hhead]
    exact List.foldl_append.symm

/-- Of the releases in a run one is the last. -/
theorem Releases.last (h : Releases k o steps) : ∃ before after,
    steps = before ++ .release :: after ∧ (o.run before).opened.head? = some k ∧
      ¬ Releases k ((o.run before).step .release) after := by
  induction steps generalizing o with
  | nil =>
    obtain ⟨before, after, heq, -⟩ := h
    exact absurd heq (by simp)
  | cons s rest ih =>
    by_cases hrest : Releases k (o.step s) rest
    · obtain ⟨before, after, rfl, hk, hlast⟩ := ih hrest
      exact ⟨s :: before, after, rfl, hk, hlast⟩
    · obtain ⟨before, after, heq, hk⟩ := h
      cases before with
      | nil =>
        obtain ⟨rfl, rfl⟩ := List.cons.inj heq
        exact ⟨[], _, rfl, hk, hrest⟩
      | cons t before =>
        obtain ⟨rfl, rfl⟩ := List.cons.inj heq
        exact absurd ⟨before, after, rfl, hk⟩ hrest

/-- If a capture of a program was opened in a run, one was the first. -/
theorem Captures.first (h : Captures k steps) : ∃ before program after,
    steps = before ++ .capture program :: after ∧ key program = k ∧ ¬ Captures k before := by
  induction steps with
  | nil =>
    obtain ⟨program, hmem, -⟩ := h
    exact nomatch hmem
  | cons s rest ih =>
    by_cases hs : Captures k [s]
    · obtain ⟨program, hmem, hk⟩ := hs
      obtain rfl := List.mem_singleton.mp hmem
      exact ⟨[], program, rest, rfl, hk, fun ⟨q, hq, _⟩ => nomatch hq⟩
    · obtain ⟨program, hmem, hk⟩ := h
      have hrest : .capture program ∈ rest := by
        rcases List.mem_cons.mp hmem with rfl | hmem
        · exact absurd ⟨program, List.mem_singleton_self _, hk⟩ hs
        · exact hmem
      obtain ⟨before, q, after, rfl, hq, hfirst⟩ := ih ⟨program, hrest, hk⟩
      refine ⟨s :: before, q, after, rfl, hq, ?_⟩
      rintro ⟨r, hr, hrk⟩
      rcases List.mem_cons.mp hr with rfl | hr
      · exact hs ⟨r, List.mem_singleton_self _, hrk⟩
      · exact hfirst ⟨r, hr, hrk⟩

/-- An output with which nothing was done yet. -/
def fresh (handlers : List (String × Handler)) (fallback : Handler) : Output :=
  { handlers, fallback }

section Fresh

variable (handlers : List (String × Handler)) (fallback : Handler)

theorem anchored_fresh (steps : List Step) : ((fresh handlers fallback).run steps).Anchored := by
  refine anchored_run ?_ steps
  exact fun k h => absurd h List.not_mem_nil

theorem keeps_fresh : ((fresh handlers fallback).run steps).Keeps k ↔ Captures k steps := by
  have hanchored : (fresh handlers fallback).Anchored := anchored_fresh handlers fallback []
  rw [keeps_run hanchored]
  exact or_iff_left fun h => absurd h List.not_mem_nil

/-- If a capture of a program was opened, there is a last time at which nothing was kept for it:
right after its first capture or after its last release. -/
theorem exists_emptied (h : Captures k steps) : ∃ early late, steps = early ++ late ∧
    Captures k early ∧ ((fresh handlers fallback).run early).entries k = [] ∧
    ¬ Releases k ((fresh handlers fallback).run early) late := by
  by_cases hrelease : Releases k (fresh handlers fallback) steps
  · obtain ⟨early, late, rfl, hhead, hlast⟩ := hrelease.last
    have hkeeps := anchored_fresh handlers fallback early k (List.mem_of_mem_head? hhead)
    obtain ⟨q, hq, hqk⟩ := (keeps_fresh handlers fallback).mp hkeeps
    refine ⟨early ++ [.release], late, by simp, ⟨q, List.mem_append_left _ hq, hqk⟩, ?_, ?_⟩
    · rw [run_append]
      exact entries_release hhead
    · rw [run_append]
      exact hlast
  · obtain ⟨early, program, late, rfl, hk, hfirst⟩ := h.first
    refine ⟨early ++ [.capture program], late, by simp,
      ⟨program, List.mem_append_right _ (List.mem_singleton_self _), hk⟩, ?_, ?_⟩
    · rw [run_append]
      show (((fresh handlers fallback).run early).capture program).entries k = []
      rw [entries_capture]
      refine entries_eq_nil_of_not_keeps fun hkeeps => hfirst ?_
      exact (keeps_fresh handlers fallback).mp hkeeps
    · rintro ⟨inner, rest, rfl, hhead⟩
      refine hrelease ⟨early ++ .capture program :: inner, rest, by simp, ?_⟩
      rw [← run_append] at hhead
      simpa using hhead

/-- **The entries kept for a program are those heard since its capture was first opened or last
released**, so there are none exactly if nothing was heard since. -/
theorem entries_eq_nil_iff : ((fresh handlers fallback).run steps).entries k = [] ↔
    ∀ early late, steps = early ++ late → Captures k early →
      Releases k ((fresh handlers fallback).run early) late ∨
        heard k ((fresh handlers fallback).run early) late = [] := by
  constructor
  · rintro hnil early late rfl hcaptures
    refine or_iff_not_imp_left.mpr fun hrelease => ?_
    have hkeeps := (keeps_fresh handlers fallback).mpr hcaptures
    rw [run_append, entries_run (anchored_fresh handlers fallback early) hkeeps hrelease] at hnil
    exact ((Entries.updateAll_eq_nil heard_ne_nil).mp hnil).2
  · intro h
    by_cases hcaptures : Captures k steps
    · obtain ⟨early, late, rfl, hearly, hnil, hrelease⟩ :=
        exists_emptied handlers fallback hcaptures
      have hheard := (h early late rfl hearly).resolve_left hrelease
      have hkeeps := (keeps_fresh handlers fallback).mpr hearly
      rw [run_append, entries_run (anchored_fresh handlers fallback early) hkeeps hrelease, hnil,
        hheard]
      rfl
    · refine entries_eq_nil_of_not_keeps fun hkeeps => hcaptures ?_
      exact (keeps_fresh handlers fallback).mp hkeeps

/-- **What a capture holds.** It starts empty exactly if nothing that it takes was sent since a
capture of its program was first opened or last released. From then on it takes whatever is heard;
a release of another capture of its program in between drops what was heard up to then. -/
theorem entries_of_capture (handlers : List (String × Handler)) (fallback : Handler)
    (before : List Step) (program : Option String) :
    let start := fresh handlers fallback
    let opened := (start.run before).capture program
    let k := key program
    (opened.entries k = [] ↔ ∀ early late, before = early ++ late → Captures k early →
      Releases k (start.run early) late ∨ heard k (start.run early) late = []) ∧
    ∀ after,
      (¬ Releases k opened after →
        (opened.run after).entries k = (opened.entries k).updateAll (heard k opened after)) ∧
      ∀ inner rest, after = inner ++ .release :: rest → (opened.run inner).opened.head? = some k →
        ¬ Releases k ((opened.run inner).step .release) rest →
        (opened.run after).entries k =
          Entries.updateAll [] (heard k ((opened.run inner).step .release) rest) := by
  intro start opened k
  have hstart : (start.run before).Anchored := anchored_fresh handlers fallback before
  have hopened : opened.Anchored := hstart.step (.capture program)
  have hkeeps : opened.Keeps k := keeps_put.mpr (.inl rfl)
  refine ⟨?_, fun after => ⟨fun h => entries_run hopened hkeeps h, ?_⟩⟩
  · rw [show opened.entries k = (start.run before).entries k from entries_capture _ program]
    exact entries_eq_nil_iff handlers fallback
  · rintro inner rest rfl hhead hrest
    have hinner : (opened.run inner).Anchored := anchored_run hopened inner
    have hkept : ((opened.run inner).step .release).Keeps k :=
      (keeps_step hinner).mpr (.inr ((keeps_run hopened).mpr (.inr hkeeps)))
    rw [run_split, entries_run (hinner.step .release) hkept hrest, entries_release hhead]

end Fresh

theorem not_releases_of_not_mem (h : .release ∉ steps) : ¬ Releases k o steps := by
  rintro ⟨before, after, rfl, -⟩
  exact h (List.mem_append_right _ List.mem_cons_self)

/-- A handler that tells of a text that it was sent. -/
def echo : Handler :=
  .custom "echo" fun text => [(text, .flag true)]

/-- A second capture of a program, with a capture of all programs inside that fails, and then with
one of the same program inside that is released. -/
theorem entries_of_second_capture :
    let start := fresh [("p", echo)] .print
    let before : List Step := [.capture (some "p"), .send "a" (some "p"), .release]
    let opened := (start.run before).capture (some "p")
    let failing : List Step := [.send "b" (some "p"), .capture none, .send "c" none, .abandon,
      .send "d" (some "p")]
    let inner : List Step := [.send "b" (some "p"), .capture (some "p"), .send "c" (some "p")]
    let rest : List Step := [.send "d" (some "p")]
    opened.entries "p" = [] ∧ ¬ Releases "p" opened failing ∧
      (opened.run failing).entries "p" = [("b", .flag true), ("d", .flag true)] ∧
      (opened.run inner).opened.head? = some "p" ∧
      ¬ Releases "p" ((opened.run inner).step .release) rest ∧
      (opened.run (inner ++ .release :: rest)).entries "p" = [("d", .flag true)] := by
  intro start before opened failing inner rest
  obtain ⟨-, hlater⟩ := entries_of_capture [("p", echo)] .print before (some "p")
  have hfailing : ¬ Releases "p" opened failing := not_releases_of_not_mem (by simp [failing])
  have hrest : ¬ Releases "p" ((opened.run inner).step .release) rest :=
    not_releases_of_not_mem (by simp [rest])
  exact ⟨rfl, hfailing, (hlater failing).1 hfailing, rfl, hrest,
    (hlater _).2 inner rest rfl rfl hrest⟩

/-- A capture does not start empty if something was sent between it and the capture before it, or if
that one failed. A capture also loses what it holds when another one of its program inside it is
released. -/
theorem capture_keeps_and_loses :
    (¬ ∀ before program, key program ∉ (({} : Output).run before).opened →
      ((({} : Output).run before).capture program).entries (key program) = []) ∧
    ((({} : Output).run [.capture (some "p"), .send "a" (some "p"), .abandon]).capture
      (some "p")).entries "p" ≠ [] ∧
    ¬ ∀ after, StaysOpen (({} : Output).capture (some "p")) after →
      ((({} : Output).capture (some "p")).run after).entries "p" =
        Entries.updateAll [] (heard "p" (({} : Output).capture (some "p")) after) := by
  refine ⟨fun h => ?_, List.cons_ne_nil _ _, fun h => ?_⟩
  · have hopened : key (some "p") ∉ (({} : Output).run
        [.capture (some "p"), .release, .send "a" (some "p")]).opened := List.not_mem_nil
    exact nomatch h _ _ hopened
  · have hopen : StaysOpen (({} : Output).capture (some "p"))
        [.send "a" (some "p"), .capture (some "p"), .release] := by
      intro early hsent
      rcases List.prefix_cons_iff.mp hsent with rfl | ⟨_, rfl, hcaptured⟩
      · exact Nat.le_refl 1
      rcases List.prefix_cons_iff.mp hcaptured with rfl | ⟨_, rfl, hreleased⟩
      · exact Nat.le_refl 1
      rcases List.prefix_cons_iff.mp hreleased with rfl | ⟨_, rfl, hdone⟩
      · exact Nat.le_succ 1
      · rw [List.prefix_nil.mp hdone]
        exact Nat.le_refl 1
    exact nomatch h _ hopen

end Synopsis.Output
