import Mathlib.Data.List.Basic
import Synopsis.Namespaces

/-!
# Nested namespaces

Namespaces are entered and left in blocks. Inside a block names are resolved, namespaces are
registered, also under the name of one outside, and the default is set; a block ends at its end or
with an error. Whatever a block does, leaving it brings back the very namespace that was the
default before, since the place of that namespace is kept and no namespace is ever removed.
-/

namespace Synopsis.Namespaces

/-- Which namespace is meant: as before, or one that was made already. -/
inductive Choice where
  | of (r : NamespaceRef)
  | again (place : Nat)

namespace Choice

/-- Makes sure that the name of the chosen namespace stands for it. -/
def resolve (ns : Namespaces) : Choice → Namespaces
  | of r => ns.resolve r
  | again place =>
    match ns.made[place]? with
    | some n => ns.register n.name place
    | none => ns

/-- Makes the chosen namespace the default one. -/
def setDefault (ns : Namespaces) : Choice → Namespaces
  | of r => ns.setDefault r
  | again place =>
    match ns.made[place]? with
    | some n => { ns.register n.name place with current := n.name }
    | none => ns

/-- Makes the chosen namespace the default one until it is left. -/
def enter (ns : Namespaces) : Choice → Namespaces
  | of r => ns.enter r
  | again place =>
    setDefault { ns with outer := (ns.place? ns.current).toList ++ ns.outer } (again place)

end Choice

/-- What is done with namespaces. -/
inductive Step where
  | enter (c : Choice)
  /-- A block is left, at its end or with an error. -/
  | leave
  | setDefault (c : Choice)
  | resolve (c : Choice)
  /-- The configuration of the namespace at a place is changed. -/
  | amend (place : Nat) (change : Config → Config)

/-- The namespaces after a step. There is nothing to leave outside of all blocks. -/
def step? (ns : Namespaces) : Step → Option Namespaces
  | .enter c => some (c.enter ns)
  | .leave => ns.leave?
  | .setDefault c => some (c.setDefault ns)
  | .resolve c => some (c.resolve ns)
  | .amend place change =>
    some { ns with made := ns.made.modify place fun n => { n with config := change n.config } }

/-- The namespaces after some steps. -/
def run (ns : Namespaces) (steps : List Step) : Option Namespaces :=
  steps.foldlM step? ns

/-- A step that neither enters nor leaves. -/
def Step.IsPlain : Step → Prop
  | .enter _ | .leave => False
  | .setDefault _ | .resolve _ | .amend _ _ => True

/-- **Well-nested steps**; they end with an error if `failed`. An error ends the block in which it
occurs, which is left all the same, and those around it until it is handled. -/
inductive Nested : (failed : Bool) → List Step → Prop
  | done : Nested false []
  | fail : Nested true []
  | plain {failed : Bool} {s : Step} {rest : List Step} : s.IsPlain → Nested failed rest →
      Nested failed (s :: rest)
  | block {failed : Bool} {c : Choice} {body rest : List Step} : Nested false body →
      Nested failed rest → Nested failed (.enter c :: (body ++ .leave :: rest))
  | escape {c : Choice} {body : List Step} : Nested true body →
      Nested true (.enter c :: (body ++ [.leave]))
  | handle {failed : Bool} {body rest : List Step} : Nested true body → Nested failed rest →
      Nested failed (body ++ rest)

/-- The configuration of the namespace at a place, after a step. -/
def Step.amended (place : Nat) (c : Config) : Step → Config
  | .amend p change => if p = place then change c else c
  | _ => c

/-- The configuration of the namespace at a place, after some steps. -/
def amended (place : Nat) (steps : List Step) (c : Config) : Config :=
  steps.foldl (Step.amended place) c

variable {ns mid after : Namespaces} {steps more : List Step} {s : Step} {c : Choice}
  {n : Namespace} {place : Nat} {name other : String}

theorem place?_register : (ns.register name place).place? other =
    if name = other then some place else ns.place? other := by
  rw [place?, register, Keyed.get?_put]
  split
  · rfl
  · rfl

theorem names_register : ns.names <+: (ns.register name place).names := by
  rw [names, names, register, Keyed.map_put]
  split
  · exact List.prefix_rfl
  · exact List.prefix_append _ _

theorem mem_names_iff : name ∈ ns.names ↔ ∃ place, ns.place? name = some place := by
  rw [names, Keyed.mem_map_iff, place?]
  simp only [Option.map_eq_some_iff]
  constructor
  · rintro ⟨entry, hentry⟩
    exact ⟨entry.2, entry, hentry, rfl⟩
  · rintro ⟨_, entry, hentry, -⟩
    exact ⟨entry, hentry⟩

/-- **The names stand for namespaces of theirs**, the default name among them, and there is a
namespace to come back to for every block. -/
structure Sound (ns : Namespaces) : Prop where
  held : ∀ name place, ns.place? name = some place →
    ∃ n, ns.made[place]? = some n ∧ n.name = name
  current : ∃ place, ns.place? ns.current = some place
  outer : ∀ place ∈ ns.outer, ∃ n, ns.made[place]? = some n

theorem sound_initial : initial.Sound where
  held name place h := by
    obtain ⟨entry, hentry, rfl⟩ := Option.map_eq_some_iff.mp h
    obtain ⟨hmem, rfl⟩ := Keyed.mem_of_get? hentry
    obtain rfl := List.mem_singleton.mp hmem
    exact ⟨⟨"Docopt", {}⟩, rfl, rfl⟩
  current := ⟨0, rfl⟩
  outer _ h := absurd h List.not_mem_nil

/-- There are only more names and namespaces than before, all at their places. -/
structure Extends (ns after : Namespaces) : Prop where
  names : ns.names <+: after.names
  made : ns.made <+: after.made

namespace Extends

theorem refl (ns : Namespaces) : ns.Extends ns :=
  ⟨List.prefix_rfl, List.prefix_rfl⟩

theorem register (ns : Namespaces) (name : String) (place : Nat) :
    ns.Extends (ns.register name place) :=
  ⟨names_register, List.prefix_rfl⟩

theorem getElem? (h : ns.Extends after) (hn : ns.made[place]? = some n) :
    after.made[place]? = some n := by
  obtain ⟨more, hmore⟩ := h.made
  rw [← hmore]
  exact List.getElem?_append_left (List.getElem?_eq_some_iff.mp hn).1 ▸ hn

end Extends

namespace Sound

theorem register (h : ns.Sound) (hn : ns.made[place]? = some n) :
    (ns.register n.name place).Sound where
  held other at' hother := by
    rw [place?_register] at hother
    split at hother
    case isTrue hname => exact ⟨n, Option.some.inj hother ▸ hn, hname⟩
    case isFalse => exact h.held other at' hother
  current := by
    obtain ⟨at', hat⟩ := h.current
    rw [place?_register]
    split
    · exact ⟨place, rfl⟩
    · exact ⟨at', hat⟩
  outer := h.outer

theorem withMade (h : ns.Sound) (n : Namespace) :
    ({ ns with made := ns.made ++ [n] } : Namespaces).Sound := by
  have hext : ns.Extends { ns with made := ns.made ++ [n] } :=
    ⟨List.prefix_rfl, List.prefix_append _ _⟩
  refine ⟨fun name place hplace => ?_, h.current, fun place hplace => ?_⟩
  · obtain ⟨m, hm, hname⟩ := h.held name place hplace
    exact ⟨m, hext.getElem? hm, hname⟩
  · obtain ⟨m, hm⟩ := h.outer place hplace
    exact ⟨m, hext.getElem? hm⟩

theorem add (h : ns.Sound) (n : Namespace) : (ns.add n).Sound :=
  (h.withMade n).register List.getElem?_concat_length

/-- Any name that stands for a namespace may be the default one. -/
theorem withCurrent (h : ns.Sound) (hname : ∃ place, ns.place? name = some place) :
    ({ ns with current := name } : Namespaces).Sound :=
  ⟨h.held, hname, h.outer⟩

theorem withOuter (h : ns.Sound) {outer : List Nat}
    (houter : ∀ place ∈ outer, ∃ n, ns.made[place]? = some n) :
    ({ ns with outer } : Namespaces).Sound :=
  ⟨h.held, h.current, houter⟩

end Sound

/-- **What is done without entering or leaving** keeps what there is and where one is. -/
structure Stays (ns after : Namespaces) : Prop where
  sound : after.Sound
  extend : ns.Extends after
  outer : after.outer = ns.outer

namespace Stays

theorem refl (h : ns.Sound) : ns.Stays ns :=
  ⟨h, .refl ns, rfl⟩

theorem register (h : ns.Sound) (hn : ns.made[place]? = some n) :
    ns.Stays (ns.register n.name place) :=
  ⟨h.register hn, .register ns n.name place, rfl⟩

theorem add (h : ns.Sound) (n : Namespace) : ns.Stays (ns.add n) :=
  ⟨h.add n, ⟨names_register, List.prefix_append _ _⟩, rfl⟩

theorem withCurrent (h : ns.Stays after) (hname : ∃ place, after.place? name = some place) :
    ns.Stays { after with current := name } :=
  ⟨h.sound.withCurrent hname, ⟨h.extend.names, h.extend.made⟩, h.outer⟩

theorem resolveRef (h : ns.Sound) (r : NamespaceRef) : ns.Stays (ns.resolve r) := by
  cases r with
  | given n => exact add h n
  | named name =>
    rw [Namespaces.resolve]
    split
    · exact refl h
    · exact add h ⟨name, {}⟩

end Stays

theorem place?_add (ns : Namespaces) (n : Namespace) :
    (ns.add n).place? n.name = some ns.made.length :=
  place?_register.trans (if_pos rfl)

/-- A namespace that was resolved is the one that its name stands for. -/
theorem place?_resolve (ns : Namespaces) (r : NamespaceRef) :
    ∃ place, (ns.resolve r).place? r.name = some place := by
  cases r with
  | given n => exact ⟨ns.made.length, place?_add ns n⟩
  | named name =>
    rw [resolve]
    split
    case isTrue h => exact Option.isSome_iff_exists.mp h
    case isFalse => exact ⟨ns.made.length, place?_add ns ⟨name, {}⟩⟩

namespace Stays

theorem setDefault (h : ns.Sound) (c : Choice) : ns.Stays (c.setDefault ns) := by
  cases c with
  | of r => exact (resolveRef h r).withCurrent (place?_resolve ns r)
  | again place =>
    rw [Choice.setDefault]
    split
    case h_1 n hn =>
      exact (register h hn).withCurrent ⟨place, by rw [place?_register, if_pos rfl]⟩
    case h_2 => exact refl h

theorem resolve (h : ns.Sound) (c : Choice) : ns.Stays (c.resolve ns) := by
  cases c with
  | of r => exact resolveRef h r
  | again place =>
    rw [Choice.resolve]
    split
    case h_1 n hn => exact register h hn
    case h_2 => exact refl h

end Stays

/-- Entering keeps the place of the default namespace for later. -/
theorem enter_spec (h : ns.Sound) (c : Choice) :
    ∃ place, ns.place? ns.current = some place ∧ (c.enter ns).Sound ∧ ns.Extends (c.enter ns) ∧
      (c.enter ns).outer = place :: ns.outer := by
  obtain ⟨place, hplace⟩ := h.current
  obtain ⟨n, hn, -⟩ := h.held ns.current place hplace
  have hpushed : ({ ns with outer := place :: ns.outer } : Namespaces).Sound := by
    refine h.withOuter fun p hp => ?_
    rcases List.mem_cons.mp hp with rfl | hp
    · exact ⟨n, hn⟩
    · exact h.outer p hp
  have henter : c.enter ns = c.setDefault { ns with outer := place :: ns.outer } := by
    have hlist : (ns.place? ns.current).toList ++ ns.outer = place :: ns.outer := by
      rw [hplace]
      rfl
    rw [← hlist]
    cases c <;> rfl
  have hstays := Stays.setDefault hpushed c
  rw [henter]
  exact ⟨place, hplace, hstays.sound, ⟨hstays.extend.names, hstays.extend.made⟩, hstays.outer⟩

/-- Leaving makes the namespace at the place that was kept the default one. -/
theorem leave_spec (h : ns.Sound) {outer : List Nat} (houter : ns.outer = place :: outer)
    (hn : ns.made[place]? = some n) :
    ∃ after, ns.leave? = some after ∧ after.Sound ∧ ns.Extends after ∧ after.outer = outer ∧
      after.made = ns.made ∧ after.current = n.name ∧ after.place? after.current = some place := by
  have hpopped : ({ ns with outer } : Namespaces).Sound :=
    h.withOuter fun p hp => h.outer p (houter ▸ List.mem_cons_of_mem place hp)
  have hstays := Stays.setDefault hpopped (.again place)
  have hset : Choice.setDefault { ns with outer } (.again place) =
      { ns.register n.name place with current := n.name, outer } := by
    rw [Choice.setDefault, hn]
    rfl
  rw [hset] at hstays
  refine ⟨_, ?_, hstays.sound, ⟨hstays.extend.names, hstays.extend.made⟩, rfl, rfl, rfl, ?_⟩
  · rw [leave?, houter]
    dsimp only
    rw [hn]
  · exact place?_register.trans (if_pos rfl)

theorem exists_outer_of_leave (hs : ns.leave? = some after) :
    ∃ place outer, ns.outer = place :: outer := by
  cases houter : ns.outer with
  | nil =>
    rw [leave?, houter] at hs
    exact nomatch hs
  | cons place outer => exact ⟨place, outer, rfl⟩

/-- **What steps keep**: all names in the order in which they came up, and every namespace at its
place, with its name; its configuration changes as told and not otherwise. -/
structure Keeps (steps : List Step) (ns after : Namespaces) : Prop where
  sound : after.Sound
  names : ns.names <+: after.names
  made : ∀ (place : Nat) (n : Namespace), ns.made[place]? = some n →
    after.made[place]? = some { n with config := amended place steps n.config }

namespace Keeps

theorem refl (h : ns.Sound) : Keeps [] ns ns :=
  ⟨h, List.prefix_rfl, fun _ _ hn => hn⟩

theorem trans (h : Keeps steps ns mid) (k : Keeps more mid after) :
    Keeps (steps ++ more) ns after := by
  refine ⟨k.sound, h.names.trans k.names, fun place n hn => ?_⟩
  rw [k.made place _ (h.made place n hn), amended, amended, amended, List.foldl_append]

theorem of_extends (hs : after.Sound) (h : ns.Extends after)
    (hsame : ∀ place c, s.amended place c = c) : Keeps [s] ns after := by
  refine ⟨hs, h.names, fun place n hn => ?_⟩
  have hconfig : amended place [s] n.config = n.config := hsame place n.config
  rw [hconfig]
  exact h.getElem? hn

theorem amend (h : ns.Sound) (place : Nat) (change : Config → Config) :
    Keeps [.amend place change] ns
      { ns with made := ns.made.modify place fun n => { n with config := change n.config } } := by
  have hmade : ∀ (p : Nat) (n : Namespace), ns.made[p]? = some n →
      (ns.made.modify place fun n => { n with config := change n.config })[p]? =
        some { n with config := amended p [.amend place change] n.config } := by
    intro p n hn
    rw [List.getElem?_modify, hn, amended, List.foldl_cons, List.foldl_nil, Step.amended]
    split
    · rfl
    · rfl
  refine ⟨⟨fun name p hp => ?_, h.current, fun p hp => ?_⟩, List.prefix_rfl, hmade⟩
  · obtain ⟨n, hn, hname⟩ := h.held name p hp
    exact ⟨_, hmade p n hn, hname⟩
  · obtain ⟨n, hn⟩ := h.outer p hp
    exact ⟨_, hmade p n hn⟩

/-- One step keeps what there is. -/
theorem step (h : ns.Sound) (hs : ns.step? s = some after) : Keeps [s] ns after := by
  cases s with
  | enter c =>
    obtain ⟨_, _, hsound, hext, _⟩ := enter_spec h c
    exact Option.some.inj hs ▸ of_extends hsound hext fun _ _ => rfl
  | leave =>
    obtain ⟨place, outer, houter⟩ := exists_outer_of_leave hs
    obtain ⟨n, hn⟩ := h.outer place (houter ▸ List.mem_cons_self)
    obtain ⟨left, hleave, hsound, hext, _⟩ := leave_spec h houter hn
    obtain rfl := Option.some.inj (hleave.symm.trans hs)
    exact of_extends hsound hext fun _ _ => rfl
  | setDefault c =>
    have hstays := Stays.setDefault h c
    exact Option.some.inj hs ▸ of_extends hstays.sound hstays.extend fun _ _ => rfl
  | resolve c =>
    have hstays := Stays.resolve h c
    exact Option.some.inj hs ▸ of_extends hstays.sound hstays.extend fun _ _ => rfl
  | amend place change => exact Option.some.inj hs ▸ amend h place change

end Keeps

theorem run_cons : ns.run (s :: steps) = (ns.step? s).bind fun mid => mid.run steps := by
  rw [run, List.foldlM_cons]
  rfl

theorem run_append : ns.run (steps ++ more) = (ns.run steps).bind fun mid => mid.run more := by
  rw [run, List.foldlM_append]
  rfl

/-- **A run keeps what there is**, step by step. -/
theorem Keeps.run (h : ns.Sound) (hr : ns.run steps = some after) : Keeps steps ns after := by
  induction steps generalizing ns with
  | nil => exact Option.some.inj hr ▸ refl h
  | cons s steps ih =>
    rw [run_cons] at hr
    obtain ⟨mid, hs, hrest⟩ := Option.bind_eq_some_iff.mp hr
    have hstep := step h hs
    exact hstep.trans (ih hstep.sound hrest)

/-- Steps that can always be done and lead back to the block in which they begin. -/
def Returns (steps : List Step) : Prop :=
  ∀ ns : Namespaces, ns.Sound → ∃ after, ns.run steps = some after ∧ after.outer = ns.outer

namespace Returns

theorem nil : Returns [] :=
  fun ns _ => ⟨ns, rfl, rfl⟩

theorem append (h : Returns steps) (k : Returns more) : Returns (steps ++ more) := by
  intro ns hns
  obtain ⟨mid, hmid, houter⟩ := h ns hns
  obtain ⟨after, hafter, houter'⟩ := k mid (Keeps.run hns hmid).sound
  refine ⟨after, ?_, houter'.trans houter⟩
  rw [run_append, hmid]
  exact hafter

theorem plain (hs : s.IsPlain) : Returns [s] := by
  intro ns hns
  cases s with
  | enter c => exact hs.elim
  | leave => exact hs.elim
  | setDefault c => exact ⟨_, rfl, (Stays.setDefault hns c).outer⟩
  | resolve c => exact ⟨_, rfl, (Stays.resolve hns c).outer⟩
  | amend place change => exact ⟨_, rfl, rfl⟩

end Returns

/-- **A block brings back the default namespace.** The place that is kept on entering is the next
one to come back to when the body is over, whatever the body does. -/
theorem run_block {body : List Step} (h : ns.Sound) (c : Choice) (hbody : Returns body) :
    ∃ place n after, ns.place? ns.current = some place ∧ ns.made[place]? = some n ∧
      n.name = ns.current ∧ ns.run (.enter c :: (body ++ [.leave])) = some after ∧
      after.outer = ns.outer ∧ after.current = ns.current ∧
      after.place? after.current = some place ∧
      after.made[place]? = some { n with config := amended place body n.config } := by
  obtain ⟨place, hplace, hsound, hext, houter⟩ := enter_spec h c
  obtain ⟨n, hn, hname⟩ := h.held ns.current place hplace
  obtain ⟨last, hlast, hlastOuter⟩ := hbody (c.enter ns) hsound
  have hkeeps := Keeps.run hsound hlast
  -- The name may stand for another namespace by now, but the one entered from is at its place.
  have hmade := hkeeps.made place n (hext.getElem? hn)
  obtain ⟨after, hleave, -, -, hafterOuter, hafterMade, hcurrent, hafterPlace⟩ :=
    leave_spec hkeeps.sound (hlastOuter.trans houter) hmade
  refine ⟨place, n, after, hplace, hn, hname, ?_, hafterOuter, hcurrent.trans hname, hafterPlace,
    hafterMade ▸ hmade⟩
  rw [run_cons, step?, Option.bind_some, run_append, hlast, Option.bind_some, run_cons, step?,
    hleave]
  rfl

theorem Returns.block {body : List Step} (c : Choice) (hbody : Returns body) :
    Returns (.enter c :: (body ++ [.leave])) := by
  intro ns hns
  obtain ⟨_, _, after, -, -, -, hrun, houter, -⟩ := run_block hns c hbody
  exact ⟨after, hrun, houter⟩

/-- **Well-nested steps lead back** to the block in which they begin, with an error or without. -/
theorem Nested.returns {failed : Bool} (h : Nested failed steps) : Returns steps := by
  induction h with
  | done => exact .nil
  | fail => exact .nil
  | plain hs _ ih => exact (Returns.plain hs).append ih
  | @block _ c body rest _ _ ih ihRest =>
    have hblock := (ih.block c).append ihRest
    rwa [List.cons_append, List.append_assoc, List.singleton_append] at hblock
  | @escape c body _ ih => exact ih.block c
  | handle _ _ ih ihRest => exact ih.append ihRest

theorem default_eq (hplace : ns.place? ns.current = some place) (hn : ns.made[place]? = some n) :
    ns.default = n := by
  rw [default, lookup, hplace, Option.bind_some, hn, Option.getD_some]

/-- Without a change of its own a configuration stays the same. -/
theorem amended_eq_self {config : Config} (h : ∀ change, Step.amend place change ∉ steps) :
    amended place steps config = config := by
  induction steps with
  | nil => rfl
  | cons s steps ih =>
    have hstep : s.amended place config = config := by
      cases s with
      | amend p change =>
        refine if_neg fun hp => h change ?_
        rw [hp]
        exact List.mem_cons_self
      | enter | leave | setDefault | resolve => rfl
    rw [amended, List.foldl_cons, hstep]
    exact ih fun change hmem => h change (List.mem_cons_of_mem s hmem)

/-- **Leaving a block brings back the very namespace that was the default before**, at its place,
with its name and with its configuration, unless that was changed itself. At any time the default
name stands for a namespace, and no name that came up is lost. -/
theorem leave_restores {before body : List Step} {failed : Bool}
    (hbefore : initial.run before = some ns) (hbody : Nested failed body) (c : Choice) :
    ∃ place after, ns.place? ns.current = some place ∧ ns.default.name = ns.current ∧
      ns.run (.enter c :: (body ++ [.leave])) = some after ∧
      after.current = ns.current ∧ after.place? after.current = some place ∧
      after.default = { ns.default with config := amended place body ns.default.config } ∧
      ((∀ change, Step.amend place change ∉ body) → after.default = ns.default) ∧
      ∀ earlier later, .enter c :: (body ++ [.leave]) = earlier ++ later →
        ∃ mid, ns.run earlier = some mid ∧ mid.current ∈ mid.names ∧
          mid.names <+: after.names := by
  have hsound := (Keeps.run sound_initial hbefore).sound
  obtain ⟨place, n, after, hplace, hn, hname, hrun, -, hcurrent, hafterPlace, hmade⟩ :=
    run_block hsound c hbody.returns
  have hdefault := default_eq hplace hn
  have hback := default_eq hafterPlace hmade
  refine ⟨place, after, hplace, hdefault ▸ hname, hrun, hcurrent, hafterPlace, ?_, ?_, ?_⟩
  · rw [hdefault]
    exact hback
  · intro hsame
    rw [hback, hdefault, amended_eq_self hsame]
  · intro earlier later hsteps
    rw [hsteps, run_append] at hrun
    obtain ⟨mid, hmid, hlater⟩ := Option.bind_eq_some_iff.mp hrun
    have hmidSound := (Keeps.run hsound hmid).sound
    exact ⟨mid, hmid, mem_names_iff.mpr hmidSound.current, (Keeps.run hmidSound hlater).names⟩

/-- The name of the namespace outside is given to another one before an error ends two blocks. -/
theorem leave_restores_replaced :
    ∃ ns after, initial.run [.enter (.of (.named "x"))] = some ns ∧
      Nested true [.resolve (.of (.given ⟨"x", {}⟩)), .enter (.again 0), .leave] ∧
      ns.run [.enter (.of (.named "y")), .resolve (.of (.given ⟨"x", {}⟩)), .enter (.again 0),
        .leave, .leave] = some after ∧
      ns.current = "x" ∧ ns.place? "x" = some 1 ∧
      after.current = "x" ∧ after.place? "x" = some 1 := by
  have hbefore : initial.run [.enter (.of (.named "x"))] =
      some ⟨[⟨"Docopt", {}⟩, ⟨"x", {}⟩], [("Docopt", 0), ("x", 1)], "x", [0]⟩ := rfl
  have hbody : Nested true [.resolve (.of (.given ⟨"x", {}⟩)), .enter (.again 0), .leave] :=
    .plain trivial (.escape .fail)
  obtain ⟨place, after, hplace, -, hrun, hcurrent, hafter, -⟩ :=
    leave_restores hbefore hbody (.of (.named "y"))
  obtain rfl : 1 = place := Option.some.inj hplace
  rw [hcurrent] at hafter
  exact ⟨_, after, hbefore, hbody, hrun, rfl, hplace, hcurrent, hafter⟩

end Synopsis.Namespaces
