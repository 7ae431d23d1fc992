import Mathlib.Data.List.Basic
import Synopsis.Proofs.NestedNamespaces
import Synopsis.Proofs.OutputSteps
import Synopsis.Proofs.Serving

/-!
# Programs are kept apart

Everything that can be done in a session goes in steps: programs are declared, read command lines,
are registered again or forgotten; help texts are compiled; namespaces are entered, left and
changed; texts are sent and captured. A world is a session with the programs declared so far. A
program, once declared, is served from then on, so it makes of a command line what it made of it at
first.
-/

namespace Synopsis

namespace Session

variable {s t u : Session} {p q : Program} {i : Interface} {source : String}
  {settings : Settings} {number : Nat} {programs : List Program}

/-- **What making an interface does**: the help text is compiled, and if that and the settings make
an interface it is kept. -/
inductive Analyses (s : Session) (number : Nat) (source : String) (settings : Settings) :
    Session × Except HelpError (Compiled × Interface) → Prop
  | kept {compiled : Compiled} {i : Interface} : Grammar.ofHelp source = .ok compiled.grammar →
      Interface.make compiled.grammar settings = .ok i →
      Analyses s number source settings
        ({ s with
            cache := (s.cache.compile source).1
            interfaces := Keyed.put Prod.fst (number, i) s.interfaces },
          .ok (compiled, i))
  | refused {e : HelpError} :
      Analyses s number source settings
        ({ s with cache := (s.cache.compile source).1 }, .error e)

theorem analyses (hc : s.cache.Honest) (number : Nat) (source : String) (settings : Settings) :
    Analyses s number source settings (s.analyse number source settings) := by
  have ht := hc.transparent source
  rw [analyse]
  rcases hresult : s.cache.compile source with ⟨cache, e | compiled⟩
  · have hcache : cache = (s.cache.compile source).1 := by rw [hresult]
    rw [hcache]
    exact .refused
  · have hcache : cache = (s.cache.compile source).1 := by rw [hresult]
    rw [hresult] at ht
    dsimp only
    rw [hcache]
    cases hi : Interface.make compiled.grammar settings with
    | error e => exact .refused
    | ok i => exact .kept ht.symm hi

/-- **What declaring a program does**: its namespace is resolved, its settings are merged, and an
interface of a new number is made of them. -/
inductive Declares (s : Session) (source : String) (config : Config) (home : Option NamespaceRef) :
    Session × Except DeclareError Program → Prop
  | unnamed {key : String} : Declares s source config home
      ({ s with namespaces := (homeOf s.namespaces home).1 }, .error (.unnamed key))
  | refused {e : HelpError} : Declares s source config home
      ({ s with
          cache := (s.cache.compile source).1
          namespaces := (homeOf s.namespaces home).1
          declared := s.declared + 1 },
        .error (.help e))
  | made {settings : Settings} {compiled : Compiled} {i : Interface} :
      config.merge (homeOf s.namespaces home).2.config = .ok settings →
      Grammar.ofHelp source = .ok compiled.grammar →
      Interface.make compiled.grammar settings = .ok i →
      Declares s source config home
        ({ s with
            cache := (s.cache.compile source).1
            namespaces := (homeOf s.namespaces home).1
            interfaces := Keyed.put Prod.fst (s.declared, i) s.interfaces
            declared := s.declared + 1 },
          .ok ⟨s.declared, source, (homeOf s.namespaces home).2.name, settings, compiled⟩)

theorem declares (hc : s.cache.Honest) (source : String) (config : Config)
    (home : Option NamespaceRef) :
    Declares s source config home (s.declare source config home) := by
  rw [declare]
  dsimp only
  cases hm : config.merge (homeOf s.namespaces home).2.config with
  | error key => exact .unnamed
  | ok settings =>
    let opened : Session :=
      { s with namespaces := (homeOf s.namespaces home).1, declared := s.declared + 1 }
    have hopened : opened.cache.Honest := hc
    have hanalyses := analyses hopened s.declared source settings
    dsimp only
    generalize opened.analyse s.declared source settings = result at hanalyses
    cases hanalyses with
    | kept hs hi => exact .made hm hs hi
    | refused => exact .refused

/-- **The session keeps programs** if it serves each of them as before. -/
structure Keeps (programs : List Program) (s t : Session) : Prop where
  honest : t.cache.Honest
  declared : s.declared ≤ t.declared
  serves : ∀ p ∈ programs, ∀ i, s.Serves p i → t.Serves p i

namespace Keeps

theorem of_interfaces (hc : t.cache.Honest) (hi : t.interfaces = s.interfaces)
    (hd : s.declared ≤ t.declared) : Keeps programs s t := by
  refine ⟨hc, hd, fun p _ i h => ⟨hc, h.source, h.made, ?_⟩⟩
  rw [hi]
  exact h.kept

theorem refl (hc : s.cache.Honest) : Keeps programs s s :=
  of_interfaces hc rfl (Nat.le_refl _)

theorem trans (h : Keeps programs s t) (h' : Keeps programs t u) : Keeps programs s u :=
  ⟨h'.honest, Nat.le_trans h.declared h'.declared,
    fun p hp i hs => h'.serves p hp i (h.serves p hp i hs)⟩

theorem of_subset {more : List Program} (h : Keeps more s t) (hsub : programs ⊆ more) :
    Keeps programs s t :=
  ⟨h.honest, h.declared, fun p hp => h.serves p (hsub hp)⟩

/-- An interface put aside keeps programs if theirs are others or the same. -/
theorem of_put {number : Nat} {j : Interface} (hc : t.cache.Honest)
    (hi : t.interfaces = Keyed.put Prod.fst (number, j) s.interfaces) (hd : s.declared ≤ t.declared)
    (hown : ∀ p ∈ programs, ∀ i, s.Serves p i → number = p.number → j = i) :
    Keeps programs s t := by
  refine ⟨hc, hd, fun p hp i h => ⟨hc, h.source, h.made, fun entry hentry => ?_⟩⟩
  rw [hi, Keyed.get?_put] at hentry
  by_cases hnumber : number = p.number
  · rw [if_pos hnumber] at hentry
    rw [← Option.some.inj hentry, ← hown p hp i h hnumber]
  · rw [if_neg hnumber] at hentry
    exact h.kept entry hentry

/-- Making the interface of a program again keeps it and other programs. -/
theorem analyse (hc : s.cache.Honest) (hown : ∀ p ∈ programs, q.number = p.number → q = p) :
    Keeps programs s (s.analyse q.number q.source q.settings).1 := by
  have hcompile := hc.compile q.source
  have hanalyses := analyses hc q.number q.source q.settings
  generalize s.analyse q.number q.source q.settings = result at hanalyses
  cases hanalyses with
  | refused => exact of_interfaces hcompile rfl (Nat.le_refl _)
  | @kept compiled j hs hj =>
    refine of_put hcompile rfl (Nat.le_refl _) fun p hp i h hnumber => ?_
    obtain rfl := hown p hp hnumber
    have hgrammar : compiled.grammar = q.compiled.grammar := Except.ok.inj (hs.symm.trans h.source)
    rw [hgrammar, h.made] at hj
    exact (Except.ok.inj hj).symm

theorem interface (hc : s.cache.Honest) (hown : ∀ p ∈ programs, q.number = p.number → q = p) :
    Keeps programs s (s.interface q).1 := by
  have hanalyse := analyse hc hown
  rw [Session.interface]
  cases Keyed.get? Prod.fst q.number s.interfaces with
  | some entry => exact refl hc
  | none =>
    generalize s.analyse q.number q.source q.settings = result at hanalyse
    obtain ⟨t, e | made⟩ := result <;> exact hanalyse

theorem parse (hc : s.cache.Honest) (hown : ∀ p ∈ programs, q.number = p.number → q = p)
    (arguments : List String) : Keeps programs s (s.parse q arguments).1 := by
  have hinterface := interface hc hown
  rw [Session.parse, Session.read]
  generalize s.interface q = result at hinterface
  obtain ⟨t, e | j⟩ := result
  · exact hinterface
  · dsimp only
    cases (j.process arguments).answer? with
    | none => exact hinterface
    | some text => exact hinterface.trans (of_interfaces hinterface.honest rfl (Nat.le_refl _))

theorem forget (hc : s.cache.Honest) (q : Program) : Keeps programs s (s.forget q) :=
  ⟨hc, (Nat.le_refl _), fun _ _ _ h => h.forget q⟩

theorem declare (hc : s.cache.Honest) (hnew : ∀ p ∈ programs, p.number < s.declared)
    (source : String) (config : Config) (home : Option NamespaceRef) :
    Keeps programs s (s.declare source config home).1 := by
  have hcompile := hc.compile source
  have hdeclares := declares hc source config home
  generalize s.declare source config home = result at hdeclares
  cases hdeclares with
  | unnamed => exact of_interfaces hc rfl (Nat.le_refl _)
  | refused => exact of_interfaces hcompile rfl (Nat.le_succ _)
  | made =>
    refine of_put hcompile rfl (Nat.le_succ _) fun p hp _ _ hnumber => ?_
    have hlt := hnew p hp
    omega

end Keeps

end Session

/-- A session and the programs declared in it so far, the earlier ones first. -/
structure World where
  session : Session := {}
  programs : List Program := []

namespace World

variable {w : World} {p : Program} {i : Interface} {source : String} {config : Config}
  {home : Option NamespaceRef}

/-- What is done in a world. Programs are meant by their places. -/
inductive Step where
  | declare (source : String) (config : Config) (home : Option NamespaceRef)
  | parse (place : Nat) (arguments : List String)
  /-- The interface of a program is made again. -/
  | register (place : Nat)
  | forget (place : Nat)
  | cache (s : GrammarCache.Step)
  | namespaces (s : Namespaces.Step)
  /-- The namespace that is meant is changed; it is made if there is none. -/
  | configure (r : NamespaceRef) (change : Config → Config)
  | output (s : Output.Step)

/-- Something is done for the program at a place, if there is one. -/
def forProgram (w : World) (place : Nat) (f : Session → Program → Session) : World :=
  match w.programs[place]? with
  | some p => { w with session := f w.session p }
  | none => w

def withNamespaces (w : World) (namespaces : Namespaces) : World :=
  { w with session := { w.session with namespaces } }

/-- The world after a step. A step that fails leaves what it had changed by then. -/
def step (w : World) : Step → World
  | .declare source config home =>
    match w.session.declare source config home with
    | (session, .ok p) => ⟨session, w.programs ++ [p]⟩
    | (session, .error _) => { w with session }
  | .parse place arguments => w.forProgram place fun s p => (s.parse p arguments).1
  | .register place => w.forProgram place fun s p => (s.analyse p.number p.source p.settings).1
  | .forget place => w.forProgram place Session.forget
  | .cache s => { w with session := { w.session with cache := w.session.cache.step s } }
  | .namespaces s =>
    w.withNamespaces ((w.session.namespaces.step? s).getD w.session.namespaces)
  | .configure r change => w.withNamespaces (w.session.namespaces.configure r change)
  | .output s => { w with session := { w.session with output := w.session.output.step s } }

/-- The world after some steps. -/
def run (w : World) (steps : List Step) : World :=
  steps.foldl step w

/-- The cache is honest, and no two programs have one number. -/
structure Sound (w : World) : Prop where
  honest : w.session.cache.Honest
  numbered : ∀ p ∈ w.programs, p.number < w.session.declared
  apart : ∀ p ∈ w.programs, ∀ q ∈ w.programs, q.number = p.number → q = p

theorem sound_initial : Sound {} where
  honest := GrammarCache.honest_initial
  numbered _ h := absurd h List.not_mem_nil
  apart _ h := absurd h List.not_mem_nil

/-- **A step keeps the programs** that there are, and there is at most one more: it has a new
number. -/
structure Goes (w v : World) : Prop where
  keeps : w.session.Keeps w.programs v.session
  programs : v.programs = w.programs ∨
    ∃ p : Program, v.programs = w.programs ++ [p] ∧ p.number = w.session.declared ∧
      p.number < v.session.declared

namespace Sound

variable {v : World}

theorem of_goes (h : w.Sound) (hg : w.Goes v) : v.Sound := by
  have hle := hg.keeps.declared
  rcases hg.programs with hsame | ⟨new, hmore, hnumber, hlt⟩
  · refine ⟨hg.keeps.honest, fun p hp => ?_, hsame ▸ h.apart⟩
    have hold := h.numbered p (hsame ▸ hp)
    omega
  · have hnew : ∀ p ∈ w.programs, p.number < new.number := fun p hp => hnumber ▸ h.numbered p hp
    refine ⟨hg.keeps.honest, fun p hp => ?_, fun p hp q hq hpq => ?_⟩
    · rw [hmore, List.mem_append, List.mem_singleton] at hp
      rcases hp with hp | rfl
      · have hold := h.numbered p hp
        omega
      · exact hlt
    · rw [hmore, List.mem_append, List.mem_singleton] at hp hq
      rcases hp with hp | rfl <;> rcases hq with hq | rfl
      · exact h.apart p hp q hq hpq
      · have hne := hnew p hp
        omega
      · have hne := hnew q hq
        omega
      · rfl

theorem goes_session {t : Session} (hk : w.session.Keeps w.programs t) :
    w.Goes { w with session := t } :=
  ⟨hk, .inl rfl⟩

theorem goes_forProgram (h : w.Sound) (place : Nat) {f : Session → Program → Session}
    (hf : ∀ q ∈ w.programs, w.session.Keeps w.programs (f w.session q)) :
    w.Goes (w.forProgram place f) := by
  rw [forProgram]
  cases hq : w.programs[place]? with
  | none => exact goes_session (.refl h.honest)
  | some q => exact goes_session (hf q (List.mem_of_getElem? hq))

theorem goes_withNamespaces (h : w.Sound) (namespaces : Namespaces) :
    w.Goes (w.withNamespaces namespaces) :=
  goes_session (.of_interfaces h.honest rfl (Nat.le_refl _))

theorem goes_declare (h : w.Sound) (source : String) (config : Config)
    (home : Option NamespaceRef) : w.Goes (w.step (.declare source config home)) := by
  have hkeeps := Session.Keeps.declare h.honest h.numbered source config home
  have hdeclares := Session.declares h.honest source config home
  rw [step]
  generalize w.session.declare source config home = result at hkeeps hdeclares
  cases hdeclares with
  | unnamed | refused => exact goes_session hkeeps
  | made => exact ⟨hkeeps, .inr ⟨_, rfl, rfl, Nat.lt_succ_self _⟩⟩

theorem goes_step (h : w.Sound) (s : Step) : w.Goes (w.step s) := by
  cases s with
  | declare source config home => exact h.goes_declare source config home
  | parse place arguments =>
    show w.Goes (w.forProgram place fun s p => (s.parse p arguments).1)
    refine h.goes_forProgram place fun q hq => ?_
    exact .parse h.honest (fun p hp hpq => h.apart p hp q hq hpq) arguments
  | register place =>
    show w.Goes (w.forProgram place fun s p => (s.analyse p.number p.source p.settings).1)
    refine h.goes_forProgram place fun q hq => ?_
    exact .analyse h.honest fun p hp hpq => h.apart p hp q hq hpq
  | forget place => exact h.goes_forProgram place fun q _ => .forget h.honest q
  | cache s => exact goes_session (.of_interfaces (h.honest.step s) rfl (Nat.le_refl _))
  | output s => exact goes_session (.of_interfaces h.honest rfl (Nat.le_refl _))
  | namespaces | configure => exact h.goes_withNamespaces _

end Sound

theorem Goes.subset {v : World} (h : w.Goes v) : w.programs ⊆ v.programs := by
  rcases h.programs with hsame | ⟨new, hmore, -⟩
  · rw [hsame]
    exact List.Subset.refl _
  · rw [hmore]
    exact List.subset_append_left _ _

theorem sound_run (h : w.Sound) (steps : List Step) : (w.run steps).Sound := by
  induction steps generalizing w with
  | nil => exact h
  | cons s steps ih => exact ih (h.of_goes (h.goes_step s))

/-- **A run keeps the programs** that were declared before it. -/
theorem keeps_run (h : w.Sound) (steps : List Step) :
    w.session.Keeps w.programs (w.run steps).session := by
  induction steps generalizing w with
  | nil => exact .refl h.honest
  | cons s steps ih =>
    have hgoes := h.goes_step s
    have hrest := ih (h.of_goes hgoes)
    exact hgoes.keeps.trans (hrest.of_subset hgoes.subset)

/-- A program just declared is served, by the interface of its help text and of the settings merged
then. -/
theorem serves_declared (h : w.Sound) (hp : (w.session.declare source config home).2 = .ok p) :
    ∃ settings i, p ∈ (w.step (.declare source config home)).programs ∧
      config.merge (Session.homeOf w.session.namespaces home).2.config = .ok settings ∧
      Grammar.ofHelp source = .ok p.compiled.grammar ∧
      Interface.make p.compiled.grammar settings = .ok i ∧
      (w.step (.declare source config home)).session.Serves p i := by
  have hcompile := h.honest.compile source
  have hdeclares := Session.declares h.honest source config home
  rw [step]
  generalize w.session.declare source config home = result at hp hdeclares
  cases hdeclares with
  | unnamed => exact nomatch hp
  | refused => exact nomatch hp
  | @made settings compiled i hm hs hi =>
    obtain rfl := Except.ok.inj hp
    refine ⟨settings, i, List.mem_append_right _ (List.mem_singleton_self _), hm, hs, hi,
      hcompile, hs, hi, fun entry hentry => ?_⟩
    rw [Keyed.get?_put, if_pos rfl] at hentry
    rw [← Option.some.inj hentry]

/-- **A program is isolated from everything done after its declaration.** In a world that went
through any steps a program is declared. Whatever is done after that, it makes of each command line
what it would have made of it at once, which is what its help text and the settings merged at its
declaration say. -/
theorem parse_isolated {before : List Step}
    (hp : ((({} : World).run before).session.declare source config home).2 = .ok p) :
    let declared := ({} : World).run (before ++ [.declare source config home])
    ∃ settings i,
      config.merge (Session.homeOf (({} : World).run before).session.namespaces home).2.config =
        .ok settings ∧
      Grammar.ofHelp source = .ok p.compiled.grammar ∧
      Interface.make p.compiled.grammar settings = .ok i ∧
      ∀ after arguments,
        ((declared.run after).session.parse p arguments).2 =
            (declared.session.parse p arguments).2 ∧
        (declared.session.parse p arguments).2 = i.parse arguments := by
  intro declared
  have hbefore := sound_run sound_initial before
  obtain ⟨settings, i, hmem, hm, hs, hi, hserves⟩ := serves_declared hbefore hp
  have hdeclared : declared = (({} : World).run before).step (.declare source config home) :=
    List.foldl_append
  have hsound : declared.Sound := hdeclared ▸ hbefore.of_goes (hbefore.goes_step _)
  rw [← hdeclared] at hmem hserves
  refine ⟨settings, i, hm, hs, hi, fun after arguments => ?_⟩
  have hafter := (keeps_run hsound after).serves p hmem i hserves
  exact ⟨(hafter.parse arguments).trans (hserves.parse arguments).symm, hserves.parse arguments⟩

/-- A program keeps the settings of its namespace when that is changed, the cache is emptied and its
interface is forgotten. -/
theorem parse_isolated_after_change :
    let before : List Step := [.namespaces (.setDefault (.of (.named "tools")))]
    let declared := ({} : World).run (before ++ [.declare "Usage: p <x>" {} none])
    let changed := declared.run
      [.configure (.named "tools") fun c => { c with optionsFirst := some true },
        .namespaces (.enter (.again 0)), .cache .clear, .forget 0]
    ∃ p, ((({} : World).run before).session.declare "Usage: p <x>" {} none).2 = .ok p ∧
      ∀ arguments,
        (changed.session.parse p arguments).2 = (declared.session.parse p arguments).2 := by
  intro before declared changed
  have hm : Config.merge {}
      (Session.homeOf (({} : World).run before).session.namespaces none).2.config = .ok _ := rfl
  have hbefore := (sound_run sound_initial before).honest
  obtain ⟨p, hp, -⟩ := Session.declare_spec hbefore Session.ofHelp_argument hm rfl
  obtain ⟨_, _, _, _, _, hall⟩ := parse_isolated hp
  exact ⟨p, hp, fun arguments => (hall _ arguments).1⟩

end World

end Synopsis
