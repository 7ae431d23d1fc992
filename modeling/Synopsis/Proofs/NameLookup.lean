import Mathlib.Data.List.Nodup
import Synopsis.Arguments

/-!
# Names find bindings

A name stands for the key that it is, and otherwise for the only key that has it as a form. All
ways to ask for a name agree: they give the value of that key, or else none of them finds anything.
More bindings never give a name another key unless the name is one of the new keys.
-/

namespace Synopsis

/-- The name is the bare form or the identifier form of the key. -/
def Name.IsForm (name key : String) : Prop :=
  Name.bare key = name ∨ Name.identifier key = name

namespace Bindings

variable {b more : Bindings} {name key other : String}

/-- **The key that a name stands for**: the name itself, or the only key with that form. -/
inductive StandsFor (b : Bindings) (name : String) : String → Prop
  | itself : name ∈ b.names → StandsFor b name name
  | form {key : String} : name ∉ b.names → key ∈ b.names → Name.IsForm name key →
      (∀ other ∈ b.names, Name.IsForm name other → other = key) → StandsFor b name key

namespace StandsFor

theorem mem_names (h : StandsFor b name key) : key ∈ b.names := by
  cases h with
  | itself hname => exact hname
  | form _ hkey _ _ => exact hkey

/-- **A name stands for one key at most.** -/
theorem unique (h : StandsFor b name key) (k : StandsFor b name other) : key = other := by
  cases h with
  | itself hname =>
    cases k with
    | itself => rfl
    | form hnot _ _ _ => exact absurd hname hnot
  | form hnot hkey hform _ =>
    cases k with
    | itself hname => exact absurd hname hnot
    | form _ _ _ honly => exact honly key hkey hform

end StandsFor

theorem mem_candidates : key ∈ b.candidates name ↔ key ∈ b.names ∧ Name.IsForm name key := by
  rw [candidates, List.mem_filter, Bool.or_eq_true, decide_eq_true_eq, decide_eq_true_eq,
    Name.IsForm]

/-- **What a name resolves to**: the key that it stands for, or else nothing, since no key has that
form or several have it. -/
inductive Resolves (b : Bindings) (name : String) : Except LookupError String → Prop
  | found {key : String} : StandsFor b name key → Resolves b name (.ok key)
  | missing : name ∉ b.names → (∀ key ∈ b.names, ¬ Name.IsForm name key) →
      Resolves b name (.error (.missing name))
  | ambiguous {keys : List String} {key other : String} : name ∉ b.names →
      (∀ key, key ∈ keys ↔ key ∈ b.names ∧ Name.IsForm name key) →
      key ∈ keys → other ∈ keys → key ≠ other → Resolves b name (.error (.ambiguous name keys))

theorem resolves (hn : b.names.Nodup) (name : String) : Resolves b name (b.resolve name) := by
  rw [resolve]
  split
  case isTrue hname => exact .found (.itself hname)
  case isFalse hname =>
    have hmem : ∀ key, key ∈ b.candidates name ↔ key ∈ b.names ∧ Name.IsForm name key :=
      fun key => mem_candidates
    have hnodup : (b.candidates name).Nodup := hn.filter _
    match hkeys : b.candidates name with
    | [] =>
      rw [hkeys] at hmem
      exact .missing hname fun key hkey hform => nomatch (hmem key).mpr ⟨hkey, hform⟩
    | [key] =>
      rw [hkeys] at hmem
      obtain ⟨hkey, hform⟩ := (hmem key).mp (List.mem_singleton.mpr rfl)
      exact .found (.form hname hkey hform fun other hother hotherForm =>
        List.mem_singleton.mp ((hmem other).mpr ⟨hother, hotherForm⟩))
    | key :: other :: rest =>
      rw [hkeys] at hmem hnodup
      have hne : key ≠ other := by
        rintro rfl
        exact (List.nodup_cons.mp hnodup).1 List.mem_cons_self
      exact .ambiguous hname hmem List.mem_cons_self
        (List.mem_cons_of_mem key List.mem_cons_self) hne

/-- A name that stands for a key resolves to it and to nothing else. -/
theorem Resolves.eq_ok {r : Except LookupError String} (hr : Resolves b name r)
    (h : StandsFor b name key) : r = .ok key := by
  cases hr with
  | found hfound => rw [hfound.unique h]
  | missing hnot hnone =>
    cases h with
    | itself hname => exact absurd hname hnot
    | form _ hkey hform _ => exact absurd hform (hnone key hkey)
  | ambiguous hnot hmem hfirst hsecond hne =>
    cases h with
    | itself hname => exact absurd hname hnot
    | form _ _ _ honly =>
      have hall : ∀ other, other ∈ _ → other = key := fun other hother =>
        honly other ((hmem other).mp hother).1 ((hmem other).mp hother).2
      exact absurd ((hall _ hfirst).trans (hall _ hsecond).symm) hne

/-- **A name resolves to the key that it stands for.** -/
theorem resolve_eq_ok_iff (hn : b.names.Nodup) :
    b.resolve name = .ok key ↔ StandsFor b name key := by
  have hr := resolves hn name
  constructor
  · intro h
    rw [h] at hr
    cases hr with
    | found hfound => exact hfound
  · exact hr.eq_ok

/-- **More bindings give a name no other key**, unless it is one of the new keys itself. -/
theorem resolve_of_more (hm : more.names.Nodup) (hsub : b.names ⊆ more.names)
    (hnew : name ∈ more.names → name ∈ b.names) (h : StandsFor b name key) :
    more.resolve name = .ok key ∨ ∃ keys, more.resolve name = .error (.ambiguous name keys) := by
  have hr := resolves hm name
  generalize more.resolve name = r at hr
  cases h with
  | itself hname => exact .inl (hr.eq_ok (.itself (hsub hname)))
  | form hnot hkey hform honly =>
    cases hr with
    | ambiguous => exact .inr ⟨_, rfl⟩
    | missing _ hnone => exact absurd hform (hnone key (hsub hkey))
    | found hfound =>
      cases hfound with
      | itself hname => exact absurd (hnew hname) hnot
      | form _ _ _ honlyMore => rw [honlyMore key (hsub hkey) hform]; exact .inl rfl

theorem exists_get? (h : key ∈ b.names) : ∃ v, b.get? key = some v := by
  obtain ⟨entry, hentry⟩ := Keyed.mem_map_iff.mp h
  exact ⟨entry.2, Option.map_eq_some_iff.mpr ⟨entry, hentry, rfl⟩⟩

theorem find_of_resolve {v : Value} (hr : b.resolve name = .ok key) (hv : b.get? key = some v) :
    b.find name = .ok v := by
  rw [find, hr]
  simp only [bind, Except.bind, hv, pure, Except.pure]

theorem find_of_error {e : LookupError} (hr : b.resolve name = .error e) :
    b.find name = .error e := by
  rw [find, hr]
  rfl

theorem mem_names_of_resolve (hr : b.resolve name = .ok key) : key ∈ b.names := by
  rw [resolve] at hr
  split at hr
  case isTrue hname =>
    obtain rfl := Except.ok.inj hr
    exact hname
  case isFalse =>
    split at hr
    case h_1 => exact nomatch hr
    case h_2 only honly =>
      obtain rfl := Except.ok.inj hr
      have hmem : only ∈ b.candidates name := by simp [honly]
      exact (mem_candidates.mp hmem).1
    case h_3 => exact nomatch hr

theorem has_iff_find : b.has name = true ↔ ∃ v, b.find name = .ok v := by
  rw [has]
  cases hr : b.resolve name with
  | ok key =>
    obtain ⟨v, hv⟩ := exists_get? (mem_names_of_resolve hr)
    exact ⟨fun _ => ⟨v, find_of_resolve hr hv⟩, fun _ => rfl⟩
  | error e =>
    rw [find_of_error hr]
    exact ⟨fun h => absurd h Bool.false_ne_true, fun ⟨_, h⟩ => nomatch h⟩

/-- **A key of any type is contained exactly if it has a value**, and asking with a default gives
that value, or the default if looking the key up fails. -/
theorem item_agrees (b : Bindings) (key : Key) :
    (b.contains key = true ↔ ∃ v, b.item key = .ok v) ∧
    (∀ v default, b.item key = .ok v → b.queryItem key default = .ok v) ∧
    ∀ e default, b.item key = .error (.lookup e) → b.queryItem key default = .ok default := by
  refine ⟨?_, fun v default h => by rw [queryItem, h], fun e default h => by rw [queryItem, h]⟩
  cases key with
  | text name =>
    rw [contains, has_iff_find, item]
    cases b.find name <;> simp [Except.mapError]
  | other shown => simp [contains, item]
  | unhashable type => simp [contains, item]

end Bindings

namespace Arguments

/-- **Every way to ask for the name gives the value.** An attribute is asked for by a name that no
member has and that does not start with two underscores. -/
structure Finds (a : Arguments) (name : String) (v : Value) : Prop where
  has : a.bindings.has name = true
  find : a.bindings.find name = .ok v
  query : ∀ default, a.bindings.query name default = v
  attr : Member.ofName? name = none → ¬ "__".toList <+: name.toList →
    a.attribute? name = some (.value v)

/-- **No way to ask for the name finds anything.** -/
structure Misses (a : Arguments) (name : String) : Prop where
  has : a.bindings.has name = false
  find : ∃ e, a.bindings.find name = .error e
  query : ∀ default, a.bindings.query name default = default
  attr : Member.ofName? name = none → ¬ "__".toList <+: name.toList →
    a.attribute? name = none

variable {a : Arguments} {name key : String}

theorem attribute?_eq (hm : Member.ofName? name = none) (hp : ¬ "__".toList <+: name.toList) :
    a.attribute? name = (a.bindings.find name).toOption.map .value := by
  have hprefix : ¬ "__".toList.isPrefixOf name.toList = true :=
    fun h => hp (List.isPrefixOf_iff_prefix.mp h)
  rw [attribute?, hm]
  dsimp only
  rw [if_neg hprefix]
  cases a.bindings.find name with
  | ok v => rfl
  | error e => rfl

theorem finds {v : Value} (hr : a.bindings.resolve name = .ok key)
    (hv : a.bindings.get? key = some v) : a.Finds name v := by
  have hfind := Bindings.find_of_resolve hr hv
  refine ⟨?_, hfind, fun default => ?_, fun hm hp => ?_⟩
  · rw [Bindings.has, hr]
    rfl
  · rw [Bindings.query, hfind]
  · rw [attribute?_eq hm hp, hfind]
    rfl

theorem misses {e : LookupError} (hr : a.bindings.resolve name = .error e) : a.Misses name := by
  have hfind := Bindings.find_of_error hr
  refine ⟨?_, ⟨e, hfind⟩, fun default => ?_, fun hm hp => ?_⟩
  · rw [Bindings.has, hr]
    rfl
  · rw [Bindings.query, hfind]
  · rw [attribute?_eq hm hp, hfind]
    rfl

/-- **A name means the same to all who ask.** It resolves to the key that it stands for, whose value
is found in every way, and to nothing if it stands for none; with more bindings it keeps its key or
becomes ambiguous, unless it is a new key itself. -/
theorem lookup_agrees (a : Arguments) (hn : a.bindings.names.Nodup) (name : String) :
    (∀ key, a.bindings.resolve name = .ok key ↔ a.bindings.StandsFor name key) ∧
    (∀ key, a.bindings.StandsFor name key →
      ∃ v, a.bindings.get? key = some v ∧ a.Finds name v) ∧
    ((∀ key, ¬ a.bindings.StandsFor name key) → a.Misses name) ∧
    ∀ more : Bindings, more.names.Nodup → a.bindings.names ⊆ more.names →
      (name ∈ more.names → name ∈ a.bindings.names) →
      ∀ key, a.bindings.resolve name = .ok key →
        more.resolve name = .ok key ∨
          ∃ keys, more.resolve name = .error (.ambiguous name keys) := by
  refine ⟨fun key => Bindings.resolve_eq_ok_iff hn, fun key h => ?_, fun hnone => ?_,
    fun more hm hsub hnew key hkey => ?_⟩
  · obtain ⟨v, hv⟩ := Bindings.exists_get? h.mem_names
    exact ⟨v, hv, finds ((Bindings.resolve_eq_ok_iff hn).mpr h) hv⟩
  · cases hr : a.bindings.resolve name with
    | ok key => exact absurd ((Bindings.resolve_eq_ok_iff hn).mp hr) (hnone key)
    | error e => exact misses hr
  · exact Bindings.resolve_of_more hm hsub hnew ((Bindings.resolve_eq_ok_iff hn).mp hkey)

/-- An option by its identifier, which an argument of the same identifier makes ambiguous. -/
theorem lookup_agrees_identifier :
    ∃ a : Arguments, a.bindings = [("--dry-run", .flag true), ("<x>", .text "1")] ∧
      a.bindings.names.Nodup ∧ a.bindings.StandsFor "dry_run" "--dry-run" ∧
      a.Finds "dry_run" (.flag true) ∧
      ∃ keys, Bindings.resolve (a.bindings ++ [("<dry_run>", .absent)]) "dry_run" =
        .error (.ambiguous "dry_run" keys) := by
  have hn : (Bindings.names [("--dry-run", .flag true), ("<x>", .text "1")]).Nodup := by decide
  obtain ⟨hresolve, hfinds, -, hmore⟩ := lookup_agrees
    ⟨"prog", [], true, [("--dry-run", .flag true), ("<x>", .text "1")], none, [], none⟩ hn
    "dry_run"
  have hstands := (hresolve "--dry-run").mp rfl
  obtain ⟨v, hv, hfound⟩ := hfinds "--dry-run" hstands
  obtain rfl : .flag true = v := Option.some.inj hv
  have hgrown := hmore
    [("--dry-run", .flag true), ("<x>", .text "1"), ("<dry_run>", .absent)] (by decide)
    (List.subset_append_left ["--dry-run", "<x>"] ["<dry_run>"]) (by decide) "--dry-run" rfl
  rcases hgrown with hkept | hambiguous
  · exact nomatch hkept
  · exact ⟨_, rfl, hn, hstands, hfound, hambiguous⟩

end Arguments

end Synopsis
