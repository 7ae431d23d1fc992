import Mathlib.Data.List.Forall2
import Synopsis.Proofs.Consistency
import Synopsis.Proofs.UsageFaults

/-!
# How a usage line covers the declared options

The tree that a usage line is parsed to has empty shortcuts. The line keeps the tree around them and
gives each of them the declared options that nothing in the tree names, in the order in which they
are declared. So each declared option is named outside the shortcuts or stands in each of them once.
Earlier lines bear on how a line is parsed, by the options that they add, and on nothing else.
-/

namespace Synopsis

namespace Pattern

mutual

/-- The children of each shortcut, from left to right. -/
def shortcuts : Pattern → List (List Pattern)
  | leaf _ => []
  | required ps => shortcutsAll ps
  | optional ps => shortcutsAll ps
  | shortcut ps => ps :: shortcutsAll ps
  | either ps => shortcutsAll ps
  | oneOrMore p => shortcuts p

def shortcutsAll : List Pattern → List (List Pattern)
  | [] => []
  | p :: ps => shortcuts p ++ shortcutsAll ps

end

mutual

/-- The leaves that stand in no shortcut, from left to right. -/
def outside : Pattern → List Leaf
  | leaf l => [l]
  | required ps => outsideAll ps
  | optional ps => outsideAll ps
  | shortcut _ => []
  | either ps => outsideAll ps
  | oneOrMore p => outside p

def outsideAll : List Pattern → List Leaf
  | [] => []
  | p :: ps => outside p ++ outsideAll ps

end

/-- The names of the options that stand in no shortcut. -/
def namesOutside (p : Pattern) : List String :=
  (p.outside.filterMap Leaf.option?).map OptionDef.name

mutual

/-- **The same tree**, but for the children of its shortcuts. -/
inductive SameOutside : Pattern → Pattern → Prop
  | leaf {l} : SameOutside (.leaf l) (.leaf l)
  | required {ps qs} : SameOutsideAll ps qs → SameOutside (.required ps) (.required qs)
  | optional {ps qs} : SameOutsideAll ps qs → SameOutside (.optional ps) (.optional qs)
  | shortcut {ps qs} : SameOutside (.shortcut ps) (.shortcut qs)
  | either {ps qs} : SameOutsideAll ps qs → SameOutside (.either ps) (.either qs)
  | oneOrMore {p q} : SameOutside p q → SameOutside (.oneOrMore p) (.oneOrMore q)

inductive SameOutsideAll : List Pattern → List Pattern → Prop
  | nil : SameOutsideAll [] []
  | cons {p q ps qs} : SameOutside p q → SameOutsideAll ps qs →
      SameOutsideAll (p :: ps) (q :: qs)

end

/-- **The line that a tree becomes**: the same tree, where each shortcut has the declared options
that the line does not name elsewhere, in the order in which they are declared. -/
structure Covers (declared : OptionTable) (tree line : Pattern) : Prop where
  same : SameOutside tree line
  children : ∀ os ∈ line.shortcuts,
    os = (declared.options.filter fun o => o.name ∉ line.namesOutside).map ofOption

variable {p q : Pattern} {ps os : List Pattern} {declared t u : OptionTable}
  {tree line line' : Pattern} {s : List Lexeme}

mutual

theorem SameOutside.outside_eq : ∀ {p q}, SameOutside p q → p.outside = q.outside
  | _, _, .leaf => rfl
  | _, _, .required h => h.outsideAll_eq
  | _, _, .optional h => h.outsideAll_eq
  | _, _, .shortcut => rfl
  | _, _, .either h => h.outsideAll_eq
  | _, _, .oneOrMore h => h.outside_eq

theorem SameOutsideAll.outsideAll_eq : ∀ {ps qs}, SameOutsideAll ps qs →
    outsideAll ps = outsideAll qs
  | _, _, .nil => rfl
  | _, _, .cons h hmore => congrArg₂ (· ++ ·) h.outside_eq hmore.outsideAll_eq

end

theorem SameOutside.namesOutside_eq (h : SameOutside p q) : p.namesOutside = q.namesOutside := by
  rw [namesOutside, namesOutside, h.outside_eq]

mutual

/-- A tree and the children of its shortcuts make the line. -/
theorem SameOutside.eq_fill : ∀ {p q}, SameOutside p q → (∀ qs ∈ q.shortcuts, qs = os) →
    q = fill os p
  | _, _, .leaf, _ => rfl
  | _, _, .required h, hos => congrArg Pattern.required (h.eq_fillAll hos)
  | _, _, .optional h, hos => congrArg Pattern.optional (h.eq_fillAll hos)
  | _, _, .shortcut, hos => congrArg Pattern.shortcut (hos _ List.mem_cons_self)
  | _, _, .either h, hos => congrArg Pattern.either (h.eq_fillAll hos)
  | _, _, .oneOrMore h, hos => congrArg Pattern.oneOrMore (h.eq_fill hos)

theorem SameOutsideAll.eq_fillAll : ∀ {ps qs}, SameOutsideAll ps qs →
    (∀ rs ∈ shortcutsAll qs, rs = os) → qs = fillAll os ps
  | _, _, .nil, _ => rfl
  | _, _, .cons h hmore, hos => by
    obtain ⟨hfirst, hlater⟩ := List.forall_mem_append.mp hos
    rw [fillAll, ← h.eq_fill hfirst, ← hmore.eq_fillAll hlater]

end

mutual

theorem sameOutside_fill : ∀ p : Pattern, SameOutside p (fill os p)
  | .leaf _ => .leaf
  | .required ps => .required (sameOutsideAll_fillAll ps)
  | .optional ps => .optional (sameOutsideAll_fillAll ps)
  | .shortcut _ => .shortcut
  | .either ps => .either (sameOutsideAll_fillAll ps)
  | .oneOrMore p => .oneOrMore (sameOutside_fill p)

theorem sameOutsideAll_fillAll : ∀ ps : List Pattern, SameOutsideAll ps (fillAll os ps)
  | [] => .nil
  | p :: ps => .cons (sameOutside_fill p) (sameOutsideAll_fillAll ps)

end

mutual

theorem eq_of_mem_shortcuts_fill (hos : shortcutsAll os = []) : ∀ p : Pattern,
    ∀ qs ∈ (fill os p).shortcuts, qs = os
  | .leaf _, _, h => nomatch h
  | .required ps, qs, h => eq_of_mem_shortcutsAll_fillAll hos ps qs h
  | .optional ps, qs, h => eq_of_mem_shortcutsAll_fillAll hos ps qs h
  | .shortcut _, qs, h => by
    rw [fill, shortcuts, hos] at h
    exact List.mem_singleton.mp h
  | .either ps, qs, h => eq_of_mem_shortcutsAll_fillAll hos ps qs h
  | .oneOrMore p, qs, h => eq_of_mem_shortcuts_fill hos p qs h

theorem eq_of_mem_shortcutsAll_fillAll (hos : shortcutsAll os = []) : ∀ ps : List Pattern,
    ∀ qs ∈ shortcutsAll (fillAll os ps), qs = os
  | [], _, h => nomatch h
  | p :: ps, qs, h => by
    rcases List.mem_append.mp h with h | h
    · exact eq_of_mem_shortcuts_fill hos p qs h
    · exact eq_of_mem_shortcutsAll_fillAll hos ps qs h

end

mutual

theorem leaves_fill_nil : ∀ p : Pattern, (fill [] p).leaves = p.outside
  | .leaf _ => rfl
  | .required ps => leavesAll_fillAll_nil ps
  | .optional ps => leavesAll_fillAll_nil ps
  | .shortcut _ => rfl
  | .either ps => leavesAll_fillAll_nil ps
  | .oneOrMore p => leaves_fill_nil p

theorem leavesAll_fillAll_nil : ∀ ps : List Pattern, leavesAll (fillAll [] ps) = outsideAll ps
  | [] => rfl
  | p :: ps => congrArg₂ (· ++ ·) (leaves_fill_nil p) (leavesAll_fillAll_nil ps)

end

theorem shortcutsAll_map_ofOption (l : List OptionDef) : shortcutsAll (l.map ofOption) = [] := by
  induction l with
  | nil => rfl
  | cons o l ih => exact ih

/-- Filling the empty shortcuts of a tree makes the line. -/
theorem covers_fill (h : fill [] tree = tree) :
    Covers declared tree (fill (unnamed declared tree) tree) := by
  have hleaves : tree.leaves = tree.outside := by rw [← leaves_fill_nil, h]
  have hsame : SameOutside tree (fill (unnamed declared tree) tree) := sameOutside_fill tree
  have hunnamed : unnamed declared tree =
      (declared.options.filter fun o => o.name ∉ tree.namesOutside).map ofOption := by
    rw [unnamed, hleaves]
    refine congrArg _ (List.filter_congr fun o _ => ?_)
    rw [List.contains_eq_mem, decide_not]
    rfl
  refine ⟨hsame, fun os hos => ?_⟩
  rw [← hsame.namesOutside_eq, ← hunnamed]
  exact eq_of_mem_shortcuts_fill (shortcutsAll_map_ofOption _) tree os hos

/-- A tree becomes one line only. -/
theorem Covers.unique (h : Covers declared tree line) (k : Covers declared tree line') :
    line' = line := by
  have hnames : line'.namesOutside = line.namesOutside :=
    k.same.namesOutside_eq.symm.trans h.same.namesOutside_eq
  have hchildren := k.children
  rw [hnames] at hchildren
  rw [h.same.eq_fill h.children, k.same.eq_fill hchildren]

/-- A shortcut has a declared option once, or not at all if the line names it elsewhere. -/
theorem Covers.count_name (h : Covers declared tree line) (hos : os ∈ line.shortcuts)
    {o : OptionDef} (ho : o ∈ declared.options) :
    ((optionsAll os).map OptionDef.name).count o.name =
      if o.name ∈ line.namesOutside then 0 else 1 := by
  have hnodup : ((declared.options.filter fun o => o.name ∉ line.namesOutside).map
      OptionDef.name).Nodup :=
    declared.distinct.sublist (List.filter_sublist.map _)
  have hmem : o.name ∈ (declared.options.filter fun o => o.name ∉ line.namesOutside).map
      OptionDef.name ↔ o.name ∉ line.namesOutside := by
    constructor
    · intro hname
      obtain ⟨o', ho', hsame⟩ := List.mem_map.mp hname
      rw [← hsame]
      simpa using (List.mem_filter.mp ho').2
    · intro hname
      exact List.mem_map_of_mem (List.mem_filter.mpr ⟨ho, by simpa using hname⟩)
  rw [h.children os hos, optionsAll_map_ofOption, hnodup.count, if_congr hmem rfl rfl, ite_not]

theorem Choice.covers (h : Choice t s ps u) :
    Covers declared (.required ps) (Pattern.line declared ps) :=
  covers_fill h.unfilled

/-- A line is accepted exactly if it is parsed to a tree, and then it is what that tree becomes. -/
theorem readLine_eq_ok_iff_covers : readLine declared t s = .ok (line, u) ↔
    ∃ ps, Choice t s ps u ∧ Covers declared (.required ps) line := by
  rw [readLine_eq_ok]
  refine exists_congr fun ps => and_congr_right fun hchoice => ⟨?_, fun h => ?_⟩
  · rintro rfl
    exact hchoice.covers
  · exact hchoice.covers.unique h

theorem Lines.covers {ss : List (List Lexeme)} {pss : List (List Pattern)}
    (h : Lines t ss pss u) : List.Forall₂ (fun ps line => Covers declared (.required ps) line) pss
      (pss.map (Pattern.line declared)) := by
  induction h with
  | nil => exact .nil
  | cons hchoice _ ih => exact .cons hchoice.covers ih

end Pattern

open Pattern (Lines Choice Covers)

/-- **Each line with a shortcut covers the declared options exactly once.** The line is the tree
that it was parsed to, and all its shortcuts have the declared options that it does not name
elsewhere. So each of them has a declared option once, or not at all if the line names it. What a
tree becomes depends on the declared options and on nothing in other lines. -/
theorem readUsage_covers (declared : OptionTable) (ss : List (List Lexeme)) :
    (∀ p u, readUsage declared ss = .ok (p, u) ↔ ∃ pss lines, Lines declared ss pss u ∧
      List.Forall₂ (fun ps line => Covers declared (.required ps) line) pss lines ∧
      p = .either lines) ∧
    (∀ t s line u, Pattern.readLine declared t s = .ok (line, u) ↔
      ∃ ps, Choice t s ps u ∧ Covers declared (.required ps) line) ∧
    ∀ tree line, Covers declared tree line →
      (∀ line', Covers declared tree line' → line' = line) ∧
      ∀ os ∈ line.shortcuts, ∀ o ∈ declared.options,
        ((Pattern.optionsAll os).map OptionDef.name).count o.name =
          if o.name ∈ line.namesOutside then 0 else 1 := by
  refine ⟨fun p u => ⟨fun h => ?_, ?_⟩, fun t s line u => Pattern.readLine_eq_ok_iff_covers,
    fun tree line h => ⟨fun line' k => h.unique k, fun os hos o ho => h.count_name hos ho⟩⟩
  · obtain ⟨pss, hlines, rfl⟩ := readUsage_eq_ok.mp h
    exact ⟨pss, _, hlines, hlines.covers, rfl⟩
  · rintro ⟨pss, lines, hlines, hcovers, rfl⟩
    have huniq : Relator.RightUnique fun ps line => Covers declared (.required ps) line :=
      fun _ _ _ h k => k.unique h
    have hmap : lines = pss.map (Pattern.line declared) :=
      List.right_unique_forall₂' huniq hcovers hlines.covers
    rw [hmap]
    exact readUsage_eq_ok.mpr ⟨pss, hlines, rfl⟩

/-- Shortcuts in an alternative that is repeated, and one in a line that names another option. -/
theorem readUsage_covers_two_lines :
    ∃ (declared : OptionTable) (ss : List (List Lexeme)) (line line' : Pattern) (u : OptionTable),
      readUsage declared ss = .ok (.either [line, line'], u) ∧
      line.shortcuts =
        [[.ofOption { short := some "-b" }, .ofOption { long := some "--cee", arity := 1 }],
          [.ofOption { short := some "-b" }, .ofOption { long := some "--cee", arity := 1 }]] ∧
      line'.shortcuts =
        [[.ofOption { short := some "-a" }, .ofOption { long := some "--cee", arity := 1 }]] ∧
      (∃ tree, Covers declared tree line) ∧
      ∀ os ∈ line'.shortcuts, ((Pattern.optionsAll os).map OptionDef.name).count "-b" = 0 := by
  let a : OptionDef := { short := some "-a" }
  let b : OptionDef := { short := some "-b" }
  let cee : OptionDef := { long := some "--cee", arity := 1 }
  let declared : OptionTable := ⟨[a, b, cee], by decide⟩
  let ss : List (List Lexeme) :=
    [[⟨"[", 1, 12⟩, ⟨"options", 1, 13⟩, ⟨"]", 1, 20⟩, ⟨"(", 1, 22⟩, ⟨"-a", 1, 23⟩, ⟨"|", 1, 26⟩,
        ⟨"options", 1, 28⟩, ⟨")", 1, 35⟩, ⟨"...", 1, 36⟩],
      [⟨"-b", 2, 12⟩, ⟨"[", 2, 15⟩, ⟨"options", 2, 16⟩, ⟨"]", 2, 23⟩]]
  let line : Pattern := .required [.optional [.shortcut [.ofOption b, .ofOption cee]],
    .oneOrMore (.required [.either [.ofOption a, .shortcut [.ofOption b, .ofOption cee]]])]
  let line' : Pattern := .required [.ofOption b,
    .optional [.shortcut [.ofOption a, .ofOption cee]]]
  have h : readUsage declared ss = .ok (.either [line, line'], declared) := by cbv
  obtain ⟨hread, -, hcovers⟩ := readUsage_covers declared ss
  obtain ⟨pss, lines, -, hall, hlines⟩ := (hread _ _).mp h
  obtain rfl := Pattern.either.inj hlines
  cases hall with
  | cons hfirst hlater =>
    cases hlater with
    | cons hsecond _ =>
      refine ⟨declared, ss, line, line', declared, h, rfl, rfl, ⟨_, hfirst⟩, fun os hos => ?_⟩
      exact (hcovers _ _ hsecond).2 os hos b (by decide)

end Synopsis
