import Synopsis.Proofs.OwnSpelling

/-!
# A table that grows as options are met

Each option that a usage line names is in the table or is added to it, as the one option with its
form. A new option takes the place of an entry only if both have two dashes for their canonical
name, one as its long form and the other as its short form: this follows from how the forms of
options are spelled. Every other option met stays in the table as it is.
-/

namespace Synopsis

/-- Entries with distinct keys are in the order of their keys. -/
theorem Keyed.prefix_of_map_prefix {α κ : Type} {key : α → κ} {l more : List α}
    (hn : (more.map key).Nodup) (hkeys : l.map key <+: more.map key) (hl : l ⊆ more) :
    l <+: more := by
  induction l generalizing more with
  | nil => exact List.nil_prefix
  | cons x xs ih =>
    cases more with
    | nil => exact nomatch hl List.mem_cons_self
    | cons y ys =>
      rw [List.map_cons, List.map_cons, List.cons_prefix_cons] at hkeys
      obtain ⟨hkey, hkeys⟩ := hkeys
      rw [List.map_cons, List.nodup_cons] at hn
      have hlater : ∀ z, z ∈ y :: ys → key z ∈ ys.map key → z ∈ ys := by
        intro z hz hzkey
        rcases List.mem_cons.mp hz with rfl | hz
        · exact absurd hzkey hn.1
        · exact hz
      have hxs : xs ⊆ ys := fun z hz =>
        hlater z (hl (List.mem_cons_of_mem x hz)) (hkeys.subset (List.mem_map_of_mem hz))
      have hx : x = y := by
        rcases List.mem_cons.mp (hl List.mem_cons_self) with hx | hx
        · exact hx
        · exact absurd (hkey ▸ List.mem_map_of_mem hx) hn.1
      rw [hx, List.cons_prefix_cons]
      exact ⟨rfl, ih hn.2 hkeys hxs⟩

theorem OptionDef.long_or_short {o : OptionDef} {form : String} (h : o.name = form)
    (hne : form ≠ "") : o.long = some form ∨ o.short = some form := by
  unfold OptionDef.name at h
  cases hl : o.long? with
  | some long =>
    rw [hl] at h
    obtain rfl : long = form := h
    exact .inl (long?_eq_some.mp hl).1
  | none =>
    rw [hl, Option.none_or] at h
    cases hs : o.short? with
    | some short =>
      rw [hs] at h
      obtain rfl : short = form := h
      exact .inr (short?_eq_some.mp hs).1
    | none =>
      rw [hs] at h
      exact absurd h.symm hne

namespace OptionTable

/-- A long form starts with two dashes, and a short form that does so consists of them. -/
structure IsSpelled (o : OptionDef) : Prop where
  long : IsDashed o.long
  short : ∀ form rest, o.short = some form → form.toList = '-' :: '-' :: rest → rest = []

end OptionTable

open OptionTable (IsSpelled)

namespace Description

/-- A word with two dashes is no short form. -/
def IsSingleDashed (short : Option String) : Prop :=
  ∀ form rest, short = some form → form.toList ≠ '-' :: '-' :: rest

theorem Forms.add_singleDashed {f : Forms} (h : IsSingleDashed f.short) (word : List Char) :
    IsSingleDashed (f.add word).short := by
  unfold Forms.add
  split
  · exact h
  next rest hlong =>
    intro form tail hform htail
    obtain rfl := Option.some.inj hform
    rw [String.toList_ofList] at htail
    exact hlong tail (List.cons.inj htail).2
  · exact h

theorem forms_singleDashed (s : List Char) : IsSingleDashed (forms s).short := by
  unfold forms
  generalize Text.words (s.map partWords) = words
  have hnone : IsSingleDashed ({} : Forms).short := nofun
  generalize ({} : Forms) = f at hnone
  induction words generalizing f with
  | nil => exact hnone
  | cons word words ih => exact ih _ (Forms.add_singleDashed hnone word)

theorem read_spelled {entry : List Char} {line : Option Int} {o : OptionDef}
    (h : read entry line = .ok o) : IsSpelled o := by
  refine ⟨read_dashed h, ?_⟩
  unfold read at h
  generalize (Text.cut? [' ', ' '] (Text.trim entry)).getD (Text.trim entry, []) = cut at h
  obtain ⟨named, prose⟩ := cut
  dsimp only at h
  generalize (if (forms named).valued then (1 : Int) else 0) = arity at h
  split at h
  · exact nomatch h
  · split at h
    · obtain rfl := Except.ok.inj h
      exact fun form rest hform hrest => absurd hrest (forms_singleDashed named form rest hform)
    · exact nomatch h

end Description

namespace OptionTable

variable {t u declared : OptionTable} {o y : OptionDef} {os more met : List OptionDef}

theorem read_spelled {source : String} (h : OptionTable.read source = .ok declared) :
    ∀ o ∈ declared.options, IsSpelled o := by
  obtain ⟨options, hoptions, h⟩ := bind_eq_ok.mp h
  obtain rfl := pure_eq_ok.mp h
  intro o ho
  rcases Keyed.mem_putAll ho with ho | ho
  · obtain ⟨entry, -, hentry⟩ := mem_of_mapM_eq_ok hoptions ho
    exact Description.read_spelled hentry
  · exact nomatch ho

theorem get?_insert (name : String) :
    (t.insert o).get? name = if o.name = name then some o else t.get? name :=
  Keyed.get?_put OptionDef.name o name t.options

theorem get?_eq_some (h : o ∈ t.options) : t.get? o.name = some o :=
  Keyed.get?_eq_some t.distinct h

theorem mem_of_get? {name : String} (h : t.get? name = some o) : o ∈ t.options :=
  List.mem_of_find?_eq_some h

/-- An option with the one form that it was looked for by, in vain. -/
inductive IsNew (t : OptionTable) (o : OptionDef) : Prop
  | long {form rest} : form.toList = '-' :: '-' :: rest → o.long = some form → o.short = none →
      t.byLong form = [] → IsNew t o
  | short {letter} : o.long = none → o.short = some (String.ofList ['-', letter]) →
      t.byShort (String.ofList ['-', letter]) = [] → IsNew t o

theorem IsNew.spelled (h : IsNew t o) : IsSpelled o := by
  cases h with
  | long hform hl hs _ =>
    refine ⟨fun form hlong => ?_, fun form _ hshort => nomatch hs.symm.trans hshort⟩
    obtain rfl := Option.some.inj (hl.symm.trans hlong)
    exact ⟨_, hform⟩
  | short hl hs _ =>
    refine ⟨fun form hlong => ?_, fun form rest hshort hrest => ?_⟩
    · exact nomatch hl.symm.trans hlong
    · obtain rfl := Option.some.inj (hs.symm.trans hshort)
      rw [String.toList_ofList] at hrest
      exact (List.cons.inj (List.cons.inj hrest).2).2.symm

/-- **A new option has the name of an entry only if that is two dashes.** -/
theorem IsNew.name_eq_marker (h : IsNew t o) (hy : y ∈ t.options) (hspelled : IsSpelled y)
    (hname : y.name = o.name) : o.name = "--" := by
  cases h with
  | @long form rest hform hl _ hnone =>
    have hne : form ≠ "" := by
      rintro rfl
      exact nomatch hform
    rw [OptionDef.name_of_long hl hne] at hname ⊢
    rcases OptionDef.long_or_short hname hne with hlong | hshort
    · exact absurd hlong (byLong_eq_nil hnone hy)
    · obtain rfl := hspelled.short form rest hshort hform
      exact Conventions.toList_eq_marker.mp hform
  | @short letter hl hs hnone =>
    rw [OptionDef.name_of_short (by rw [OptionDef.long?, hl]; rfl) hs ofList_ne_empty] at hname ⊢
    rcases OptionDef.long_or_short hname ofList_ne_empty with hlong | hshort
    · obtain ⟨rest, hrest⟩ := hspelled.long _ hlong
      rw [String.toList_ofList] at hrest
      obtain rfl := (List.cons.inj (List.cons.inj hrest).2).1
      exact Conventions.toList_eq_marker.mp String.toList_ofList
    · exact absurd (beq_iff_eq.mpr hshort) (List.filter_eq_nil_iff.mp hnone y hy)

/-- The options are met one after the other: each is in the table or is added to it. -/
inductive Meets : OptionTable → List OptionDef → OptionTable → Prop
  | nil {t : OptionTable} : Meets t [] t
  | known {t u : OptionTable} {o os} : o ∈ t.options → Meets t os u → Meets t (o :: os) u
  | new {t u : OptionTable} {o os} : IsNew t o → Meets (t.insert o) os u → Meets t (o :: os) u

theorem Meets.append {v : OptionTable} (h : Meets t os u) (hmore : Meets u more v) :
    Meets t (os ++ more) v := by
  induction h with
  | nil => exact hmore
  | known ho _ ih => exact .known ho (ih hmore)
  | new ho _ ih => exact .new ho (ih hmore)

/-- **What a table keeps of the options met so far**, the declared ones first: the names in their
order, the options met and no others, and these as they were unless two dashes are their name. -/
structure Keeps (declared : OptionTable) (met : List OptionDef) (t : OptionTable) : Prop where
  spelled : ∀ o ∈ t.options, IsSpelled o
  first : declared.names <+: t.names
  mem_met : ∀ o ∈ t.options, o ∈ met
  mem_names : ∀ o ∈ met, o.name ∈ t.names
  held : ∀ o ∈ met, o.name ≠ "--" → o ∈ t.options

theorem mem_insert_self : o ∈ (t.insert o).options :=
  mem_of_get? ((get?_insert o.name).trans (if_pos rfl))

/-- An entry stays unless the new option has its name. -/
theorem mem_insert_of_ne (hy : y ∈ t.options) (hne : o.name ≠ y.name) :
    y ∈ (t.insert o).options := by
  have hfound : (t.insert o).get? y.name = some y := by
    rw [get?_insert, if_neg hne, get?_eq_some hy]
  exact mem_of_get? hfound

theorem names_insert : (t.insert o).names =
    if o.name ∈ t.names then t.names else t.names ++ [o.name] :=
  Keyed.map_put OptionDef.name o t.options

theorem names_prefix_insert : t.names <+: (t.insert o).names := by
  rw [names_insert]
  split
  · exact List.prefix_rfl
  · exact List.prefix_append t.names [o.name]

theorem keeps_self (h : ∀ o ∈ declared.options, IsSpelled o) :
    Keeps declared declared.options declared where
  spelled := h
  first := List.prefix_rfl
  mem_met _ ho := ho
  mem_names _ ho := List.mem_map_of_mem ho
  held _ ho _ := ho

theorem Keeps.of_subset {same : List OptionDef} (h : Keeps declared met t) (hsub : met ⊆ same)
    (hsup : same ⊆ met) : Keeps declared same t where
  spelled := h.spelled
  first := h.first
  mem_met o ho := hsub (h.mem_met o ho)
  mem_names o ho := h.mem_names o (hsup ho)
  held o ho := h.held o (hsup ho)

theorem Keeps.known (h : Keeps declared met t) (ho : o ∈ t.options) :
    Keeps declared (met ++ [o]) t where
  spelled := h.spelled
  first := h.first
  mem_met y hy := List.mem_append_left [o] (h.mem_met y hy)
  mem_names y hy := by
    rcases List.mem_append.mp hy with hy | hy
    · exact h.mem_names y hy
    · obtain rfl := List.mem_singleton.mp hy
      exact List.mem_map_of_mem ho
  held y hy hne := by
    rcases List.mem_append.mp hy with hy | hy
    · exact h.held y hy hne
    · obtain rfl := List.mem_singleton.mp hy
      exact ho

theorem Keeps.new (h : Keeps declared met t) (ho : IsNew t o) :
    Keeps declared (met ++ [o]) (t.insert o) where
  spelled y hy := by
    rcases Keyed.mem_put hy with rfl | hy
    · exact ho.spelled
    · exact h.spelled y hy
  first := h.first.trans names_prefix_insert
  mem_met y hy := by
    rcases Keyed.mem_put hy with rfl | hy
    · exact List.mem_append_right met (List.mem_singleton_self y)
    · exact List.mem_append_left [o] (h.mem_met y hy)
  mem_names y hy := by
    rcases List.mem_append.mp hy with hy | hy
    · exact names_prefix_insert.subset (h.mem_names y hy)
    · obtain rfl := List.mem_singleton.mp hy
      exact List.mem_map_of_mem mem_insert_self
  held y hy hne := by
    rcases List.mem_append.mp hy with hy | hy
    · have hmem := h.held y hy hne
      refine mem_insert_of_ne hmem fun hname => hne ?_
      rw [← hname]
      exact ho.name_eq_marker hmem (h.spelled y hmem) hname.symm
    · obtain rfl := List.mem_singleton.mp hy
      exact mem_insert_self

/-- **The options are kept from the first one met to the last.** -/
theorem Keeps.meets (h : Keeps declared met t) (hm : Meets t os u) :
    Keeps declared (met ++ os) u := by
  induction hm generalizing met with
  | nil =>
    rw [List.append_nil]
    exact h
  | known ho _ ih =>
    have hmore := ih (h.known ho)
    rwa [List.append_assoc] at hmore
  | new ho _ ih =>
    have hmore := ih (h.new ho)
    rwa [List.append_assoc] at hmore

/-- Two options met with one name are the same if that holds of two dashes. -/
theorem Keeps.mem_options (h : Keeps declared met t)
    (hone : ∀ o ∈ met, ∀ o' ∈ met, o.name = "--" → o'.name = "--" → o = o') (ho : o ∈ met) :
    o ∈ t.options := by
  by_cases hname : o.name = "--"
  · obtain ⟨y, hy, hyname⟩ := List.mem_map.mp (h.mem_names o ho)
    rwa [hone o ho y (h.mem_met y hy) hname (hyname.trans hname)]
  · exact h.held o ho hname

end OptionTable

end Synopsis
