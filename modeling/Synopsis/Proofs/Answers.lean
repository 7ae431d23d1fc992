import Synopsis.Search

/-!
# The answers of a search

A search hands its memo out between two answers, and whoever asks may hand another one back.
`Gives` says which answers come whatever memo is handed back, as long as every memo, those of the
search included, meets a condition `ok`. Each way to build a search has one lemma, so that nothing
later looks into a search.
-/

namespace Synopsis.Search

variable {μ α β : Type}

/-- **The search gives exactly these answers**, whichever acceptable memos it is resumed with, and
hands out acceptable memos only. -/
inductive Gives (ok : μ → Prop) : Search μ α → List α → Prop
  | done {memo} : ok memo → Gives ok (.done memo) []
  | yield {value memo resume rest} : ok memo → (∀ m, ok m → Gives ok (resume m) rest) →
      Gives ok (.yield value memo resume) (value :: rest)

namespace Gives

variable {ok : μ → Prop} {s : Search μ α} {l : List α}

theorem pure {value : α} {memo : μ} (h : ok memo) : Gives ok (Search.pure value memo) [value] :=
  .yield h fun _ hm => .done hm

theorem append {next : μ → Search μ α} {l' : List α} (h : Gives ok s l)
    (hn : ∀ m, ok m → Gives ok (next m) l') : Gives ok (s.append next) (l ++ l') := by
  induction h with
  | done hm => exact hn _ hm
  | yield hm _ ih => exact .yield hm ih

theorem map (f : α → β) (h : Gives ok s l) : Gives ok (s.map f) (l.map f) := by
  induction h with
  | done hm => exact .done hm
  | yield hm _ ih => exact .yield hm ih

/-- The answers started from each answer come in the order of the latter. -/
theorem bind {f : α → μ → Search μ β} {g : α → List β} (h : Gives ok s l)
    (hf : ∀ a ∈ l, ∀ m, ok m → Gives ok (f a m) (g a)) : Gives ok (s.bind f) (l.flatMap g) := by
  induction h with
  | done hm => exact .done hm
  | @yield value memo resume rest hm _ ih =>
    rw [List.flatMap_cons]
    have hv := hf value List.mem_cons_self memo hm
    exact hv.append fun m hm' => ih m hm' fun a ha => hf a (List.mem_cons_of_mem value ha)

theorem toList_eq (h : Gives ok s l) : s.toList = l := by
  induction h with
  | done => rfl
  | @yield value memo resume rest hm _ ih =>
    rw [toList, ih memo hm]

/-- A search that has ended hands out an acceptable memo. -/
theorem memo_done {memo : μ} (h : Gives ok (.done memo) l) : ok memo := by
  cases h with
  | done hm => exact hm

/-- After an answer the rest of the search gives the rest of the answers. -/
theorem resumed {value : α} {memo : μ} {resume : μ → Search μ α}
    (h : Gives ok (.yield value memo resume) l) :
    ok memo ∧ ∃ rest, ∀ m, ok m → Gives ok (resume m) rest := by
  cases h with
  | yield hm hr => exact ⟨hm, _, hr⟩

end Gives

end Synopsis.Search
