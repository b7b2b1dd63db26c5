/- Unit: TrendingPipeline/Base/Sampling
   source: none (general)
   digest: A value that only moves up, and an observer who samples it and reports changes. -/

import Mathlib.Data.List.Sort

set_option autoImplicit false
set_option relaxedAutoImplicit false

namespace TrendingPipeline.Base.Sampling

universe u

variable {α : Type u}

/-- The values the subject has had, oldest first and each once; the values the
samples have found; the last sample while it waits to be reported; the reports. -/
structure Sampler (α : Type u) where
  history : List α
  current : α
  seen : List α
  pending : Option α
  reported : List α

def start (a : α) : Sampler α := ⟨[a], a, [], none, []⟩

def Sampler.told (s : Sampler α) : List α := s.reported ++ s.pending.toList

/-- The subject moves along `r`, and the observer reports a sample that differs from
the last report. -/
inductive Steps (r : α → α → Prop) : Sampler α → Sampler α → Prop
  | quiet (s : Sampler α) : Steps r s s
  | move (s : Sampler α) (a : α) : r s.current a →
      Steps r s { s with history := s.history ++ [a], current := a }
  | same (s : Sampler α) : s.pending = none → s.reported.getLast? = some s.current →
      Steps r s { s with seen := s.seen ++ [s.current] }
  | differs (s : Sampler α) : s.pending = none → s.reported.getLast? ≠ some s.current →
      Steps r s { s with seen := s.seen ++ [s.current], pending := some s.current }
  | report (s : Sampler α) (a : α) : s.pending = some a →
      Steps r s { s with pending := none, reported := s.reported ++ [a] }

/-- The reports rise, and are the values seen. -/
structure Faithful (r : α → α → Prop) (s : Sampler α) : Prop where
  history : s.history.Pairwise r
  current : s.history.getLast? = some s.current
  rising : s.told.Pairwise r
  seen : ∀ a, a ∈ s.told ↔ a ∈ s.seen
  had : ∀ a ∈ s.seen, a ∈ s.history

variable {r : α → α → Prop} {s t : Sampler α}

theorem faithful_start (a : α) : Faithful r (start a) where
  history := List.pairwise_singleton r a
  current := rfl
  rising := List.Pairwise.nil
  seen _ := Iff.rfl
  had _ h := absurd h List.not_mem_nil

private theorem eq_or_below_last {l : List α} (h : l.Pairwise r) {a b : α}
    (hlast : l.getLast? = some b)
    (ha : a ∈ l) : a = b ∨ r a b := by
  obtain ⟨init, rfl⟩ := List.getLast?_eq_some_iff.mp hlast
  rcases List.mem_append.mp ha with ha | ha
  · exact .inr ((List.pairwise_append.mp h).2.2 a ha b List.mem_cons_self)
  · exact .inl (List.mem_singleton.mp ha)

private theorem Faithful.had_poll (h : Faithful r s) : ∀ a ∈ s.seen ++
    [s.current], a ∈ s.history := by
  intro a ha
  rcases List.mem_append.mp ha with ha | ha
  · exact h.had a ha
  · obtain rfl := List.mem_singleton.mp ha
    exact List.mem_of_getLast? h.current

variable [IsStrictOrder α r]

private theorem Faithful.below_current (h : Faithful r s) (hidle : s.pending = none)
    (hnew : s.reported.getLast? ≠ some s.current) : ∀ a ∈ s.reported, r a s.current := by
  have htold : s.told = s.reported := by rw [Sampler.told, hidle]; exact List.append_nil _
  have hle : ∀ a ∈ s.reported, a = s.current ∨ r a s.current := by
    intro a ha
    exact eq_or_below_last h.history h.current (h.had a ((h.seen a).mp (htold ▸ ha)))
  have hrising : s.reported.Pairwise r := htold ▸ h.rising
  intro a ha
  refine (hle a ha).resolve_left ?_
  rintro rfl
  -- the last report is not below the current value, so it is the current value
  obtain ⟨b, hb⟩ : ∃ b, s.reported.getLast? = some b :=
    ⟨_, List.getLast?_eq_some_getLast (List.ne_nil_of_mem ha)⟩
  rcases eq_or_below_last hrising hb ha with heq | hlt
  · exact hnew (heq ▸ hb)
  · rcases hle b (List.mem_of_getLast? hb) with rfl | hgt
    · exact hnew hb
    · exact irrefl_of r b (trans_of r hgt hlt)

theorem Faithful.step (h : Faithful r s) (hstep : Steps r s t) : Faithful r t := by
  cases hstep with
  | quiet => exact h
  | move a hlt =>
      refine ⟨?_, List.getLast?_concat, h.rising, h.seen, fun b hb => ?_⟩
      · refine List.pairwise_append.mpr ⟨h.history, List.pairwise_singleton r a, ?_⟩
        intro b hb c hc
        obtain rfl := List.mem_singleton.mp hc
        rcases eq_or_below_last h.history h.current hb with rfl | hb
        · exact hlt
        · exact trans_of r hb hlt
      · exact List.mem_append_left _ (h.had b hb)
  | same hidle hlast =>
      have hcurrent : s.current ∈ s.told :=
        List.mem_append_left _ (List.mem_of_getLast? hlast)
      refine ⟨h.history, h.current, h.rising, ?_, h.had_poll⟩
      intro a
      rw [List.mem_append, List.mem_singleton, ← h.seen]
      refine ⟨.inl, ?_⟩
      rintro (ha | rfl)
      · exact ha
      · exact hcurrent
  | differs hidle hnew =>
      have htold : s.told = s.reported := by rw [Sampler.told, hidle]; exact List.append_nil _
      refine ⟨h.history, h.current, ?_, ?_, h.had_poll⟩
      · refine List.pairwise_append.mpr ⟨htold ▸ h.rising, List.pairwise_singleton r _, ?_⟩
        intro a ha b hb
        obtain rfl := List.mem_singleton.mp hb
        exact h.below_current hidle hnew a ha
      · intro a
        have hseen := h.seen a
        rw [htold] at hseen
        change a ∈ s.reported ++ [s.current] ↔ a ∈ s.seen ++ [s.current]
        rw [List.mem_append, List.mem_append, hseen]
  | report a hpending =>
      have htold : s.told = s.reported ++ [a] := by rw [Sampler.told, hpending]; rfl
      have hsame : (s.reported ++ [a]) ++ (none : Option α).toList = s.told := by
        rw [htold]
        exact List.append_nil _
      refine ⟨h.history, h.current, ?_, ?_, h.had⟩
      · change ((s.reported ++ [a]) ++ (none : Option α).toList).Pairwise r
        rw [hsame]
        exact h.rising
      · intro b
        change b ∈ (s.reported ++ [a]) ++ (none : Option α).toList ↔ b ∈ s.seen
        rw [hsame]
        exact h.seen b

theorem Faithful.sublist (h : Faithful r s) : s.reported.Sublist s.history := by
  have hrising : s.reported.Pairwise r := h.rising.sublist (List.sublist_append_left _ _)
  have hnodup : s.reported.Nodup := hrising.imp fun hab => ne_of_irrefl hab
  refine List.sublist_of_subperm_of_pairwise (List.subperm_of_subset hnodup ?_) hrising h.history
  intro a ha
  exact h.had a ((h.seen a).mp (List.mem_append_left _ ha))

/-- With nothing left to report, the reports are the whole history exactly when every
value of the history was seen. -/
theorem Faithful.reported_eq_history_iff (h : Faithful r s) (hidle : s.pending = none) :
    s.reported = s.history ↔ ∀ a ∈ s.history, a ∈ s.seen := by
  have htold : s.told = s.reported := by rw [Sampler.told, hidle]; exact List.append_nil _
  have hrising : s.reported.Pairwise r := htold ▸ h.rising
  constructor
  · intro heq a ha
    rw [← h.seen, htold, heq]
    exact ha
  · intro hall
    refine hrising.eq_of_mem_iff h.history ?_
    intro a
    rw [← htold, h.seen]
    exact ⟨h.had a, hall a⟩

end TrendingPipeline.Base.Sampling
