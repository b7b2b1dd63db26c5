/- Unit: TrendingPipeline/Base/Resubscribing
   source: none (general)
   digest: A rising value reported by one stream after another, and the reports a reader keeps. -/

import Mathlib.Data.List.Nodup
import Mathlib.Order.Defs.Unbundled

set_option autoImplicit false
set_option relaxedAutoImplicit false

namespace TrendingPipeline.Base.Resubscribing

universe u

variable {α : Type u}

/-- The value; what the reader keeps, newest first; and of the stream that is open: the
reports on their way, the one before its send, the last one sent, and whether the reader
has had one. -/
structure Feed (α : Type u) where
  current : α
  kept : List α := []
  sent : List α := []
  pending : Option α := none
  last : Option α := none
  heard : Bool := false

def Feed.due (s : Feed α) : List α := s.sent ++ s.pending.toList

/-- Another stream is open, or none: what was on its way is lost, and the new one does
not know what was reported. -/
def Feed.resubscribed (s : Feed α) : Feed α := { current := s.current, kept := s.kept }

/-- The value moves along `r`; a stream reports a value that differs from its last
report; the reader keeps `n` reports. -/
inductive Steps (r : α → α → Prop) (n : ℕ) (s : Feed α) : Feed α → Prop
  | quiet : Steps r n s s
  | move (a : α) : r s.current a → Steps r n s { s with current := a }
  | resubscribe : Steps r n s s.resubscribed
  | sample : s.pending = none → s.last ≠ some s.current →
      Steps r n s { s with pending := some s.current }
  | drop : Steps r n s { s with pending := none }
  | send (a : α) : s.pending = some a →
      Steps r n s { s with sent := s.sent ++ [a], pending := none, last := some a }
  | deliver (a : α) (rest : List α) : s.sent = a :: rest →
      Steps r n s { s with kept := (a :: s.kept).take n, sent := rest, heard := true }

def AtMost (r : α → α → Prop) (a b : α) : Prop := a = b ∨ r a b

/-- Everything told is in order, and what the reader has of this stream is strictly
before what is to come. -/
structure Orderly (r : α → α → Prop) (s : Feed α) : Prop where
  due : s.due.Pairwise r
  kept : s.kept.Pairwise fun newer older => AtMost r older newer
  due_current : ∀ a ∈ s.due, AtMost r a s.current
  kept_current : ∀ a ∈ s.kept, AtMost r a s.current
  last_current : ∀ a ∈ s.last, AtMost r a s.current
  sent_last : ∀ a ∈ s.sent, ∃ l ∈ s.last, AtMost r a l
  heard_last : s.heard = true → ∀ a ∈ s.kept, ∃ l ∈ s.last, AtMost r a l
  kept_due : ∀ a ∈ s.kept, ∀ b ∈ s.due, AtMost r a b
  heard_due : s.heard = true → ∀ a ∈ s.kept, ∀ b ∈ s.due, r a b

variable {r : α → α → Prop} {s t : Feed α}

theorem AtMost.before [IsTrans α r] {a b c : α} (h : AtMost r a b) (hbc : r b c) : r a c := by
  rcases h with rfl | hab
  · exact hbc
  · exact IsTrans.trans a b c hab hbc

theorem AtMost.trans [IsTrans α r] {a b c : α} (h : AtMost r a b) (hbc : AtMost r b c) :
    AtMost r a c := by
  rcases hbc with rfl | hbc
  · exact h
  · exact .inr (h.before hbc)

private theorem AtMost.before_of_ne {a b : α} (h : AtMost r a b) (hne : a ≠ b) : r a b :=
  h.resolve_left hne

theorem orderly_start (a : α) : Orderly r { current := a } where
  due := List.Pairwise.nil
  kept := List.Pairwise.nil
  due_current := nofun
  kept_current := nofun
  last_current := nofun
  sent_last := nofun
  heard_last := nofun
  kept_due := nofun
  heard_due := nofun

theorem Orderly.resubscribed (h : Orderly r s) : Orderly r s.resubscribed where
  due := List.Pairwise.nil
  kept := h.kept
  due_current := nofun
  kept_current := h.kept_current
  last_current := nofun
  sent_last := nofun
  heard_last := nofun
  kept_due := nofun
  heard_due := nofun

private theorem due_dropped (s : Feed α) : { s with pending := none }.due = s.sent :=
  List.append_nil s.sent

private theorem Orderly.dropped (h : Orderly r s) : Orderly r { s with pending := none } := by
  have hsub : ∀ a ∈ { s with pending := none }.due, a ∈ s.due := by
    intro a ha
    rw [due_dropped] at ha
    exact List.mem_append_left _ ha
  exact
    { due := by rw [due_dropped]; exact h.due.sublist (List.sublist_append_left _ _)
      kept := h.kept
      due_current := fun a ha => h.due_current a (hsub a ha)
      kept_current := h.kept_current
      last_current := h.last_current
      sent_last := h.sent_last
      heard_last := h.heard_last
      kept_due := fun a ha b hb => h.kept_due a ha b (hsub b hb)
      heard_due := fun hheard a ha b hb => h.heard_due hheard a ha b (hsub b hb) }

private theorem due_sent {a : α} (ha : s.pending = some a) :
    { s with sent := s.sent ++ [a], pending := none, last := some a }.due = s.due := by
  rw [Feed.due, Feed.due, ha, Option.toList_none, Option.toList_some, List.append_nil]

theorem Orderly.sent {a : α} (h : Orderly r s) (ha : s.pending = some a) :
    Orderly r { s with sent := s.sent ++ [a], pending := none, last := some a } := by
  have hdue : s.due = s.sent ++ [a] := by rw [Feed.due, ha, Option.toList_some]
  have hmem : a ∈ s.due := by
    rw [hdue]
    exact List.mem_append_right _ List.mem_cons_self
  have hbelow : ∀ x ∈ s.sent, r x a := by
    have hsplit := h.due
    rw [hdue, List.pairwise_append] at hsplit
    exact fun x hx => hsplit.2.2 x hx a List.mem_cons_self
  constructor
  · rw [due_sent ha]
    exact h.due
  · exact h.kept
  · rw [due_sent ha]
    exact h.due_current
  · exact h.kept_current
  · intro l hl
    obtain rfl := Option.some.inj hl
    exact h.due_current a hmem
  · intro x hx
    refine ⟨a, rfl, ?_⟩
    rcases List.mem_append.mp hx with hx | hx
    · exact .inr (hbelow x hx)
    · exact .inl (List.mem_singleton.mp hx)
  · intro hheard x hx
    exact ⟨a, rfl, .inr (h.heard_due hheard x hx a hmem)⟩
  · rw [due_sent ha]
    exact h.kept_due
  · rw [due_sent ha]
    exact h.heard_due

section

variable [IsStrictOrder α r]

theorem Orderly.moved {a : α} (h : Orderly r s) (ha : r s.current a) :
    Orderly r { s with current := a } where
  due := h.due
  kept := h.kept
  due_current x hx := .inr ((h.due_current x hx).before ha)
  kept_current x hx := .inr ((h.kept_current x hx).before ha)
  last_current x hx := .inr ((h.last_current x hx).before ha)
  sent_last := h.sent_last
  heard_last := h.heard_last
  kept_due := h.kept_due
  heard_due := h.heard_due

/-- What is at most the last report of a stream is before a value that differs from it. -/
private theorem Orderly.before_current (h : Orderly r s) (hne : s.last ≠ some s.current) {a l : α}
    (hl : l ∈ s.last) (ha : AtMost r a l) : r a s.current := by
  refine ha.before ((h.last_current l hl).before_of_ne ?_)
  rintro rfl
  exact hne hl

private theorem Orderly.sampled (h : Orderly r s) (hidle : s.pending = none)
    (hne : s.last ≠ some s.current) : Orderly r { s with pending := some s.current } := by
  have hold : s.due = s.sent := by rw [Feed.due, hidle, Option.toList_none, List.append_nil]
  have hdue : { s with pending := some s.current }.due = s.sent ++ [s.current] := rfl
  have hbelow : ∀ a ∈ s.sent, r a s.current := by
    intro a ha
    obtain ⟨l, hl, hal⟩ := h.sent_last a ha
    exact h.before_current hne hl hal
  constructor
  · rw [hdue, List.pairwise_append]
    refine ⟨hold ▸ h.due, List.pairwise_singleton _ _, ?_⟩
    intro a ha b hb
    obtain rfl := List.mem_singleton.mp hb
    exact hbelow a ha
  · exact h.kept
  · intro a ha
    rw [hdue] at ha
    rcases List.mem_append.mp ha with ha | ha
    · exact .inr (hbelow a ha)
    · exact .inl (List.mem_singleton.mp ha)
  · exact h.kept_current
  · exact h.last_current
  · exact h.sent_last
  · exact h.heard_last
  · intro a ha b hb
    rw [hdue] at hb
    rcases List.mem_append.mp hb with hb | hb
    · exact h.kept_due a ha b (hold ▸ hb)
    · obtain rfl := List.mem_singleton.mp hb
      exact h.kept_current a ha
  · intro hheard a ha b hb
    rw [hdue] at hb
    rcases List.mem_append.mp hb with hb | hb
    · exact h.heard_due hheard a ha b (hold ▸ hb)
    · obtain rfl := List.mem_singleton.mp hb
      obtain ⟨l, hl, hal⟩ := h.heard_last hheard a ha
      exact h.before_current hne hl hal

private theorem Orderly.delivered {a : α} {rest : List α} (n : ℕ) (h : Orderly r s)
    (hsent : s.sent = a :: rest) :
    Orderly r { s with kept := (a :: s.kept).take n, sent := rest, heard := true } := by
  have hdue : s.due = a :: (rest ++ s.pending.toList) := by rw [Feed.due, hsent]; rfl
  have ha : a ∈ s.due := by rw [hdue]; exact List.mem_cons_self
  have hrest : ∀ b ∈ rest ++ s.pending.toList, b ∈ s.due := by
    intro b hb
    rw [hdue]
    exact List.mem_cons_of_mem a hb
  have hsplit := h.due
  rw [hdue, List.pairwise_cons] at hsplit
  have hkept : ∀ x ∈ (a :: s.kept).take n, AtMost r x a := by
    intro x hx
    rcases List.mem_cons.mp (List.mem_of_mem_take hx) with rfl | hx
    · exact .inl rfl
    · exact h.kept_due x hx a ha
  have hlast : ∃ l ∈ s.last, AtMost r a l :=
    h.sent_last a (by rw [hsent]; exact List.mem_cons_self)
  constructor
  · exact hsplit.2
  · refine List.Pairwise.sublist (List.take_sublist _ _) (List.pairwise_cons.mpr ⟨?_, h.kept⟩)
    exact fun x hx => h.kept_due x hx a ha
  · exact fun b hb => h.due_current b (hrest b hb)
  · exact fun x hx => (hkept x hx).trans (h.due_current a ha)
  · exact h.last_current
  · exact fun x hx => h.sent_last x (by rw [hsent]; exact List.mem_cons_of_mem a hx)
  · intro _ x hx
    obtain ⟨l, hl, hal⟩ := hlast
    exact ⟨l, hl, (hkept x hx).trans hal⟩
  · exact fun x hx b hb => .inr ((hkept x hx).before (hsplit.1 b hb))
  · exact fun _ x hx b hb => (hkept x hx).before (hsplit.1 b hb)

theorem Orderly.step {n : ℕ} (h : Orderly r s) (hstep : Steps r n s t) : Orderly r t := by
  cases hstep with
  | quiet => exact h
  | move a ha => exact h.moved ha
  | resubscribe => exact h.resubscribed
  | sample hidle hne => exact h.sampled hidle hne
  | drop => exact h.dropped
  | send a ha => exact h.sent ha
  | deliver a rest hsent => exact h.delivered n hsent

/-- A delivery repeats a report that is kept only as the first one of its stream, and
only the newest one. -/
theorem Orderly.nodup_iff {a : α} {rest : List α} {n : ℕ} (h : Orderly r s) (hn : 2 ≤ n)
    (hsent : s.sent = a :: rest) (hkept : s.kept.Nodup) :
    ((a :: s.kept).take n).Nodup ↔ s.heard = true ∨ s.kept.head? ≠ some a := by
  have ha : a ∈ s.due := by
    rw [Feed.due, hsent]
    exact List.mem_cons_self
  constructor
  · intro hnodup
    refine .inr ?_
    intro hhead
    obtain ⟨older, hold⟩ := List.head?_eq_some_iff.mp hhead
    obtain ⟨m, rfl⟩ := Nat.exists_eq_add_of_le' hn
    rw [hold, List.take_succ_cons, List.take_succ_cons] at hnodup
    exact (List.nodup_cons.mp hnodup).1 List.mem_cons_self
  · intro hnew
    refine List.Nodup.sublist (List.take_sublist _ _) (List.nodup_cons.mpr ⟨?_, hkept⟩)
    intro hmem
    rcases hnew with hheard | hhead
    · exact irrefl_of r a (h.heard_due hheard a hmem a ha)
    · -- the newest report kept is before `a`, and the others are at most that one
      cases hlist : s.kept with
      | nil =>
          rw [hlist] at hmem
          exact absurd hmem List.not_mem_nil
      | cons k older =>
          have hne : k ≠ a := by
            rintro rfl
            exact hhead (by rw [hlist]; rfl)
          have hk : r k a := by
            refine (h.kept_due k ?_ a ha).before_of_ne hne
            rw [hlist]
            exact List.mem_cons_self
          have hsplit := h.kept
          rw [hlist, List.pairwise_cons] at hsplit
          rw [hlist] at hmem
          rcases List.mem_cons.mp hmem with rfl | hmem
          · exact hne rfl
          · exact irrefl_of r a ((hsplit.1 a hmem).before hk)

end

end TrendingPipeline.Base.Resubscribing
