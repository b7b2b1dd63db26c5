/- Unit: TrendingPipeline/Frontend/VideosPages
   source: frontend/components/videos-table.tsx
   digest: The pages of the video browser, and the page index through its handlers. -/

import Mathlib.Algebra.Order.Floor.Div
import TrendingPipeline.Frontend.VideosSort
import TrendingPipeline.Frontend.VideosTable

set_option autoImplicit false
set_option relaxedAutoImplicit false

namespace TrendingPipeline.Frontend.VideosPages

open TrendingPipeline.Base.JsonText (Json)
open TrendingPipeline.Base.OrderedAnswers (flatMap_pageOf pageOf pageOf_ne_nil)
open TrendingPipeline.Base.Runs (Reachable)
open TrendingPipeline.Frontend.VideosSort (SortDir SortKey)

/-- The state of the filter and its fetches with the rest of the component's state. -/
structure State extends VideosTable.State Json where
  search : String := ""
  page : ℤ := 0
  sortKey : SortKey := .viewCount
  sortDir : SortDir := .desc

def pageSize : ℕ := 25

/-- `Math.ceil(sorted.length / pageSize)`. -/
def totalPages (sorted : List Json) : ℕ := sorted.length ⌈/⌉ pageSize

/-- Where `slice` starts or stops in a list of `n`; a negative index counts from its end. -/
def sliceIndex (n : ℕ) (i : ℤ) : ℕ := if i < 0 then (n + i).toNat else min i.toNat n

def slice (l : List Json) (start stop : ℤ) : List Json :=
  (l.drop (sliceIndex l.length start)).take
    (sliceIndex l.length stop - sliceIndex l.length start)

def pageSlice (sorted : List Json) (page : ℤ) : List Json :=
  slice sorted (page * pageSize) ((page + 1) * pageSize)

inductive Act
  /-- a filter, the button under an error, or a response -/
  | table (a : VideosTable.Act Json)
  | search (v : String)
  | header (key : SortKey)
  | previous
  | next

/-- The message that is shown in place of the table. -/
def errorShown (error : Option String) : Bool := error.any (· ≠ "")

/-- Not loading, no error and some videos. -/
def State.tableShown (s : State) : Bool :=
  !s.loading && !errorShown s.error && !s.videos.isEmpty

def State.handleSearch (s : State) (v : String) : State := { s with search := v, page := 0 }

def State.toggleSort (s : State) (key : SortKey) : State :=
  if s.sortKey = key then
    { s with sortDir := if s.sortDir = .desc then .asc else .desc, page := 0 }
  else { s with sortKey := key, sortDir := .desc, page := 0 }

/-- The page after a step of the filter or of its fetches. -/
def pageAfter (page : ℤ) : VideosTable.Act Json → ℤ
  | .respond _ (.resolved _) => 0
  | .respond _ (.rejected _) | .selectRegion _ | .selectCategory _ | .retry => page

section

variable (toLowerCase : String → String) (sort : (Json → Json → ℤ) → List Json → List Json)

/-- `none` where rendering throws. -/
def State.sorted (s : State) : Option (List Json) :=
  VideosSort.sorted toLowerCase sort s.search s.sortKey s.sortDir s.videos

/-- One step of the component as it is rendered; once rendering throws it is gone. -/
def step (s : State) (a : Act) : Option State :=
  match s.sorted toLowerCase sort with
  | none => none
  | some sorted =>
      match a with
      | .table a =>
          (VideosTable.step s.toState a).map fun t =>
            { s with toState := t, page := pageAfter s.page a }
      | .search v => some (s.handleSearch v)
      | .header key => if s.tableShown then some (s.toggleSort key) else none
      | .previous =>
          if s.tableShown && 1 < totalPages sorted && s.page ≠ 0 then
            some { s with page := max 0 (s.page - 1) }
          else none
      | .next =>
          if s.tableShown && 1 < totalPages sorted && s.page < totalPages sorted - 1 then
            some { s with page := min (totalPages sorted - 1) (s.page + 1) }
          else none

end

def Mounted (s : State) : Prop := s = { toState := VideosTable.mounted }

private theorem pageSlice_eq_pageOf (l : List Json) (k : ℕ) :
    pageSlice l k = pageOf pageSize l k := by
  have hindex : ∀ i : ℕ, sliceIndex l.length (i : ℤ) = min i l.length := by
    intro i
    rw [sliceIndex, if_neg (Int.not_lt.mpr (Int.natCast_nonneg i)), Int.toNat_natCast]
  have hstart : (k : ℤ) * pageSize = ((k * pageSize : ℕ) : ℤ) := by push_cast; rfl
  have hstop : ((k : ℤ) + 1) * pageSize = (((k + 1) * pageSize : ℕ) : ℤ) := by push_cast; rfl
  rw [pageSlice, slice, hstart, hstop, hindex, hindex, pageOf]
  rcases Nat.le_total (k * pageSize) l.length with hle | hge
  · rw [Nat.min_eq_left hle, List.take_eq_take_iff, List.length_drop, Nat.succ_mul]
    omega
  · rw [Nat.min_eq_right hge, List.drop_of_length_le hge, List.drop_length, List.take_nil,
      List.take_nil]

private theorem totalPages_spec (l : List Json) :
    l.length ≤ totalPages l * pageSize ∧
      ∀ k < totalPages l, k * pageSize < l.length := by
  rw [totalPages, Nat.ceilDiv_eq_add_pred_div]
  simp only [pageSize]
  constructor
  · omega
  · intro k hk
    omega

private theorem flatMap_pageSlice (l : List Json) :
    ((List.range (totalPages l)).flatMap fun k : ℕ => pageSlice l k) = l := by
  have hpages : (fun k : ℕ => pageSlice l k) = pageOf pageSize l :=
    funext (pageSlice_eq_pageOf l)
  rw [hpages, flatMap_pageOf]
  exact List.take_of_length_le (totalPages_spec l).1

private theorem pageSlice_of_lt {l : List Json} {k : ℕ} (hk : k < totalPages l) :
    pageSlice l k ≠ [] ∧ (pageSlice l k).length ≤ pageSize := by
  rw [pageSlice_eq_pageOf]
  refine ⟨pageOf_ne_nil (by decide) ((totalPages_spec l).2 k hk), ?_⟩
  rw [pageOf, List.length_take]
  exact Nat.min_le_left _ _

section Steps

variable (toLowerCase : String → String) (sort : (Json → Json → ℤ) → List Json → List Json)

/-- The first page, or one that there is. -/
structure InRange (s : State) : Prop where
  nonneg : 0 ≤ s.page
  below : s.page = 0 ∨ ∃ sorted, s.sorted toLowerCase sort = some sorted ∧
    s.page * pageSize < sorted.length

variable {toLowerCase sort} {s t : State} {a : Act}

private theorem inRange_of_first (h : s.page = 0) : InRange toLowerCase sort s := ⟨h.ge, .inl h⟩

private theorem videos_of_pageAfter {s' t' : VideosTable.State Json} {a : VideosTable.Act Json}
    (h : VideosTable.step s' a = some t') (hnot : ∀ i data, a ≠ .respond i (.resolved data)) :
    t'.videos = s'.videos ∧ ∀ page, pageAfter page a = page := by
  have hselect : (∃ v, a = .selectRegion v) ∨ (∃ v, a = .selectCategory v) →
      t'.videos = s'.videos := by
    intro ha
    obtain ⟨-, rfl⟩ | ⟨f, -, rfl⟩ := VideosTable.select_cases ha h
    · rfl
    · rfl
  cases a with
  | selectRegion v => exact ⟨hselect (.inl ⟨v, rfl⟩), fun _ => rfl⟩
  | selectCategory v => exact ⟨hselect (.inr ⟨v, rfl⟩), fun _ => rfl⟩
  | retry =>
      simp only [VideosTable.step] at h
      split at h
      · obtain rfl := Option.some.inj h
        exact ⟨rfl, fun _ => rfl⟩
      · cases h
  | respond i response =>
      obtain ⟨f, -, rfl⟩ := Option.map_eq_some_iff.mp h
      cases response with
      | resolved data => exact absurd rfl (hnot i data)
      | rejected message => exact ⟨rfl, fun _ => rfl⟩

private theorem inRange_table {t' : VideosTable.State Json} {a : VideosTable.Act Json}
    (h : InRange toLowerCase sort s) (hstep : VideosTable.step s.toState a = some t') :
    InRange toLowerCase sort { s with toState := t', page := pageAfter s.page a } := by
  by_cases hresolved : ∃ i data, a = .respond i (.resolved data)
  · obtain ⟨i, data, rfl⟩ := hresolved
    exact inRange_of_first rfl
  · have hnot : ∀ i data, a ≠ .respond i (.resolved data) :=
      fun i data ha => hresolved ⟨i, data, ha⟩
    obtain ⟨hvideos, hpage⟩ := videos_of_pageAfter hstep hnot
    have hsorted : State.sorted toLowerCase sort
        { s with toState := t', page := pageAfter s.page a } = s.sorted toLowerCase sort := by
      rw [State.sorted, State.sorted, hvideos]
    rw [hpage] at hsorted ⊢
    refine ⟨h.nonneg, ?_⟩
    rw [hsorted]
    exact h.below

private theorem inRange_previous (h : InRange toLowerCase sort s) :
    InRange toLowerCase sort { s with page := max 0 (s.page - 1) } := by
  refine ⟨le_max_left _ _, ?_⟩
  rcases h.below with hzero | ⟨sorted, hsorted, hlt⟩
  · rw [hzero]
    exact .inl rfl
  · refine .inr ⟨sorted, hsorted, lt_of_le_of_lt ?_ hlt⟩
    have hnonneg := h.nonneg
    refine mul_le_mul_of_nonneg_right ?_ (Int.natCast_nonneg _)
    exact max_le hnonneg (Int.sub_le_self _ Int.one_nonneg)

private theorem inRange_next (h : InRange toLowerCase sort s) {sorted : List Json}
    (hsorted : s.sorted toLowerCase sort = some sorted) (hmany : 1 < totalPages sorted) :
    InRange toLowerCase sort { s with page := min (totalPages sorted - 1) (s.page + 1) } := by
  have hnonneg := h.nonneg
  have hlast := (totalPages_spec sorted).2 (totalPages sorted - 1) (by omega)
  refine ⟨by simp only; omega, .inr ⟨sorted, hsorted, ?_⟩⟩
  have hle : min ((totalPages sorted : ℤ) - 1) (s.page + 1) * pageSize ≤
      ((totalPages sorted - 1 : ℕ) : ℤ) * pageSize := by
    refine mul_le_mul_of_nonneg_right ?_ (Int.natCast_nonneg _)
    refine (min_le_left _ _).trans ?_
    omega
  exact lt_of_le_of_lt hle (by exact_mod_cast hlast)

private theorem inRange_step (h : InRange toLowerCase sort s)
    (hstep : step toLowerCase sort s a = some t) : InRange toLowerCase sort t := by
  unfold step at hstep
  split at hstep
  · cases hstep
  · next sorted hsorted =>
      cases a with
      | table a =>
          obtain ⟨t', ht', rfl⟩ := Option.map_eq_some_iff.mp hstep
          exact inRange_table h ht'
      | search v =>
          obtain rfl := Option.some.inj hstep
          exact inRange_of_first rfl
      | header key =>
          simp only at hstep
          split at hstep
          · obtain rfl := Option.some.inj hstep
            refine inRange_of_first ?_
            unfold State.toggleSort
            split <;> rfl
          · cases hstep
      | previous =>
          simp only at hstep
          split at hstep
          · obtain rfl := Option.some.inj hstep
            exact inRange_previous h
          · cases hstep
      | next =>
          simp only at hstep
          split at hstep
          · next henabled =>
              obtain rfl := Option.some.inj hstep
              have hmany : 1 < totalPages sorted := by simp_all
              exact inRange_next h hsorted hmany
          · cases hstep

end Steps

/-- Whatever toLowerCase and the sort do: after every run of handlers and responses the page
is the first or starts within the list, and the pages of every list are the list cut into
pieces of 1 to 25 videos. -/
theorem pages_partition (toLowerCase : String → String)
    (sort : (Json → Json → ℤ) → List Json → List Json) :
    (∀ s, Reachable Mounted (step toLowerCase sort) (fun _ _ => True) s →
      InRange toLowerCase sort s) ∧
      ∀ sorted : List Json,
        ((List.range (totalPages sorted)).flatMap fun k : ℕ => pageSlice sorted k) = sorted ∧
          ∀ k < totalPages sorted,
            pageSlice sorted k ≠ [] ∧ (pageSlice sorted k).length ≤ pageSize := by
  constructor
  · intro s hreach
    refine hreach.invariant ?_ ?_
    · rintro _ rfl
      exact inRange_of_first rfl
    · exact fun _ _ _ h _ hstep => inRange_step h hstep
  · exact fun sorted => ⟨flatMap_pageSlice sorted, fun k hk => pageSlice_of_lt hk⟩

end TrendingPipeline.Frontend.VideosPages
