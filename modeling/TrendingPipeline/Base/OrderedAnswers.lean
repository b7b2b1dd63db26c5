/- Unit: TrendingPipeline/Base/OrderedAnswers
   source: none (general)
   digest: Answers that leave ties open: what they have in common and how far they may differ. -/

import Mathlib.Data.Finset.Card
import Mathlib.Data.List.Perm.Basic
import Mathlib.Data.List.Sort

set_option autoImplicit false
set_option relaxedAutoImplicit false

namespace TrendingPipeline.Base.OrderedAnswers

universe u v

variable {α : Type u} {κ : Type v} {le : α → α → Prop}

structure OrdersBy (le : α → α → Prop) (rows out : List α) : Prop where
  perm : out.Perm rows
  ordered : out.Pairwise le

/-- `le`, with ties broken in favour of what `P` holds of. -/
def Prefers (le : α → α → Prop) (P : α → Prop) (a b : α) : Prop :=
  le a b ∧ (le b a → P b → P a)

instance [Std.Total le] (P : α → Prop) : Std.Total (Prefers le P) where
  total a b := by
    by_cases hab : le a b
    · by_cases hba : le b a
      · by_cases hP : P a
        · exact .inl ⟨hab, fun _ _ => hP⟩
        · exact .inr ⟨hba, fun _ ha => absurd ha hP⟩
      · exact .inl ⟨hab, fun h => absurd h hba⟩
    · have hba : le b a := (total_of le a b).resolve_left hab
      exact .inr ⟨hba, fun h => absurd h hab⟩

instance [IsTrans α le] (P : α → Prop) : IsTrans α (Prefers le P) where
  trans a b c hab hbc := by
    refine ⟨trans_of le hab.1 hbc.1, ?_⟩
    intro hca hc
    have hb : P b := hbc.2 (trans_of le hca hab.1) hc
    exact hab.2 (trans_of le hbc.1 hca) hb

variable [Std.Total le] [IsTrans α le]

variable (le) in
theorem exists_prefers (P : α → Prop) (rows : List α) :
    ∃ out : List α, out.Perm rows ∧ out.Pairwise (Prefers le P) := by
  classical
  exact ⟨rows.insertionSort (Prefers le P), List.perm_insertionSort _ _,
    List.pairwise_insertionSort _ _⟩

omit [Std.Total le] [IsTrans α le] in
theorem ordersBy_map_iff {β : Type u} {le : β → β → Prop} (f : α → β) {rows : List α}
    {out : List β} :
    OrdersBy le (rows.map f) out ↔
      ∃ ordered, OrdersBy (fun a b => le (f a) (f b)) rows ordered ∧ out = ordered.map f := by
  constructor
  · intro h
    have hrelated : List.Forall₂ (fun a b => f a = b) rows (rows.map f) :=
      List.forall₂_map_right_iff.mpr (List.forall₂_same.mpr fun _ _ => rfl)
    have hcomp : Relation.Comp (List.Forall₂ fun a b => f a = b) List.Perm rows out :=
      ⟨rows.map f, hrelated, h.perm.symm⟩
    rw [List.forall₂_comp_perm_eq_perm_comp_forall₂] at hcomp
    obtain ⟨ordered, hperm, hmap⟩ := hcomp
    have heq : ordered.map f = out :=
      List.forall₂_eq_eq_eq ▸ List.forall₂_map_left_iff.mpr hmap
    subst heq
    exact ⟨ordered, ⟨hperm.symm, List.pairwise_map.mp h.ordered⟩, rfl⟩
  · rintro ⟨ordered, h, rfl⟩
    exact ⟨h.perm.map f, List.pairwise_map.mpr h.ordered⟩

omit [IsTrans α le] in
private theorem countP_le_of_getElem [DecidableRel le] {rows out : List α}
    (hout : OrdersBy le rows out)
    {i : ℕ} (hi : i < out.length) : rows.countP (fun b => ¬ le out[i] b) ≤ i := by
  -- from its own place on, nothing has to stand before it
  have hlater : (out.drop i).countP (fun b => ¬ le out[i] b) = 0 := by
    refine List.countP_eq_zero.mpr ?_
    intro b hb
    obtain ⟨j, hj, rfl⟩ := List.mem_iff_getElem.mp hb
    rw [List.getElem_drop]
    rcases Nat.eq_zero_or_pos j with rfl | hpos
    · simpa using refl_of le out[i]
    · have hle := List.pairwise_iff_getElem.mp hout.ordered i (i + j) hi
        (by rw [List.length_drop] at hj; omega) (by omega)
      simpa using hle
  have hearlier : (out.take i).countP (fun b => ¬ le out[i] b) ≤ i :=
    (List.countP_le_length).trans (List.length_take_le i out)
  have hsplit : out.countP (fun b => ¬ le out[i] b) =
      (out.take i).countP (fun b => ¬ le out[i] b) +
        (out.drop i).countP (fun b => ¬ le out[i] b) := by
    rw [← List.countP_append, List.take_append_drop]
  rw [← hout.perm.countP_eq, hsplit, hlater]
  omega

omit [Std.Total le] [IsTrans α le] in
/-- If ties are broken for it, a row has only those before it that have to stand there. -/
private theorem idxOf_le_countP [DecidableEq α] [DecidableRel le] {rows out : List α} {a : α}
    (hperm : out.Perm rows) (hordered : out.Pairwise (Prefers le (· = a))) (ha : a ∈ out) :
    out.idxOf a ≤ rows.countP (fun b => ¬ le a b) := by
  have hi : out.idxOf a < out.length := List.idxOf_lt_length_iff.mpr ha
  have hbefore : (out.take (out.idxOf a)).countP (fun b => ¬ le a b) =
      (out.take (out.idxOf a)).length := by
    refine List.countP_eq_length.mpr ?_
    intro b hb
    obtain ⟨j, hj, rfl⟩ := List.mem_take_iff_getElem.mp hb
    have hj' : j < out.idxOf a := lt_of_lt_of_le hj (min_le_left _ _)
    have hprefers := List.pairwise_iff_getElem.mp hordered j (out.idxOf a) (by omega) hi hj'
    rw [List.getElem_idxOf hi] at hprefers
    refine decide_eq_true ?_
    intro hle
    have hne : (out[j] == a) = false := List.not_of_lt_findIdx hj'
    exact Bool.false_ne_true (hne.symm.trans (beq_iff_eq.mpr (hprefers.2 hle rfl)))
  have hsplit : (out.take (out.idxOf a)).countP (fun b => ¬ le a b) ≤
      out.countP (fun b => ¬ le a b) := (List.take_sublist _ _).countP_le
  rwa [hbefore, List.length_take, hperm.countP_eq, Nat.min_eq_left hi.le] at hsplit

/-- A row may be among the first `n` exactly when fewer than `n` rows have to stand before it. -/
theorem mem_take_iff_countP [DecidableRel le] {rows : List α} {a : α} {n : ℕ} :
    (∃ out, OrdersBy le rows out ∧ a ∈ out.take n) ↔
      a ∈ rows ∧ rows.countP (fun b => ¬ le a b) < n := by
  classical
  constructor
  · rintro ⟨out, hout, ha⟩
    obtain ⟨i, hi, rfl⟩ := List.mem_take_iff_getElem.mp ha
    have hlt : i < out.length := lt_of_lt_of_le hi (min_le_right _ _)
    refine ⟨hout.perm.mem_iff.mp (List.getElem_mem hlt), ?_⟩
    exact (countP_le_of_getElem hout hlt).trans_lt (lt_of_lt_of_le hi (min_le_left _ _))
  · rintro ⟨ha, hcount⟩
    obtain ⟨out, hperm, hordered⟩ := exists_prefers le (· = a) rows
    refine ⟨out, ⟨hperm, hordered.imp fun h => h.1⟩, ?_⟩
    have hmem : a ∈ out := hperm.mem_iff.mpr ha
    have hi : out.idxOf a < out.length := List.idxOf_lt_length_iff.mpr hmem
    have hlt : out.idxOf a < n := (idxOf_le_countP hperm hordered hmem).trans_lt hcount
    exact List.mem_take_iff_getElem.mpr
      ⟨out.idxOf a, lt_min hlt hi, List.getElem_idxOf hi⟩

/-- An answer lists one candidate for each key, in order. -/
structure Answer (key : α → κ) (cand : α → Prop) (le : α → α → Prop) (out : List α) : Prop where
  ordered : out.Pairwise le
  nodup : (out.map key).Nodup
  sound : ∀ a ∈ out, cand a
  complete : ∀ a, cand a → key a ∈ out.map key

variable {key : α → κ} {cand : α → Prop} {out out' : List α}

omit [Std.Total le] [IsTrans α le] in
private theorem Answer.keys_perm (h : Answer key cand le out) (h' : Answer key cand le out') :
    (out.map key).Perm (out'.map key) := by
  refine (List.perm_ext_iff_of_nodup h.nodup h'.nodup).mpr fun k => ⟨?_, ?_⟩
  · intro hk
    obtain ⟨a, ha, rfl⟩ := List.mem_map.mp hk
    exact h'.complete a (h.sound a ha)
  · intro hk
    obtain ⟨a, ha, rfl⟩ := List.mem_map.mp hk
    exact h.complete a (h'.sound a ha)

omit [Std.Total le] [IsTrans α le] in
theorem Answer.length_eq (h : Answer key cand le out) (h' : Answer key cand le out') :
    out.length = out'.length := by
  have hlength := (h.keys_perm h').length_eq
  rwa [List.length_map, List.length_map] at hlength

omit [Std.Total le] [IsTrans α le] in
theorem Answer.eq_of_key (h : Answer key cand le out) {a b : α} (ha : a ∈ out) (hb : b ∈ out)
    (hkey : key a = key b) : a = b :=
  List.inj_on_of_nodup_map h.nodup ha hb hkey

/-- A row, or the one of `a` and `b` that has its key. -/
def pick [DecidableEq κ] (key : α → κ) (a b x : α) : α :=
  if key x = key a then a else if key x = key b then b else x

section Pick

omit [Std.Total le] [IsTrans α le]

variable [DecidableEq κ] {a b : α}

private theorem key_pick (a b x : α) : key (pick key a b x) = key x := by
  unfold pick
  split
  · exact ‹key x = key a›.symm
  · split
    · exact ‹key x = key b›.symm
    · rfl

private theorem pick_of_eq_left {x : α} (h : key x = key a) : pick key a b x = a := if_pos h

private theorem pick_of_eq_right {x : α} (hne : key a ≠ key b) (h : key x = key b) :
    pick key a b x = b := by
  rw [pick, if_neg (by rw [h]; exact hne.symm), if_pos h]

private theorem pick_holds {P : α → Prop} {x : α} (ha : P a) (hb : P b) (hx : P x) :
    P (pick key a b x) := by
  unfold pick
  split
  · exact ha
  · split
    · exact hb
    · exact hx

private theorem Answer.picked (h : Answer key cand le out) (ha : cand a) (hb : cand b)
    (hperm : out'.Perm (out.map (pick key a b))) (hordered : out'.Pairwise le) :
    Answer key cand le out' := by
  have hkeys : (out'.map key).Perm (out.map key) := by
    have hmap : (out.map (pick key a b)).map key = out.map key := by
      rw [List.map_map]
      exact List.map_congr_left fun x _ => key_pick a b x
    rw [← hmap]
    exact hperm.map key
  constructor
  · exact hordered
  · exact hkeys.nodup_iff.mpr h.nodup
  · intro x hx
    obtain ⟨y, hy, rfl⟩ := List.mem_map.mp (hperm.mem_iff.mp hx)
    exact pick_holds ha hb (h.sound y hy)
  · exact fun x hx => hkeys.mem_iff.mpr (h.complete x hx)

end Pick

/-- Another answer gives the row `a` for its key, `b` for its own, and `b` no later than
`a`, if `b` may come first. -/
private theorem Answer.exchange (h : Answer key cand le out) {a b : α} (ha : cand a) (hb : cand b)
    (hkey : key a ≠ key b) (hle : le b a) :
    ∃ out', Answer key cand le out' ∧ a ∈ out' ∧ ∀ n, a ∈ out'.take n → b ∈ out'.take n := by
  classical
  -- the rows of the two keys are replaced, and the rest is put in order again
  obtain ⟨out', hperm, hordered⟩ := exists_prefers le (fun x => x = b) (out.map (pick key a b))
  have hmem : ∀ x, cand x → (∀ y, key y = key x → pick key a b y = x) → x ∈ out' := by
    intro x hx hsame
    obtain ⟨y, hy, hyx⟩ := List.mem_map.mp (h.complete x hx)
    exact hperm.mem_iff.mpr (List.mem_map.mpr ⟨y, hy, hsame y hyx⟩)
  have hmema : a ∈ out' := hmem a ha fun y hy => pick_of_eq_left hy
  have hmemb : b ∈ out' := hmem b hb fun y hy => pick_of_eq_right hkey hy
  refine ⟨out', h.picked ha hb hperm (hordered.imp fun hxy => hxy.1), hmema, ?_⟩
  intro n htake
  by_contra hdrop
  have hsplit := hordered
  rw [← List.take_append_drop n out', List.pairwise_append] at hsplit
  have hbdrop : b ∈ out'.drop n := by
    have hb' : b ∈ out'.take n ++ out'.drop n := by rw [List.take_append_drop]; exact hmemb
    exact (List.mem_append.mp hb').resolve_left hdrop
  have hab := hsplit.2.2 a htake b hbdrop
  have heq : a = b := hab.2 hle rfl
  exact hkey (congrArg key heq)

def pageOf (L : ℕ) (out : List α) (k : ℕ) : List α := (out.drop (k * L)).take L

/-- Pages read one after the other, each from an answer of its own, up to the first
empty one. -/
structure Read (key : α → κ) (cand : α → Prop) (le : α → α → Prop) (L : ℕ)
    (pages : List (List α)) : Prop where
  page : ∀ k p, pages[k]? = some p → ∃ out, Answer key cand le out ∧ p = pageOf L out k
  nonempty : ∀ p ∈ pages.dropLast, p ≠ []
  last : pages.getLast? = some []

def Exact [DecidableEq κ] (key : α → κ) (cand : α → Prop) (pages : List (List α)) : Prop :=
  ∀ a, cand a → (pages.flatten.map key).count (key a) = 1

/-- Some `b` keys come first however ties are broken: no candidate for another key may
stand before a candidate for one of them. -/
def Separated (key : α → κ) (cand : α → Prop) (le : α → α → Prop) (b : ℕ) : Prop :=
  ∃ first : Finset κ, first.card = b ∧ (∀ k ∈ first, ∃ a, cand a ∧ key a = k) ∧
    ∀ a a', cand a → cand a' → key a ∈ first → key a' ∉ first → ¬ le a' a

section Pages

omit [Std.Total le] [IsTrans α le]

variable {L b : ℕ}

theorem flatMap_pageOf (L : ℕ) (out : List α) (m : ℕ) :
    (List.range m).flatMap (pageOf L out) = out.take (m * L) := by
  induction m with
  | zero => rw [Nat.zero_mul]; rfl
  | succ m ih =>
      rw [List.range_succ, List.flatMap_append, ih, List.flatMap_singleton, pageOf,
        Nat.succ_mul, List.take_add]

theorem pageOf_ne_nil {out : List α} {k : ℕ} (hL : 0 < L) (hk : k * L < out.length) :
    pageOf L out k ≠ [] := by
  intro hnil
  have hlength := congrArg List.length hnil
  rw [pageOf, List.length_take, List.length_drop, List.length_nil] at hlength
  omega

theorem length_le_of_pageOf {out : List α} {k : ℕ} (hL : 0 < L) (h : pageOf L out k = []) :
    out.length ≤ k * L := by
  by_contra hlt
  exact pageOf_ne_nil hL (Nat.lt_of_not_le hlt) h

private theorem Answer.mem_take_iff [DecidableEq κ] (h : Answer key cand le out) {first : Finset κ}
    (hb : first.card ≤ out.length) (hcand : ∀ k ∈ first, ∃ a, cand a ∧ key a = k)
    (hsep : ∀ a a', cand a → cand a' → key a ∈ first → key a' ∉ first → ¬ le a' a) (k : κ) :
    k ∈ (out.take first.card).map key ↔ k ∈ first := by
  have hnodup : ((out.take first.card).map key).Nodup := by
    rw [List.map_take]
    exact h.nodup.sublist (List.take_sublist _ _)
  have hcard : ((out.take first.card).map key).toFinset.card = first.card := by
    rw [List.toFinset_card_of_nodup hnodup, List.length_map, List.length_take, Nat.min_eq_left hb]
  have hsplit := h.ordered
  rw [← List.take_append_drop first.card out, List.pairwise_append] at hsplit
  have heq : ((out.take first.card).map key).toFinset = first := by
    by_cases hsub : first ⊆ ((out.take first.card).map key).toFinset
    · exact (Finset.eq_of_subset_of_card_le hsub hcard.le).symm
    · -- a row of the first keys comes later, so all before it are of the first keys
      obtain ⟨k, hk, hmiss⟩ := Finset.not_subset.mp hsub
      obtain ⟨a, ha, rfl⟩ := hcand k hk
      obtain ⟨x, hx, hxk⟩ := List.mem_map.mp (h.complete a ha)
      have hlate : x ∈ out.drop first.card := by
        rw [← List.take_append_drop first.card out] at hx
        refine (List.mem_append.mp hx).resolve_left fun hearly => hmiss ?_
        exact List.mem_toFinset.mpr (List.mem_map.mpr ⟨x, hearly, hxk⟩)
      refine Finset.eq_of_subset_of_card_le ?_ hcard.ge
      intro j hj
      obtain ⟨y, hy, rfl⟩ := List.mem_map.mp (List.mem_toFinset.mp hj)
      by_contra hout
      refine hsep x y (h.sound x hx) (h.sound y (List.mem_of_mem_take hy)) ?_ hout
        (hsplit.2.2 y hy x hlate)
      rw [hxk]
      exact hk
  rw [← List.mem_toFinset, heq]

/-- The rows before a separated place, or before the end, have the same keys in every
answer. -/
private theorem Answer.take_perm (h : Answer key cand le out) (h' : Answer key cand le out')
    (hsep : 0 < b → b < out.length → Separated key cand le b) :
    ((out.take b).map key).Perm ((out'.take b).map key) := by
  classical
  have hlength := h.length_eq h'
  rcases Nat.eq_zero_or_pos b with rfl | hpos
  · rw [List.take_zero, List.take_zero]
  · by_cases hlt : b < out.length
    · obtain ⟨first, rfl, hcand, hfirst⟩ := hsep hpos hlt
      refine (List.perm_ext_iff_of_nodup ?_ ?_).mpr ?_
      · rw [List.map_take]
        exact h.nodup.sublist (List.take_sublist _ _)
      · rw [List.map_take]
        exact h'.nodup.sublist (List.take_sublist _ _)
      · intro k
        rw [h.mem_take_iff hlt.le hcand hfirst, h'.mem_take_iff (hlength ▸ hlt.le) hcand hfirst]
    · rw [List.take_of_length_le (Nat.le_of_not_lt hlt),
        List.take_of_length_le (hlength ▸ Nat.le_of_not_lt hlt)]
      exact h.keys_perm h'

private theorem Read.keys_perm {pages : List (List α)} (h : Read key cand le L pages)
    (hout : Answer key cand le out)
    (hsep : ∀ k, 0 < k * L → k * L < out.length → Separated key cand le (k * L)) (k : ℕ)
    (hk : k ≤ pages.length) :
    ((pages.take k).flatten.map key).Perm ((out.take (k * L)).map key) := by
  induction k generalizing out with
  | zero =>
      rw [List.take_zero, Nat.zero_mul, List.take_zero]
      exact List.Perm.refl _
  | succ k ih =>
      obtain ⟨out', hout', hpage⟩ := h.page k _ (List.getElem?_eq_getElem hk)
      have hlength := hout.length_eq hout'
      have hprev := ih hout' (by rwa [← hlength]) (Nat.le_of_succ_le hk)
      rw [List.take_succ_eq_append_getElem hk, List.flatten_append, List.map_append,
        List.flatten_singleton, hpage, pageOf]
      have hnext : (out'.take ((k + 1) * L)).map key =
          (out'.take (k * L)).map key ++ ((out'.drop (k * L)).take L).map key := by
        rw [Nat.succ_mul, List.take_add, List.map_append]
      refine (hprev.append_right _).trans ?_
      rw [← hnext]
      exact hout'.take_perm hout fun hpos hlt => hsep (k + 1) hpos (hlength ▸ hlt)

private theorem Read.exact_of_separated [DecidableEq κ] {pages : List (List α)}
    (h : Read key cand le L pages) (hL : 0 < L)
    (hsep : ∀ k, 0 < k * L → k * L < out.length → Separated key cand le (k * L))
    (hout : Answer key cand le out) : Exact key cand pages := by
  -- the last page is empty, so all rows are before its end
  obtain ⟨init, rfl⟩ := List.getLast?_eq_some_iff.mp h.last
  obtain ⟨out', hout', hpage⟩ := h.page init.length [] List.getElem?_concat_length
  have hend := length_le_of_pageOf hL hpage.symm
  have hperm := h.keys_perm hout hsep init.length (by rw [List.length_append]; omega)
  rw [List.take_left, List.take_of_length_le (hout.length_eq hout' ▸ hend)] at hperm
  intro a ha
  rw [List.flatten_append, List.flatten_singleton, List.append_nil, hperm.count_eq]
  exact List.count_eq_one_of_mem hout.nodup (hout.complete a ha)

/-- The pages of answers `f 0`, `f 1`, ..., as many as it takes. -/
def pagesOf (L n : ℕ) (f : ℕ → List α) : List (List α) :=
  (List.range ((n + L - 1) / L + 1)).map fun k => pageOf L (f k) k

private theorem read_pagesOf (hL : 0 < L) {f : ℕ → List α} {n : ℕ}
    (hf : ∀ k, Answer key cand le (f k))
    (hn : ∀ k, (f k).length = n) : Read key cand le L (pagesOf L n f) := by
  have hsplit : pagesOf L n f =
      (List.range ((n + L - 1) / L)).map (fun k => pageOf L (f k) k) ++
        [pageOf L (f ((n + L - 1) / L)) ((n + L - 1) / L)] := by
    rw [pagesOf, List.range_succ, List.map_append]
    rfl
  constructor
  · intro k p hk
    rw [pagesOf, List.getElem?_map] at hk
    obtain ⟨j, hj, rfl⟩ := Option.map_eq_some_iff.mp hk
    obtain ⟨hlt, rfl⟩ := List.getElem?_eq_some_iff.mp hj
    rw [List.getElem_range]
    exact ⟨f k, hf k, rfl⟩
  · intro p hp
    rw [hsplit, List.dropLast_concat] at hp
    obtain ⟨k, hk, rfl⟩ := List.mem_map.mp hp
    refine pageOf_ne_nil hL ?_
    rw [hn]
    have hlt : k + 1 ≤ (n + L - 1) / L := List.mem_range.mp hk
    have hmul : (k + 1) * L ≤ n + L - 1 := (Nat.le_div_iff_mul_le hL).mp hlt
    rw [Nat.succ_mul] at hmul
    omega
  · rw [hsplit, List.getLast?_concat, pageOf]
    refine congrArg some (List.take_eq_nil_of_eq_nil (List.drop_eq_nil_of_le ?_))
    rw [hn]
    have hlt := Nat.lt_mul_div_succ (n + L - 1) hL
    rw [Nat.mul_comm, Nat.succ_mul] at hlt
    omega

private theorem flatten_pagesOf (hL : 0 < L) {n k : ℕ} (hk : k * L < n) (hn : out.length = n)
    (hn' : out'.length = n) :
    (pagesOf L n fun j => if j < k then out else out').flatten =
      out.take (k * L) ++ out'.drop (k * L) := by
  have hm : k ≤ (n + L - 1) / L + 1 := by
    have hle : k ≤ (n + L - 1) / L := by
      rw [Nat.le_div_iff_mul_le hL]
      omega
    omega
  obtain ⟨m, hm⟩ := Nat.exists_eq_add_of_le hm
  have hend : n ≤ (k + m) * L := by
    rw [← hm]
    have hlt := Nat.lt_mul_div_succ (n + L - 1) hL
    rw [Nat.mul_comm] at hlt
    omega
  rw [pagesOf, hm, List.range_add, List.map_append, List.flatten_append, ← List.flatMap_def,
    List.map_map, ← List.flatMap_def]
  congr 1
  · rw [← flatMap_pageOf]
    refine List.flatMap_congr ?_
    intro j hj
    rw [if_pos (List.mem_range.mp hj)]
  · have hrest : (List.range m).flatMap (pageOf L (out'.drop (k * L))) = out'.drop (k * L) := by
      rw [flatMap_pageOf]
      refine List.take_of_length_le ?_
      rw [List.length_drop, hn']
      rw [Nat.add_mul] at hend
      omega
    refine Eq.trans (List.flatMap_congr ?_) hrest
    intro j _
    rw [Function.comp_apply, if_neg (by omega), pageOf, pageOf, List.drop_drop, Nat.add_mul]

end Pages

/-- Whatever answers the pages are taken from, every key is read once: exactly when the
keys before each page are separated from the others. -/
theorem exact_iff_separated [DecidableEq κ] {L : ℕ} (hL : 0 < L) (hout : Answer key cand le out) :
    (∀ pages, Read key cand le L pages → Exact key cand pages) ↔
      ∀ k, 0 < k * L → k * L < out.length → Separated key cand le (k * L) := by
  constructor
  · intro hexact k _ hlt
    have hnodup : ((out.take (k * L)).map key).Nodup := by
      rw [List.map_take]
      exact hout.nodup.sublist (List.take_sublist _ _)
    refine ⟨((out.take (k * L)).map key).toFinset, ?_, ?_, ?_⟩
    · rw [List.toFinset_card_of_nodup hnodup, List.length_map, List.length_take,
        Nat.min_eq_left hlt.le]
    · intro j hj
      obtain ⟨x, hx, rfl⟩ := List.mem_map.mp (List.mem_toFinset.mp hj)
      exact ⟨x, hout.sound x (List.mem_of_mem_take hx), rfl⟩
    · intro a a' ha ha' hin hnot hle
      rw [List.mem_toFinset] at hin hnot
      have hne : key a ≠ key a' := fun heq => hnot (heq ▸ hin)
      -- the pages from the `k`-th on come from an answer that has `a'` before `a`
      obtain ⟨out', hout', hmem, hearly⟩ := hout.exchange ha ha' hne hle
      have hread := read_pagesOf (n := out.length) hL
        (f := fun j => if j < k then out else out')
        (fun j => by split <;> assumption)
        (fun j => by split <;> first | rfl | exact (hout.length_eq hout').symm)
      have hflat := flatten_pagesOf hL hlt rfl (hout.length_eq hout').symm
      have hsplit : (out'.take (k * L)).map key ++ (out'.drop (k * L)).map key = out'.map key := by
        rw [← List.map_append, List.take_append_drop]
      by_cases htake : a ∈ out'.take (k * L)
      · have hcount := hexact _ hread a' ha'
        rw [hflat, List.map_append, List.count_append, List.count_eq_zero_of_not_mem hnot,
          Nat.zero_add] at hcount
        have hdrop : key a' ∈ (out'.drop (k * L)).map key :=
          List.count_pos_iff.mp (by rw [hcount]; exact Nat.one_pos)
        have hnodup' := hout'.nodup
        rw [← hsplit, List.nodup_append'] at hnodup'
        exact hnodup'.2.2 (List.mem_map_of_mem (hearly _ htake)) hdrop
      · have hcount := hexact _ hread a ha
        rw [hflat, List.map_append, List.count_append] at hcount
        have hdrop : a ∈ out'.drop (k * L) := by
          rw [← List.take_append_drop (k * L) out'] at hmem
          exact (List.mem_append.mp hmem).resolve_left htake
        have hfirst := List.count_pos_iff.mpr hin
        have hsecond := List.count_pos_iff.mpr (List.mem_map_of_mem (f := key) hdrop)
        omega
  · exact fun hsep pages hread => hread.exact_of_separated hL hsep hout

end TrendingPipeline.Base.OrderedAnswers
