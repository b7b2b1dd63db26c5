/- Unit: TrendingPipeline/Store/Select
   source: none (SQL as PostgreSQL runs it)
   digest: SELECT DISTINCT ON with an outer ORDER BY, LIMIT and OFFSET, and all it may answer. -/

import TrendingPipeline.Base.OrderedAnswers
import TrendingPipeline.Store.Queries

set_option autoImplicit false
set_option relaxedAutoImplicit false

namespace TrendingPipeline.Store.Select

open TrendingPipeline.Base.OrderedAnswers
open TrendingPipeline.Store.Queries (distinctOn)

/-- The order of texts; texts that compare equal are equal. -/
structure Collation where
  le : String → String → Prop
  total : ∀ s t, le s t ∨ le t s
  trans : ∀ s t u, le s t → le t u → le s u
  antisymm : ∀ s t, le s t → le t s → s = t

/-- A value of a column or of an argument; instants in microseconds. -/
inductive Datum
  | text (s : String)
  | int (n : ℤ)
  | instant (micros : ℤ)
  deriving DecidableEq

variable (coll : Collation)

/-- Values of one type are compared; the order of the types plays no part. -/
def Datum.le : Datum → Datum → Prop
  | .text s, .text t => coll.le s t
  | .int m, .int n => m ≤ n
  | .instant m, .instant n => m ≤ n
  | .text _, .int _ | .text _, .instant _ | .int _, .instant _ => True
  | .int _, .text _ | .instant _, .text _ | .instant _, .int _ => False

theorem Datum.le_total (a b : Datum) : a.le coll b ∨ b.le coll a := by
  cases a <;> cases b <;> simp [Datum.le, coll.total, Int.le_total]

theorem Datum.le_trans {a b c : Datum} (hab : a.le coll b) (hbc : b.le coll c) : a.le coll c := by
  cases a <;> cases b <;> cases c <;> simp only [Datum.le] at hab hbc ⊢
  · exact coll.trans _ _ _ hab hbc
  · exact Int.le_trans hab hbc
  · exact Int.le_trans hab hbc

theorem Datum.le_antisymm {a b : Datum} (hab : a.le coll b) (hba : b.le coll a) : a = b := by
  cases a <;> cases b <;> simp only [Datum.le] at hab hba
  · exact congrArg Datum.text (coll.antisymm _ _ hab hba)
  · exact congrArg Datum.int (Int.le_antisymm hab hba)
  · exact congrArg Datum.instant (Int.le_antisymm hab hba)

inductive Direction
  | asc
  | desc
  deriving DecidableEq

def Direction.le : Direction → Datum → Datum → Prop
  | .asc, a, b => a.le coll b
  | .desc, a, b => b.le coll a

theorem Direction.le_total (d : Direction) (a b : Datum) : d.le coll a b ∨ d.le coll b a := by
  cases d
  · exact Datum.le_total coll a b
  · exact Datum.le_total coll b a

theorem Direction.le_trans {d : Direction} {a b c : Datum} (hab : d.le coll a b)
    (hbc : d.le coll b c) : d.le coll a c := by
  cases d
  · exact Datum.le_trans coll hab hbc
  · exact Datum.le_trans coll hbc hab

theorem Direction.le_antisymm {d : Direction} {a b : Datum} (hab : d.le coll a b)
    (hba : d.le coll b a) : a = b := by
  cases d
  · exact Datum.le_antisymm coll hab hba
  · exact Datum.le_antisymm coll hba hab

variable {α γ : Type} (datum : α → γ → Datum)

/-- The order of an ORDER BY list: rows equal in one column are compared by the rest. -/
def orderLe : List (γ × Direction) → α → α → Prop
  | [], _, _ => True
  | (column, d) :: rest, a, b =>
      d.le coll (datum a column) (datum b column) ∧
        (datum a column = datum b column → orderLe rest a b)

instance orderLe_total (orders : List (γ × Direction)) : Std.Total (orderLe coll datum orders) where
  total a b := by
    induction orders with
    | nil => exact .inl trivial
    | cons o rest ih =>
        obtain ⟨column, d⟩ := o
        by_cases heq : datum a column = datum b column
        · have hrefl : d.le coll (datum a column) (datum a column) := by
            simpa using d.le_total coll (datum a column) (datum a column)
          rcases ih with hle | hle
          · exact .inl ⟨heq ▸ hrefl, fun _ => hle⟩
          · exact .inr ⟨heq ▸ hrefl, fun _ => hle⟩
        · rcases d.le_total coll (datum a column) (datum b column) with hle | hle
          · exact .inl ⟨hle, fun h => absurd h heq⟩
          · exact .inr ⟨hle, fun h => absurd h.symm heq⟩

instance orderLe_trans (orders : List (γ × Direction)) :
    IsTrans α (orderLe coll datum orders) where
  trans a b c := by
    induction orders with
    | nil => exact fun _ _ => trivial
    | cons o rest ih =>
        obtain ⟨column, d⟩ := o
        rintro ⟨hab, hab'⟩ ⟨hbc, hbc'⟩
        refine ⟨d.le_trans coll hab hbc, ?_⟩
        intro heq
        have hmid : datum a column = datum b column := by
          rw [← heq] at hbc
          exact d.le_antisymm coll hab hbc
        exact ih (hab' hmid) (hbc' (hmid.symm.trans heq))

inductive Comparison
  | eq
  | gt
  | lt
  deriving DecidableEq

/-- `column op $n`. -/
structure Condition (γ : Type) where
  column : γ
  comparison : Comparison
  placeholder : ℕ

/-- `SELECT * FROM (SELECT DISTINCT ON (column) .. WHERE .. ORDER BY ..) sub
ORDER BY .. LIMIT $n OFFSET $m`. -/
structure Statement (γ : Type) where
  distinctColumn : γ
  conditions : List (Condition γ)
  innerOrder : List (γ × Direction)
  outerOrder : List (γ × Direction)
  limit : ℕ
  offset : ℕ

/-- A statement with the arguments in the places of its placeholders. -/
structure Bound (γ : Type) where
  conditions : List (γ × Comparison × Datum)
  limit : ℤ
  offset : ℤ

/-- The argument of `$n`. -/
def argument (args : List Datum) : ℕ → Option Datum
  | 0 => none
  | n + 1 => args[n]?

def integer : Datum → Option ℤ
  | .int n => some n
  | .text _ | .instant _ => none

/-- Placeholders are bound by position; one without an argument is an error, and so
is an argument without a placeholder. -/
def Statement.bind (st : Statement γ) (args : List Datum) : Option (Bound γ) := do
  let conditions ← st.conditions.mapM fun c =>
    (argument args c.placeholder).map fun value => (c.column, c.comparison, value)
  let limit ← (argument args st.limit).bind integer
  let offset ← (argument args st.offset).bind integer
  if ∀ n < args.length, n + 1 ∈ st.conditions.map (·.placeholder) ++ [st.limit, st.offset] then
    some { conditions := conditions, limit := limit, offset := offset }
  else none

/-- One comparison of instants or integers; no text is compared but for equality. -/
def Comparison.holds : Comparison → Datum → Datum → Bool
  | .eq, a, b => a = b
  | .gt, .int m, .int n | .gt, .instant m, .instant n => n < m
  | .lt, .int m, .int n | .lt, .instant m, .instant n => m < n
  | .gt, _, _ | .lt, _, _ => false

def Bound.holds (q : Bound γ) (row : α) : Bool :=
  q.conditions.all fun (column, comparison, value) => comparison.holds (datum row column) value

/-- `out` is what the statement may answer on the rows; `none` is an error. Each ORDER BY
leaves the order of rows that it does not tell apart open. -/
def Statement.Runs (st : Statement γ) (args : List Datum) (rows : List α) (out : Option (List α)) :
    Prop :=
  match st.bind args with
  | none => out = none
  | some q =>
      if q.limit < 0 ∨ q.offset < 0 then out = none
      else
        ∃ inner outer,
          OrdersBy (orderLe coll datum st.innerOrder) (rows.filter (q.holds datum)) inner ∧
            OrdersBy (orderLe coll datum st.outerOrder)
              (distinctOn (datum · st.distinctColumn) inner) outer ∧
            out = some ((outer.drop q.offset.toNat).take q.limit.toNat)

section DistinctOn

variable {β : Type} [DecidableEq β] {key : α → β} {l : List α}

theorem distinctOn_congr {β' : Type} [DecidableEq β'] {key' : α → β'}
    (h : ∀ a b, key a = key b ↔ key' a = key' b) (l : List α) :
    distinctOn key l = distinctOn key' l := by
  induction l with
  | nil => rfl
  | cons x xs ih =>
      rw [distinctOn, distinctOn, ih]
      refine congrArg (x :: ·) (List.filter_congr ?_)
      intro y _
      rw [decide_eq_decide]
      exact not_congr (h y x)

theorem mem_of_mem_distinctOn {a : α} (h : a ∈ distinctOn key l) : a ∈ l := by
  induction l with
  | nil => cases h
  | cons x xs ih =>
      rcases List.mem_cons.mp h with rfl | h
      · exact List.mem_cons_self
      · exact List.mem_cons_of_mem x (ih (List.mem_filter.mp h).1)

variable (key) in
theorem key_mem_distinctOn {a : α} (h : a ∈ l) : key a ∈ (distinctOn key l).map key := by
  induction l with
  | nil => cases h
  | cons x xs ih =>
      rw [distinctOn, List.map_cons]
      by_cases heq : key a = key x
      · exact heq ▸ List.mem_cons_self
      · refine List.mem_cons_of_mem _ ?_
        have ha : a ∈ xs := by
          rcases List.mem_cons.mp h with rfl | h
          · exact absurd rfl heq
          · exact h
        obtain ⟨b, hb, hkey⟩ := List.mem_map.mp (ih ha)
        refine List.mem_map.mpr ⟨b, List.mem_filter.mpr ⟨hb, ?_⟩, hkey⟩
        rw [hkey]
        exact decide_eq_true heq

theorem nodup_distinctOn (l : List α) : ((distinctOn key l).map key).Nodup := by
  induction l with
  | nil => exact List.nodup_nil
  | cons x xs ih =>
      rw [distinctOn, List.map_cons, List.nodup_cons]
      refine ⟨?_, ih.sublist (List.filter_sublist.map key)⟩
      intro hx
      obtain ⟨b, hb, hkey⟩ := List.mem_map.mp hx
      exact of_decide_eq_true (List.mem_filter.mp hb).2 hkey

theorem before_of_mem_distinctOn {R : α → α → Prop} (hl : l.Pairwise R) {a b : α}
    (ha : a ∈ distinctOn key l) (hb : b ∈ l) (hkey : key b = key a) : a = b ∨ R a b := by
  induction l with
  | nil => cases hb
  | cons x xs ih =>
      obtain ⟨hx, hxs⟩ := List.pairwise_cons.mp hl
      rcases List.mem_cons.mp ha with rfl | ha
      · rcases List.mem_cons.mp hb with rfl | hb
        · exact .inl rfl
        · exact .inr (hx b hb)
      · obtain ⟨ha, hne⟩ := List.mem_filter.mp ha
        rcases List.mem_cons.mp hb with rfl | hb
        · exact absurd hkey.symm (of_decide_eq_true hne)
        · exact ih hxs ha hb

end DistinctOn

/-- A selected row that no other row of its value precedes. -/
def Foremost (orders : List (γ × Direction)) (column : γ) (rows : List α) (a : α) : Prop :=
  a ∈ rows ∧ ∀ b ∈ rows, datum b column = datum a column → orderLe coll datum orders a b

variable {st : Statement γ} {args : List Datum} {rows : List α} {rest : List (γ × Direction)}

/-- Both ORDER BYs together give the answers in which each value has a foremost row:
nothing else, and each of them. -/
private theorem ordered_iff_answer (hinner : st.innerOrder = (st.distinctColumn, .asc) :: rest)
    {outer : List α} :
    (∃ inner, OrdersBy (orderLe coll datum st.innerOrder) rows inner ∧
      OrdersBy (orderLe coll datum st.outerOrder)
        (distinctOn (datum · st.distinctColumn) inner) outer) ↔
      Answer (datum · st.distinctColumn) (Foremost coll datum rest st.distinctColumn rows)
        (orderLe coll datum st.outerOrder) outer := by
  rw [hinner]
  constructor
  · rintro ⟨inner, hin, hout⟩
    have hkeys : (outer.map (datum · st.distinctColumn)).Perm
        ((distinctOn (datum · st.distinctColumn) inner).map (datum · st.distinctColumn)) :=
      hout.perm.map _
    refine ⟨hout.ordered, hkeys.nodup_iff.mpr (nodup_distinctOn inner), ?_, ?_⟩
    · intro a ha
      have hkept := hout.perm.mem_iff.mp ha
      refine ⟨hin.perm.mem_iff.mp (mem_of_mem_distinctOn hkept), ?_⟩
      intro b hb hkey
      rcases before_of_mem_distinctOn hin.ordered hkept (hin.perm.mem_iff.mpr hb) hkey with
        rfl | hle
      · exact refl_of (orderLe coll datum rest) a
      · exact hle.2 hkey.symm
    · intro a ha
      exact hkeys.mem_iff.mpr (key_mem_distinctOn _ (hin.perm.mem_iff.mpr ha.1))
  · intro hanswer
    -- among rows that the inner order does not tell apart, those of the answer come first
    obtain ⟨inner, hperm, hordered⟩ :=
      exists_prefers (orderLe coll datum ((st.distinctColumn, .asc) :: rest)) (· ∈ outer) rows
    have hkept : ∀ a ∈ distinctOn (datum · st.distinctColumn) inner, a ∈ outer := by
      intro a ha
      have hrow := hperm.mem_iff.mp (mem_of_mem_distinctOn ha)
      have hbefore : ∀ b ∈ rows, datum b st.distinctColumn = datum a st.distinctColumn →
          a = b ∨
            Prefers (orderLe coll datum ((st.distinctColumn, .asc) :: rest)) (· ∈ outer) a b :=
        fun b hb hkey => before_of_mem_distinctOn hordered ha (hperm.mem_iff.mpr hb) hkey
      have hforemost : Foremost coll datum rest st.distinctColumn rows a := by
        refine ⟨hrow, ?_⟩
        intro b hb hkey
        rcases hbefore b hb hkey with rfl | hle
        · exact refl_of (orderLe coll datum rest) a
        · exact hle.1.2 hkey.symm
      obtain ⟨c, hc, hkey⟩ := List.mem_map.mp (hanswer.complete a hforemost)
      obtain ⟨hcrow, hcfirst⟩ := hanswer.sound c hc
      rcases hbefore c hcrow hkey with rfl | hle
      · exact hc
      · refine hle.2 ⟨?_, fun _ => hcfirst a hrow hkey.symm⟩ hc
        rw [hkey]
        exact (Datum.le_total coll _ _).elim id id
    refine ⟨inner, ⟨hperm, hordered.imp fun h => h.1⟩, ⟨?_, hanswer.ordered⟩⟩
    refine (List.perm_ext_iff_of_nodup hanswer.nodup.of_map (nodup_distinctOn inner).of_map).mpr
      fun a => ⟨?_, hkept a⟩
    intro ha
    have hrow := (hanswer.sound a ha).1
    obtain ⟨b, hb, hkey⟩ :=
      List.mem_map.mp (key_mem_distinctOn (datum · st.distinctColumn) (hperm.mem_iff.mpr hrow))
    rwa [← hanswer.eq_of_key (hkept b hb) ha hkey]

theorem runs_iff_answer {q : Bound γ} (hbind : st.bind args = some q) (hlimit : 0 ≤ q.limit)
    (hoffset : 0 ≤ q.offset) (hinner : st.innerOrder = (st.distinctColumn, .asc) :: rest)
    {out : Option (List α)} :
    st.Runs coll datum args rows out ↔
      ∃ outer, Answer (datum · st.distinctColumn)
          (Foremost coll datum rest st.distinctColumn (rows.filter (q.holds datum)))
          (orderLe coll datum st.outerOrder) outer ∧
        out = some ((outer.drop q.offset.toNat).take q.limit.toNat) := by
  have hpage : ¬ (q.limit < 0 ∨ q.offset < 0) := by omega
  simp only [Statement.Runs, hbind, if_neg hpage]
  constructor
  · rintro ⟨inner, outer, hin, hout, rfl⟩
    exact ⟨outer, (ordered_iff_answer coll datum hinner).mp ⟨inner, hin, hout⟩, rfl⟩
  · rintro ⟨outer, hanswer, rfl⟩
    obtain ⟨inner, hin, hout⟩ := (ordered_iff_answer coll datum hinner).mpr hanswer
    exact ⟨inner, outer, hin, hout, rfl⟩

/-- `SELECT columns FROM .. WHERE .. ORDER BY ..`. -/
structure PlainStatement (γ : Type) where
  columns : List γ
  conditions : List (Condition γ)
  order : List (γ × Direction)

/-- As for the other statements, every argument has a placeholder and the reverse. -/
def PlainStatement.bind (st : PlainStatement γ) (args : List Datum) :
    Option (List (γ × Comparison × Datum)) := do
  let conditions ← st.conditions.mapM fun c =>
    (argument args c.placeholder).map fun value => (c.column, c.comparison, value)
  if ∀ n < args.length, n + 1 ∈ st.conditions.map (·.placeholder) then some conditions else none

/-- `out` is what the statement may answer on the rows; `none` is an error. -/
def PlainStatement.Runs (st : PlainStatement γ) (args : List Datum) (rows : List α)
    (out : Option (List (List Datum))) : Prop :=
  match st.bind args with
  | none => out = none
  | some conditions =>
      ∃ ordered,
        OrdersBy (orderLe coll datum st.order)
            (rows.filter fun row => conditions.all fun c => c.2.1.holds (datum row c.1) c.2.2)
            ordered ∧
          out = some (ordered.map fun row => st.columns.map (datum row))

end TrendingPipeline.Store.Select
