/- Unit: TrendingPipeline/Store/GroupBy
   source: none (SQL as PostgreSQL runs it)
   digest: SELECT with GROUP BY, COUNT and SUM, ORDER BY an aggregate and LIMIT. -/

import TrendingPipeline.Store.Select

set_option autoImplicit false
set_option relaxedAutoImplicit false

namespace TrendingPipeline.Store.GroupBy

open TrendingPipeline.Base.OrderedAnswers
open TrendingPipeline.Store.Queries (distinctOn)
open TrendingPipeline.Store.Select

variable {α γ : Type}

inductive Aggregate (γ : Type)
  | count
  | sum (column : γ)
  deriving DecidableEq

/-- `SELECT columns, aggregates FROM .. WHERE .. GROUP BY columns ORDER BY .. LIMIT $n`. -/
structure GroupedStatement (γ : Type) where
  groupColumns : List γ
  aggregates : List (Aggregate γ)
  conditions : List (Condition γ)
  order : List (Aggregate γ × Direction)
  limit : ℕ

structure RowGroup (α : Type) where
  key : List Datum
  members : List α

variable (datum : α → γ → Datum)

/-- Every group that has a row, once. -/
def rowGroups (columns : List γ) (rows : List α) : List (RowGroup α) :=
  (distinctOn (fun v => columns.map (datum v)) rows).map fun v =>
    { key := columns.map (datum v)
      members := rows.filter fun w => columns.map (datum w) = columns.map (datum v) }

/-- The sum of a column of integers is a NUMERIC, so it has no range. -/
def Aggregate.value (members : List α) : Aggregate γ → Datum
  | .count => .int members.length
  | .sum column => .int (members.map fun v => (integer (datum v column)).getD 0).sum

/-- Placeholders are bound by position, and every argument has one. -/
def GroupedStatement.bind (st : GroupedStatement γ) (args : List Datum) : Option (Bound γ) := do
  let conditions ← st.conditions.mapM fun c =>
    (argument args c.placeholder).map fun value => (c.column, c.comparison, value)
  let limit ← (argument args st.limit).bind integer
  if ∀ n < args.length, n + 1 ∈ st.conditions.map (·.placeholder) ++ [st.limit] then
    some { conditions := conditions, limit := limit, offset := 0 }
  else none

def GroupedStatement.output (st : GroupedStatement γ) (g : RowGroup α) : List Datum :=
  g.key ++ st.aggregates.map (Aggregate.value datum g.members)

/-- `out` is what the statement may answer on the rows; `none` is an error. The order of
groups that ORDER BY does not tell apart is open. -/
def GroupedStatement.Runs (coll : Collation) (st : GroupedStatement γ) (args : List Datum)
    (rows : List α) (out : Option (List (List Datum))) : Prop :=
  match st.bind args with
  | none => out = none
  | some q =>
      if q.limit < 0 then out = none
      else
        ∃ ordered,
          OrdersBy (orderLe coll (fun g a => Aggregate.value datum g.members a) st.order)
              (rowGroups datum st.groupColumns (rows.filter (q.holds datum))) ordered ∧
            out = some ((ordered.take q.limit.toNat).map (st.output datum))

end TrendingPipeline.Store.GroupBy
