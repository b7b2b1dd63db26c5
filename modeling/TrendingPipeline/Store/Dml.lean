/- Unit: TrendingPipeline/Store/Dml
   source: none (SQL as PostgreSQL runs it)
   digest: CREATE TABLE, INSERT and UPDATE with arguments, and SELECT * by a key. -/

import TrendingPipeline.Store.Queries

set_option autoImplicit false
set_option relaxedAutoImplicit false

namespace TrendingPipeline.Store.Dml

open TrendingPipeline.Base.Calendar (Time)
open TrendingPipeline.Store.Queries (micros)

inductive Arg
  | null
  | string (s : String)
  | int32 (n : Int32)
  | time (t : Time)
  deriving DecidableEq

inductive ColumnType
  | text
  | integer
  | timestamptz
  | jsonb
  deriving DecidableEq

/-- A stored value; instants in microseconds. -/
inductive Datum (J : Type)
  | null
  | text (s : String)
  | integer (n : Int32)
  | instant (micros : ℤ)
  | jsonb (value : J)
  deriving DecidableEq

def Datum.isNull {J : Type} : Datum J → Bool
  | .null => true
  | .text _ | .integer _ | .instant _ | .jsonb _ => false

/-- `$n`, NULL, `NOW()` or a literal. -/
inductive Expr
  | arg (n : ℕ)
  | null
  | now
  | text (s : String)
  | integer (n : Int32)

structure Definition (γ : Type) where
  column : γ
  type : ColumnType
  notNull : Bool := false
  unique : Bool := false
  default : Expr := .null

/-- The values of a row in the order of the definitions. -/
abbrev Row (J : Type) := List (Datum J)

abbrev Table (J : Type) := List (Row J)

section

variable {γ J : Type} [DecidableEq γ] [DecidableEq J] (input : String → Option J)
  (defs : List (Definition γ)) (now : Time) (args : List Arg)

def Expr.eval : Expr → Option Arg
  | .arg n => args[n - 1]?
  | .null => some .null
  | .now => some (.time now)
  | .text s => some (.string s)
  | .integer n => some (.int32 n)

/-- An argument as a value of a column; `input` reads the text of a JSONB. -/
def ColumnType.store : ColumnType → Arg → Option (Datum J)
  | _, .null => some .null
  | .text, .string s => some (.text s)
  | .integer, .int32 n => some (.integer n)
  | .timestamptz, .time t => some (.instant (micros t))
  | .jsonb, .string s => (input s).map .jsonb
  | _, _ => none

/-- The value of an expression in a column, which may refuse NULL. -/
def Definition.value (d : Definition γ) (e : Expr) : Option (Datum J) := do
  let arg ← e.eval now args
  let x ← d.type.store input arg
  if d.notNull && x.isNull then none else some x

def cell (column : γ) (row : Row J) : Option (Datum J) :=
  ((defs.map (·.column)).zip row).lookup column

/-- The row of an INSERT: columns it does not name take their default. -/
def insertRow (named : List (γ × Expr)) : Option (Row J) :=
  defs.mapM fun d => d.value input now args ((named.lookup d.column).getD d.default)

/-- Some row has the value of a unique column. -/
def conflicts (t : Table J) (row : Row J) : Bool :=
  (defs.filter (·.unique)).any fun d => t.any fun r => cell defs d.column r = cell defs d.column row

/-- `INSERT INTO .. (columns) VALUES (..)`; `none` is an error. -/
def insert (named : List (γ × Expr)) (t : Table J) : Option (Table J) := do
  let row ← insertRow input defs now args named
  if conflicts defs t row then none else some (row :: t)

/-- The row after a SET list: columns it does not name stay. -/
def setRow (set : List (γ × Expr)) (row : Row J) : Option (Row J) :=
  (defs.zip row).mapM fun (d, old) =>
    match set.lookup d.column with
    | some e => d.value input now args e
    | none => some old

/-- `UPDATE .. SET .. WHERE key = text`, for a list that names no unique column. -/
def update (set : List (γ × Expr)) (key : γ) (text : String) (t : Table J) : Option (Table J) :=
  t.mapM fun row =>
    if cell defs key row = some (.text text) then setRow input defs now args set row else some row

/-- `SELECT * FROM .. WHERE key = text`, at most one row. -/
def select (key : γ) (text : String) (t : Table J) : Option (Row J) :=
  t.find? fun row => cell defs key row = some (.text text)

end

section

variable {γ J : Type} [DecidableEq γ] [DecidableEq J] {input : String → Option J}
  {defs : List (Definition γ)} {now : Time} {args : List Arg} {set : List (γ × Expr)} {key : γ}
  {text : String}

omit [DecidableEq J] in
private theorem cell_setRow {row row' : Row J} (h : setRow input defs now args set row = some row')
    {column : γ} (hcolumn : set.lookup column = none) :
    cell defs column row' = cell defs column row := by
  induction defs generalizing row row' with
  | nil =>
      obtain rfl : row' = [] := by simpa [setRow] using h.symm
      rfl
  | cons d defs ih =>
      cases row with
      | nil =>
          obtain rfl : row' = [] := by simpa [setRow] using h.symm
          rfl
      | cons x row =>
          simp only [setRow, List.zip_cons_cons, List.mapM_cons, Option.pure_def,
            Option.bind_eq_bind, Option.bind_eq_some_iff] at h
          obtain ⟨y, hy, ys, hys, hrow⟩ := h
          obtain rfl := Option.some.inj hrow
          have htail := ih hys
          simp only [cell, List.map_cons, List.zip_cons_cons, List.lookup_cons]
          by_cases hsame : column = d.column
          · subst hsame
            rw [hcolumn] at hy
            simp [Option.some.inj hy]
          · have hne : (column == d.column) = false := by simpa using hsame
            simp only [hne]
            exact htail

theorem select_update {t t' : Table J} (h : update input defs now args set key text t = some t')
    (hkey : set.lookup key = none) {other : String} (hother : other ≠ text) :
    select defs key other t' = select defs key other t := by
  induction t generalizing t' with
  | nil =>
      obtain rfl : t' = [] := by simpa [update] using h.symm
      rfl
  | cons row t ih =>
      simp only [update, List.mapM_cons, Option.pure_def, Option.bind_eq_bind,
        Option.bind_eq_some_iff] at h
      obtain ⟨row', hrow, rest, hrest, heq⟩ := h
      obtain rfl := Option.some.inj heq
      have htail := ih hrest
      simp only [select, List.find?_cons]
      split at hrow
      · next hmatch =>
          have hcell : cell defs key row' = some (.text text) := by
            rw [cell_setRow hrow hkey, hmatch]
          have hne : ¬ (some (Datum.text text) : Option (Datum J)) = some (.text other) := by
            simpa using hother.symm
          simp only [hcell, hmatch, hne, decide_false]
          exact htail
      · obtain rfl := Option.some.inj hrow
        by_cases hfound : cell defs key row = some (.text other)
        · simp [hfound]
        · simp only [hfound, decide_false]
          exact htail

theorem select_insert {t t' : Table J} {named : List (γ × Expr)} {row : Row J}
    (h : insert input defs now args named t = some t')
    (hrow : insertRow input defs now args named = some row) {other : String}
    (hother : cell defs key row ≠ some (.text other)) :
    select defs key other t' = select defs key other t := by
  simp only [insert, hrow, Option.bind_eq_bind, Option.bind_some] at h
  split at h
  · cases h
  · obtain rfl := Option.some.inj h
    simp [select, hother]

end

end TrendingPipeline.Store.Dml
