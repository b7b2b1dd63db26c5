/- Unit: TrendingPipeline/Base/Doubles
   source: none (ECMAScript's numbers)
   digest: Arithmetic rounded to 53 bits, and where it is exact. -/

import Mathlib.Algebra.Order.Floor.Ring
import Mathlib.Data.Int.Log
import Mathlib.Data.Nat.Cast.Order.Field
import Mathlib.Data.Rat.Floor
import Mathlib.Tactic.FieldSimp
import Mathlib.Tactic.Linarith
import Mathlib.Tactic.NormNum

set_option autoImplicit false
set_option relaxedAutoImplicit false

namespace TrendingPipeline.Base.Doubles

/-- The nearest integer, and of two the even one. -/
def roundEven (q : ℚ) : ℤ :=
  if 2 * Int.fract q < 1 ∨ 2 * Int.fract q = 1 ∧ ⌊q⌋ % 2 = 0 then ⌊q⌋ else ⌊q⌋ + 1

/-- The exponent of the last of 53 significant bits. -/
def lastBit (q : ℚ) : ℤ := Int.log 2 |q| - 52

/-- The nearest double of zero, or of a number from `2 ^ -1022` to below `2 ^ 1023` in
magnitude. -/
def nearest (q : ℚ) : ℚ := roundEven (q / 2 ^ lastBit q) * 2 ^ lastBit q

private theorem roundEven_intCast (n : ℤ) : roundEven n = n := by
  simp [roundEven]

private theorem floor_le_roundEven (q : ℚ) : ⌊q⌋ ≤ roundEven q := by
  unfold roundEven
  split
  · exact le_rfl
  · exact (lt_add_one _).le

private theorem roundEven_le (q : ℚ) : (roundEven q : ℚ) ≤ q + 1 / 2 := by
  have hsplit := Int.floor_add_fract q
  unfold roundEven
  split
  · have hfract := Int.fract_nonneg q
    linarith
  · next hup =>
      have hhalf : 1 ≤ 2 * Int.fract q := not_lt.mp fun hlt => hup (Or.inl hlt)
      push_cast
      linarith

private theorem sub_half_le_roundEven (q : ℚ) : q - 1 / 2 ≤ roundEven q := by
  have hsplit := Int.floor_add_fract q
  unfold roundEven
  split
  · next hdown =>
      have hhalf : 2 * Int.fract q ≤ 1 := hdown.elim le_of_lt fun h => h.1.le
      linarith
  · have hfract := Int.fract_lt_one q
    push_cast
    linarith

private theorem two_zpow_pos (e : ℤ) : (0 : ℚ) < 2 ^ e := zpow_pos two_pos e

private theorem lastBit_le {q : ℚ} (hq : |q| < 2 ^ 53) : lastBit q ≤ 0 := by
  rcases eq_or_ne q 0 with rfl | hne
  · simp [lastBit]
  · have hlog : ((2 : ℕ) : ℚ) ^ Int.log 2 |q| ≤ |q| :=
      Int.zpow_log_le_self one_lt_two (abs_pos.mpr hne)
    have hlt : (2 : ℚ) ^ Int.log 2 |q| < 2 ^ (53 : ℤ) := by
      calc (2 : ℚ) ^ Int.log 2 |q| ≤ |q| := by exact_mod_cast hlog
        _ < 2 ^ (53 : ℤ) := by exact_mod_cast hq
    have hexp := (zpow_lt_zpow_iff_right₀ (one_lt_two : (1 : ℚ) < 2)).mp hlt
    unfold lastBit
    omega

private theorem intCast_div_lastBit (n : ℤ) {q : ℚ} (hq : |q| < 2 ^ 53) :
    ∃ k : ℤ, (n : ℚ) / 2 ^ lastBit q = k := by
  obtain ⟨j, hj⟩ := Int.exists_eq_neg_ofNat (lastBit_le hq)
  refine ⟨n * 2 ^ j, ?_⟩
  rw [hj, zpow_neg, div_inv_eq_mul, zpow_natCast]
  push_cast
  rfl

private theorem nearest_intCast {n : ℤ} (hn : |n| < 2 ^ 53) : nearest n = n := by
  have hcast : |(n : ℚ)| < 2 ^ 53 := by exact_mod_cast hn
  obtain ⟨k, hk⟩ := intCast_div_lastBit n hcast
  rw [nearest, hk, roundEven_intCast, ← hk, div_mul_cancel₀]
  exact (two_zpow_pos _).ne'

private theorem intCast_le_nearest {n : ℤ} {q : ℚ} (hq : |q| < 2 ^ 53) (hn : (n : ℚ) ≤ q) :
    (n : ℚ) ≤ nearest q := by
  have hpos := two_zpow_pos (lastBit q)
  obtain ⟨k, hk⟩ := intCast_div_lastBit n hq
  have hfloor : k ≤ ⌊q / 2 ^ lastBit q⌋ := by
    rw [Int.le_floor, ← hk]
    exact div_le_div_of_nonneg_right hn hpos.le
  have hround : (k : ℚ) ≤ roundEven (q / 2 ^ lastBit q) := by
    exact_mod_cast hfloor.trans (floor_le_roundEven _)
  calc (n : ℚ) = k * 2 ^ lastBit q := by rw [← hk, div_mul_cancel₀ _ hpos.ne']
    _ ≤ nearest q := mul_le_mul_of_nonneg_right hround hpos.le

private theorem lastBit_unit_le {q : ℚ} (hq : 0 < q) : (2 : ℚ) ^ lastBit q ≤ q / 2 ^ 52 := by
  have hlog : ((2 : ℕ) : ℚ) ^ Int.log 2 |q| ≤ |q| :=
    Int.zpow_log_le_self one_lt_two (abs_pos.mpr hq.ne')
  rw [lastBit, zpow_sub₀ two_ne_zero]
  refine div_le_div_of_nonneg_right ?_ (by norm_num)
  rw [abs_of_pos hq] at hlog ⊢
  exact_mod_cast hlog

theorem le_nearest {q : ℚ} (hq : 0 < q) : q - q / 2 ^ 53 ≤ nearest q := by
  have hpos := two_zpow_pos (lastBit q)
  have hunit := lastBit_unit_le hq
  calc q - q / 2 ^ 53 ≤ q - 2 ^ lastBit q / 2 := by linarith
    _ = (q / 2 ^ lastBit q - 1 / 2) * 2 ^ lastBit q := by
        rw [sub_mul, div_mul_cancel₀ _ hpos.ne']
        ring
    _ ≤ nearest q := mul_le_mul_of_nonneg_right (sub_half_le_roundEven _) hpos.le

theorem nearest_le {q : ℚ} (hq : 0 < q) : nearest q ≤ q + q / 2 ^ 53 := by
  have hpos := two_zpow_pos (lastBit q)
  have hunit := lastBit_unit_le hq
  calc nearest q ≤ (q / 2 ^ lastBit q + 1 / 2) * 2 ^ lastBit q :=
        mul_le_mul_of_nonneg_right (roundEven_le _) hpos.le
    _ = q + 2 ^ lastBit q / 2 := by
        rw [add_mul, div_mul_cancel₀ _ hpos.ne']
        ring
    _ ≤ q + q / 2 ^ 53 := by linarith

private theorem floor_nearest_div {m d : ℕ} (hd : 0 < d) (hm : m < 2 ^ 53) :
    ⌊nearest ((m : ℚ) / d)⌋ = ((m / d : ℕ) : ℤ) := by
  have hdpos : (0 : ℚ) < d := by exact_mod_cast hd
  have hmlt : (m : ℚ) < 2 ^ 53 := by exact_mod_cast hm
  have hdone : (1 : ℚ) ≤ d := by exact_mod_cast hd
  have hnonneg : (0 : ℚ) ≤ m / d := by positivity
  rcases Nat.eq_zero_or_pos m with rfl | hmpos
  · simp [nearest, roundEven]
  have hqpos : (0 : ℚ) < m / d := div_pos (by exact_mod_cast hmpos) hdpos
  rw [Int.floor_eq_iff]
  constructor
  · have hsmall : |(m : ℚ) / d| < 2 ^ 53 := by
      rw [abs_of_nonneg hnonneg]
      exact (div_le_self (Nat.cast_nonneg m) hdone).trans_lt hmlt
    have hdown : (((m / d : ℕ) : ℤ) : ℚ) ≤ m / d := by
      rw [Int.cast_natCast]
      exact Nat.cast_div_le
    exact intCast_le_nearest hsmall hdown
  · -- the next whole number is at least `1 / d` away
    have hgap : (m : ℚ) + 1 ≤ (((m / d : ℕ) : ℤ) + 1) * d := by
      have hlt : m < (m / d + 1) * d := by
        have := Nat.lt_div_mul_add (a := m) hd
        linarith
      exact_mod_cast hlt
    calc nearest ((m : ℚ) / d) ≤ m / d + m / d / 2 ^ 53 := nearest_le hqpos
      _ < m / d + 1 / d := by
          have : (m : ℚ) / d / 2 ^ 53 < 1 / d := by
            rw [div_right_comm]
            refine div_lt_div_of_pos_right ?_ hdpos
            rw [div_lt_one (by norm_num)]
            exact hmlt
          linarith
      _ = (m + 1) / d := by rw [add_div]
      _ ≤ ((m / d : ℕ) : ℤ) + 1 := by
          rw [div_le_iff₀ hdpos]
          exact hgap

/-- A finite double, or `none` for NaN. No sum, product or quotient here overflows. -/
abbrev Number := Option ℚ

namespace Number

def ofInt (n : ℤ) : Number := some n

/-- An operation on two numbers; NaN gives NaN. -/
def rounded (op : ℚ → ℚ → ℚ) (x y : Number) : Number :=
  x.bind fun x => y.map fun y => nearest (op x y)

def plus : Number → Number → Number := rounded (· + ·)

def minus : Number → Number → Number := rounded (· - ·)

def times : Number → Number → Number := rounded (· * ·)

def dividedBy : Number → Number → Number := rounded (· / ·)

/-- `Math.floor`. -/
def floor (x : Number) : Number := x.map fun x => (⌊x⌋ : ℚ)

/-- `Math.round`: the nearest integer, and of two the greater one. -/
def round (x : Number) : Number := x.map fun x => (⌊x + 1 / 2⌋ : ℚ)

/-- `Math.min` of two numbers. -/
def min (x y : Number) : Number := x.bind fun x => y.map fun y => Min.min x y

/-- `x < y`, false with NaN. -/
def less (x y : Number) : Bool :=
  match x, y with
  | some x, some y => x < y
  | _, _ => false

@[simp] theorem rounded_none_left (op : ℚ → ℚ → ℚ) (y : Number) : rounded op none y = none := rfl

@[simp] theorem rounded_none_right (op : ℚ → ℚ → ℚ) (x : Number) : rounded op x none = none := by
  cases x <;> rfl

theorem plus_ofInt {m n : ℤ} (h : |m + n| < 2 ^ 53) :
    plus (ofInt m) (ofInt n) = ofInt (m + n) := by
  have hexact := nearest_intCast h
  push_cast at hexact
  simp [plus, rounded, ofInt, hexact]

theorem times_ofInt {m n : ℤ} (h : |m * n| < 2 ^ 53) :
    times (ofInt m) (ofInt n) = ofInt (m * n) := by
  have hexact := nearest_intCast h
  push_cast at hexact
  simp [times, rounded, ofInt, hexact]

theorem floor_dividedBy_ofInt {m d : ℕ} (hd : 0 < d) (hm : m < 2 ^ 53) :
    floor (dividedBy (ofInt m) (ofInt d)) = ofInt (m / d : ℕ) := by
  have hfloor := floor_nearest_div hd hm
  simp [dividedBy, rounded, floor, ofInt, hfloor]

theorem dividedBy_self {n : ℤ} (hn : n ≠ 0) : dividedBy (ofInt n) (ofInt n) = ofInt 1 := by
  have hne : (n : ℚ) ≠ 0 := Int.cast_ne_zero.mpr hn
  have hone : nearest 1 = 1 := by
    have hexact := nearest_intCast (n := 1) (by norm_num)
    rwa [Int.cast_one] at hexact
  show some (nearest (n / n)) = some (((1 : ℤ) : ℚ))
  rw [div_self hne, hone, Int.cast_one]

@[simp] theorem round_ofInt (n : ℤ) : round (ofInt n) = ofInt n := by
  have hfloor : ⌊(n : ℚ) + 1 / 2⌋ = n := by
    rw [Int.floor_intCast_add]
    norm_num
  show some ((⌊(n : ℚ) + 1 / 2⌋ : ℤ) : ℚ) = some (n : ℚ)
  rw [hfloor]

@[simp] theorem min_self (x : Number) : x.min x = x := by
  cases x with
  | none => rfl
  | some q => exact congrArg some (Std.min_self)

end Number

end TrendingPipeline.Base.Doubles
