/- Unit: TrendingPipeline/Base/JsValue
   source: none (ECMAScript's numbers, and the properties of a parsed JSON value)
   digest: What a program in JavaScript sees of a JSON text. -/

import Mathlib.Data.List.Nodup
import Mathlib.Data.Nat.Size
import TrendingPipeline.Base.JsonCodec

set_option autoImplicit false
set_option relaxedAutoImplicit false

namespace TrendingPipeline.Base.JsValue

open TrendingPipeline.Base.Decimal (decimal decimal_negSucc decimal_ofNat digitsValue
  digitsValue_toDigits minus_cons_ne_toDigits)
open TrendingPipeline.Base.JsonCodec
open TrendingPipeline.Base.JsonText (Json)

/-- The nearest multiple of `2 ^ e`, and of two the one with the even factor. -/
def roundAt (e n : ℕ) : ℕ :=
  if 2 * (n % 2 ^ e) < 2 ^ e ∨ 2 * (n % 2 ^ e) = 2 ^ e ∧ n / 2 ^ e % 2 = 0 then
    2 ^ e * (n / 2 ^ e)
  else 2 ^ e * (n / 2 ^ e + 1)

/-- The nearest double of an integer below `2 ^ 1023`: 53 significant bits are kept. -/
def nearestDouble (n : ℤ) : ℤ := n.sign * roundAt (n.natAbs.size - 53) n.natAbs

theorem nearestDouble_eq {n : ℤ} (hn : n.natAbs < 2 ^ 53) : nearestDouble n = n := by
  have hsize : n.natAbs.size - 53 = 0 := Nat.sub_eq_zero_of_le (Nat.size_le.mpr hn)
  have hround : roundAt 0 n.natAbs = n.natAbs := by simp [roundAt, Nat.mod_one]
  rw [nearestDouble, hsize, hround, Int.sign_mul_natAbs]

private theorem roundAt_bounds (e n : ℕ) :
    2 ^ e * (n / 2 ^ e) ≤ roundAt e n ∧ roundAt e n ≤ 2 ^ e * (n / 2 ^ e + 1) := by
  unfold roundAt
  split
  · exact ⟨le_rfl, Nat.mul_le_mul_left _ (Nat.le_succ _)⟩
  · exact ⟨Nat.mul_le_mul_left _ (Nat.le_succ _), le_rfl⟩

private theorem roundAt_mono (e : ℕ) {m n : ℕ} (h : m ≤ n) : roundAt e m ≤ roundAt e n := by
  rcases (Nat.div_le_div_right h : m / 2 ^ e ≤ n / 2 ^ e).lt_or_eq with hlt | hsame
  · calc roundAt e m ≤ 2 ^ e * (m / 2 ^ e + 1) := (roundAt_bounds e m).2
      _ ≤ 2 ^ e * (n / 2 ^ e) := Nat.mul_le_mul_left _ hlt
      _ ≤ roundAt e n := (roundAt_bounds e n).1
  · have hrest : m % 2 ^ e ≤ n % 2 ^ e := by
      have hm := Nat.div_add_mod m (2 ^ e)
      have hn := Nat.div_add_mod n (2 ^ e)
      rw [hsame] at hm
      omega
    unfold roundAt
    rw [hsame]
    split
    · split
      · exact le_rfl
      · exact Nat.mul_le_mul_left _ (Nat.le_succ _)
    · next hup =>
        have hup' : ¬ (2 * (n % 2 ^ e) < 2 ^ e ∨
            2 * (n % 2 ^ e) = 2 ^ e ∧ n / 2 ^ e % 2 = 0) := by
          omega
        rw [if_neg hup']

private theorem roundAt_size {n : ℕ} (h : n ≠ 0) :
    2 ^ (n.size - 1) ≤ roundAt (n.size - 53) n ∧ roundAt (n.size - 53) n ≤ 2 ^ n.size := by
  have hsize : 0 < n.size := Nat.size_pos.mpr (Nat.pos_of_ne_zero h)
  have hlow : 2 ^ (n.size - 1) ≤ n := Nat.lt_size.mp (Nat.sub_lt hsize Nat.one_pos)
  have hhigh : n < 2 ^ n.size := Nat.lt_size_self n
  obtain ⟨hdown, hup⟩ := roundAt_bounds (n.size - 53) n
  generalize hexp : n.size - 53 = e at hdown hup
  have hsplit : ∀ k, e ≤ k → 2 ^ e * 2 ^ (k - e) = 2 ^ k := fun k hk => by
    rw [← Nat.pow_add, Nat.add_sub_cancel' hk]
  constructor
  · refine le_trans ?_ hdown
    rw [← hsplit (n.size - 1) (by omega)]
    refine Nat.mul_le_mul_left _ ((Nat.le_div_iff_mul_le (Nat.two_pow_pos e)).mpr ?_)
    rw [Nat.mul_comm, hsplit _ (by omega)]
    exact hlow
  · refine le_trans hup ?_
    rw [← hsplit n.size (by omega)]
    refine Nat.mul_le_mul_left _ (Nat.div_lt_of_lt_mul ?_)
    rw [hsplit _ (by omega)]
    exact hhigh

private theorem roundAt_size_mono {m n : ℕ} (h : m ≤ n) :
    roundAt (m.size - 53) m ≤ roundAt (n.size - 53) n := by
  rcases (Nat.size_le_size h).lt_or_eq with hlt | hsame
  · have hn : n ≠ 0 := by
      rintro rfl
      exact absurd hlt (Nat.not_lt_zero _)
    by_cases hm : m = 0
    · subst hm
      simp [roundAt]
    · calc roundAt (m.size - 53) m ≤ 2 ^ m.size := (roundAt_size hm).2
        _ ≤ 2 ^ (n.size - 1) := Nat.pow_le_pow_right Nat.two_pos (Nat.le_sub_one_of_lt hlt)
        _ ≤ roundAt (n.size - 53) n := (roundAt_size hn).1
  · rw [hsame]
    exact roundAt_mono _ h

theorem nearestDouble_mono {m n : ℤ} (hm : 0 ≤ m) (h : m ≤ n) :
    nearestDouble m ≤ nearestDouble n := by
  have hvalue : ∀ k : ℤ, 0 ≤ k → nearestDouble k = roundAt (k.natAbs.size - 53) k.natAbs := by
    intro k hk
    rcases hk.eq_or_lt with rfl | hpos
    · rfl
    · rw [nearestDouble, Int.sign_eq_one_of_pos hpos, one_mul]
  have habs : m.natAbs ≤ n.natAbs := by omega
  rw [hvalue m hm, hvalue n (hm.trans h)]
  exact_mod_cast roundAt_size_mono habs

theorem sign_nearestDouble (n : ℤ) : (nearestDouble n).sign = n.sign := by
  rw [nearestDouble, Int.sign_mul, Int.sign_sign]
  by_cases hn : n = 0
  · rw [hn]
    rfl
  · have hpos : 0 < roundAt (n.natAbs.size - 53) n.natAbs :=
      (Nat.two_pow_pos _).trans_le (roundAt_size (Int.natAbs_ne_zero.mpr hn)).1
    rw [Int.sign_natCast_of_ne_zero hpos.ne', mul_one]

def numberOf : List Char → Option ℤ
  | '-' :: digits => (digitsValue digits).map fun n => nearestDouble (-n)
  | digits => (digitsValue digits).map fun n => nearestDouble n

theorem numberOf_decimal (n : ℤ) : numberOf (decimal n) = some (nearestDouble n) := by
  cases n with
  | ofNat n =>
      have htext : decimal (Int.ofNat n) = Nat.toDigits 10 n := decimal_ofNat n
      rw [htext]
      unfold numberOf
      split
      · next digits hminus => exact absurd hminus.symm (minus_cons_ne_toDigits digits n)
      · rw [digitsValue_toDigits]
        rfl
  | negSucc n =>
      rw [decimal_negSucc, numberOf, digitsValue_toDigits]
      rfl

/-- The property of an object made by `JSON.parse`, where a repeated name takes the last
of its values; `none` is `undefined`. -/
def member (ms : List (String × Json)) (name : String) : Option Json :=
  (ms.reverse.find? fun m => m.1 = name).map Prod.snd

/-- A property that no array and no string has; reading one of `null` throws. -/
def property (name : String) : Json → Option (Option Json)
  | .null => none
  | .obj ms => some (member ms name)
  | .bool _ | .num _ | .str _ | .arr _ => some none

theorem member_eq_some_iff {ms : List (String × Json)} (hnames : (ms.map Prod.fst).Nodup)
    {name : String} {v : Json} : member ms name = some v ↔ (name, v) ∈ ms := by
  unfold member
  constructor
  · intro hfound
    obtain ⟨⟨name', v'⟩, hfind, rfl⟩ := Option.map_eq_some_iff.mp hfound
    have hname : name' = name := by simpa using List.find?_some hfind
    exact List.mem_reverse.mp (hname ▸ List.mem_of_find?_eq_some hfind)
  · intro hmem
    have hsome : (ms.reverse.find? fun m => m.1 = name).isSome := by
      rw [List.find?_isSome]
      exact ⟨(name, v), List.mem_reverse.mpr hmem, by simp⟩
    obtain ⟨m, hfind⟩ := Option.isSome_iff_exists.mp hsome
    have hname : m.1 = name := by simpa using List.find?_some hfind
    have hm : m ∈ ms := List.mem_reverse.mp (List.mem_of_find?_eq_some hfind)
    have heq : m = (name, v) := List.inj_on_of_nodup_map hnames hm hmem hname
    rw [hfind, heq]
    rfl

variable {depth : Nat} {α : Type}

private theorem nodup_names (r : Record depth α) : (r.slots.map (·.name)).Nodup := by
  refine r.names.imp fun {a b} hab => ?_
  rintro rfl
  rw [sameName_refl] at hab
  cases hab

private theorem names_sublist (slots : List (Slot depth α)) (a : α) :
    ((slots.filterMap (Slot.member a)).map Prod.fst).Sublist (slots.map (·.name)) := by
  induction slots with
  | nil => exact List.Sublist.refl _
  | cons s slots ih =>
      rw [List.map_cons, List.filterMap_cons]
      cases hmember : Slot.member a s with
      | none => exact ih.cons _
      | some m =>
          obtain ⟨v, _, rfl⟩ := Option.map_eq_some_iff.mp hmember
          exact ih.cons_cons _

theorem property_encode (r : Record depth α) {s : Slot depth α} (hs : s ∈ r.slots) (a : α) :
    property s.name (r.codec.encode a) = some (s.codec.encode (s.get a)) := by
  have hwritten : ((r.slots.filterMap (Slot.member a)).map Prod.fst).Nodup :=
    (names_sublist r.slots a).nodup (nodup_names r)
  refine congrArg some (Option.ext ?_)
  intro v
  rw [member_eq_some_iff hwritten, List.mem_filterMap]
  constructor
  · rintro ⟨t, ht, hmember⟩
    obtain ⟨w, hw, heq⟩ := Option.map_eq_some_iff.mp hmember
    obtain ⟨hname, rfl⟩ := Prod.mk.inj heq
    obtain rfl : t = s := List.inj_on_of_nodup_map (nodup_names r) ht hs hname
    exact hw
  · intro hencode
    exact ⟨s, hs, by rw [Slot.member, hencode, Option.map_some]⟩

end TrendingPipeline.Base.JsValue
