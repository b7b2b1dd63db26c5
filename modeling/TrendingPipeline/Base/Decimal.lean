/- Unit: TrendingPipeline/Base/Decimal
   source: none (Go's strconv and the %d verb)
   digest: Decimal text of integers, its reader, and unique splitting at a separator. -/

import Mathlib.Algebra.Group.Int.Defs
import Mathlib.Algebra.Group.Nat.Defs
import Mathlib.Data.List.Basic
import Mathlib.Data.List.Induction
import Mathlib.Data.List.TakeWhile
import Mathlib.Data.Nat.Basic

set_option autoImplicit false
set_option relaxedAutoImplicit false

namespace TrendingPipeline.Base.Decimal

def digitsValue (cs : List Char) : Option Nat :=
  if cs.isEmpty ∨ ¬ cs.all Char.isDigit then none
  else some (Nat.ofDigitChars 10 cs 0)

inductive NumError
  | syntax_
  | range
  deriving DecidableEq

/-- The loop of `strconv.ParseUint(s, 10, 64)`: the digit that overflows is a range
error, whatever follows it. -/
def parseDigits (n : Nat) : List Char → Except NumError Nat
  | [] => .ok n
  | c :: cs =>
      if c.isDigit then
        let next := 10 * n + (c.toNat - '0'.toNat)
        if next < 2 ^ 64 then parseDigits next cs else .error .range
      else .error .syntax_

/-- `strconv.ParseUint(s, 10, 64)`. -/
def parseUint (cs : List Char) : Except NumError Nat :=
  if cs.isEmpty then .error .syntax_ else parseDigits 0 cs

/-- `strconv.ParseInt` after the sign. -/
def parseSigned (neg : Bool) (digits : List Char) : Int64 × Option NumError :=
  match parseUint digits with
  | .error .syntax_ => (0, some .syntax_)
  | .error .range => (if neg then Int64.minValue else Int64.maxValue, some .range)
  | .ok n =>
      if neg then
        if n ≤ 2 ^ 63 then (Int64.ofInt (-n), none) else (Int64.minValue, some .range)
      else if n < 2 ^ 63 then (Int64.ofInt n, none) else (Int64.maxValue, some .range)

/-- Whether there is a minus sign, and what follows the sign. -/
def splitSign : List Char → Bool × List Char
  | '-' :: cs => (true, cs)
  | '+' :: cs => (false, cs)
  | cs => (false, cs)

/-- `strconv.ParseInt(s, 10, 64)`, and `strconv.Atoi` where `int` has 64 bits: the
value is 0 on a syntax error and the nearest bound on a range error. -/
def atoi (s : String) : Int64 × Option NumError :=
  parseSigned (splitSign s.toList).1 (splitSign s.toList).2

/-- The integer a text denotes: a sign or none, and decimal digits. -/
def denoted (s : String) : Option Int :=
  (digitsValue (splitSign s.toList).2).map fun n : Nat =>
    if (splitSign s.toList).1 then -(n : Int) else n

private theorem le_ofDigitChars (n : Nat) (cs : List Char) : n ≤ Nat.ofDigitChars 10 cs n := by
  induction cs generalizing n with
  | nil => exact Nat.le_of_eq Nat.ofDigitChars_nil.symm
  | cons c cs ih =>
      rw [Nat.ofDigitChars_cons]
      exact Nat.le_trans (by omega) (ih _)

private theorem parseDigits_eq {n : Nat} (hn : n < 2 ^ 64) (cs : List Char) :
    parseDigits n cs =
      if 2 ^ 64 ≤ Nat.ofDigitChars 10 (cs.takeWhile Char.isDigit) n then .error .range
      else if cs.all Char.isDigit then .ok (Nat.ofDigitChars 10 cs n) else .error .syntax_ := by
  induction cs generalizing n with
  | nil =>
      rw [List.takeWhile_nil, Nat.ofDigitChars_nil, if_neg (by omega)]
      rfl
  | cons c cs ih =>
      rw [parseDigits]
      by_cases hc : c.isDigit = true
      · rw [if_pos hc, List.takeWhile_cons_of_pos hc, Nat.ofDigitChars_cons, List.all_cons, hc,
          Bool.true_and, Nat.ofDigitChars_cons]
        dsimp only
        split
        · next hlt => exact ih hlt
        · next hge =>
            rw [if_pos]
            exact Nat.le_trans (Nat.le_of_not_lt hge) (le_ofDigitChars _ _)
      · rw [if_neg hc, List.takeWhile_cons_of_neg hc, Nat.ofDigitChars_nil, if_neg (by omega),
          List.all_cons, Bool.eq_false_iff.mpr hc]
        rfl

private theorem parseUint_of_digitsValue {cs : List Char} {n : Nat} (h : digitsValue cs = some n) :
    parseUint cs = if 2 ^ 64 ≤ n then .error .range else .ok n := by
  unfold digitsValue at h
  split at h
  · cases h
  · next hdigits =>
      obtain ⟨hne, hall⟩ : cs.isEmpty = false ∧ cs.all Char.isDigit = true := by
        simpa using hdigits
      cases h
      have htake : cs.takeWhile Char.isDigit = cs :=
        List.takeWhile_eq_self_iff.mpr (List.all_eq_true.mp hall)
      rw [parseUint, hne, if_neg Bool.false_ne_true, parseDigits_eq (by decide), htake, hall,
        if_pos rfl]

/-- Any other text is a syntax error, unless it starts with a number out of range. -/
private theorem parseUint_of_not_digits {cs : List Char} (h : digitsValue cs = none) :
    parseUint cs =
      if 2 ^ 64 ≤ Nat.ofDigitChars 10 (cs.takeWhile Char.isDigit) 0 then .error .range
      else .error .syntax_ := by
  unfold digitsValue at h
  split at h
  · next hdigits =>
      rcases hdigits with hempty | hother
      · obtain rfl := List.isEmpty_iff.mp hempty
        rfl
      · have hne : cs.isEmpty = false := by
          cases cs with
          | nil => exact absurd rfl hother
          | cons c cs => rfl
        rw [parseUint, hne, if_neg Bool.false_ne_true, parseDigits_eq (by decide), if_neg hother]
  · cases h

/-- The text of `%d`. -/
def decimal (n : Int) : List Char := (toString n).toList

theorem decimal_ofNat (n : Nat) : decimal n = Nat.toDigits 10 n := String.toList_ofList

theorem decimal_negSucc (n : Nat) :
    decimal (Int.negSucc n) = '-' :: Nat.toDigits 10 (n + 1) := by
  change (("-" : String) ++ Nat.repr n.succ).toList = _
  simp only [String.toList_append, Nat.repr, String.toList_ofList]
  rfl

theorem isDigit_of_mem_toDigits {n : Nat} {c : Char} (h : c ∈ Nat.toDigits 10 n) :
    c.isDigit = true :=
  Nat.isDigit_of_mem_toDigits (by decide) (by decide) h

private theorem toDigits_injective {m n : Nat} (h : Nat.toDigits 10 m = Nat.toDigits 10 n) :
    m = n := by
  rw [← Nat.ofDigitChars_ten_toDigits (n := m), h, Nat.ofDigitChars_ten_toDigits]

private theorem mem_decimal {n : Int} {c : Char} (h : c ∈ decimal n) :
    c.isDigit = true ∨ c = '-' := by
  cases n with
  | ofNat n => exact .inl (isDigit_of_mem_toDigits (decimal_ofNat n ▸ h))
  | negSucc n =>
      rw [decimal_negSucc] at h
      rcases List.mem_cons.mp h with rfl | h
      · exact .inr rfl
      · exact .inl (isDigit_of_mem_toDigits h)

theorem minus_cons_ne_toDigits (cs : List Char) (n : Nat) : '-' :: cs ≠ Nat.toDigits 10 n := by
  intro h
  have hdigit := isDigit_of_mem_toDigits (h ▸ List.mem_cons_self : '-' ∈ Nat.toDigits 10 n)
  cases hdigit

theorem decimal_injective : Function.Injective decimal := by
  intro m n h
  cases m with
  | ofNat m =>
      cases n with
      | ofNat n =>
          have hdigits : Nat.toDigits 10 m = Nat.toDigits 10 n := by
            rw [← decimal_ofNat, ← decimal_ofNat]
            exact h
          rw [toDigits_injective hdigits]
      | negSucc n =>
          have hdigits := (decimal_negSucc n).symm.trans (h.symm.trans (decimal_ofNat m))
          exact absurd hdigits (minus_cons_ne_toDigits _ m)
  | negSucc m =>
      cases n with
      | ofNat n =>
          have hdigits := (decimal_negSucc m).symm.trans (h.trans (decimal_ofNat n))
          exact absurd hdigits (minus_cons_ne_toDigits _ n)
      | negSucc n =>
          rw [decimal_negSucc, decimal_negSucc] at h
          have hsucc := toDigits_injective (List.cons.inj h).2
          rw [Nat.succ.inj hsucc]

theorem not_mem_decimal {n : Int} {c : Char} (hdigit : c.isDigit = false) (hminus : c ≠ '-') :
    c ∉ decimal n := by
  intro h
  rcases mem_decimal h with hd | hm
  · rw [hdigit] at hd
    cases hd
  · exact hminus hm

theorem digitsValue_toDigits (n : Nat) : digitsValue (Nat.toDigits 10 n) = some n := by
  have hne : (Nat.toDigits 10 n).isEmpty = false := by
    simp
  have hall : (Nat.toDigits 10 n).all Char.isDigit = true :=
    List.all_eq_true.mpr fun _ hc => isDigit_of_mem_toDigits hc
  simp [digitsValue, hne, hall, Nat.ofDigitChars_ten_toDigits]

private theorem splitSign_toDigits (n : Nat) :
    splitSign (Nat.toDigits 10 n) = (false, Nat.toDigits 10 n) := by
  unfold splitSign
  split
  · next heq => exact absurd heq.symm (minus_cons_ne_toDigits _ n)
  · next heq =>
      have hplus := isDigit_of_mem_toDigits (heq ▸ List.mem_cons_self : '+' ∈ Nat.toDigits 10 n)
      cases hplus
  · rfl

private theorem parseSigned_of_digitsValue (neg : Bool) {cs : List Char} {n : Nat}
    (h : digitsValue cs = some n) :
    parseSigned neg cs =
      if neg then
        if n ≤ 2 ^ 63 then (Int64.ofInt (-n), none) else (Int64.minValue, some .range)
      else if n < 2 ^ 63 then (Int64.ofInt n, none) else (Int64.maxValue, some .range) := by
  rw [parseSigned, parseUint_of_digitsValue h]
  by_cases hbig : 2 ^ 64 ≤ n
  · have hle : ¬ n ≤ 2 ^ 63 := by omega
    have hlt : ¬ n < 2 ^ 63 := by omega
    rw [if_pos hbig, if_neg hle, if_neg hlt]
    cases neg <;> rfl
  · rw [if_neg hbig]

theorem atoi_of_denoted {s : String} {z : Int} (h : denoted s = some z) :
    (atoi s).1 =
      if 2 ^ 63 ≤ z then Int64.maxValue
      else if z < -2 ^ 63 then Int64.minValue
      else Int64.ofInt z := by
  obtain ⟨n, hn, hz⟩ := Option.map_eq_some_iff.mp h
  rw [atoi, parseSigned_of_digitsValue _ hn]
  cases hneg : (splitSign s.toList).1 with
  | true =>
      rw [hneg, if_pos rfl] at hz
      subst hz
      have hnotAbove : ¬ (2 ^ 63 : Int) ≤ -n := by omega
      rw [if_pos rfl, if_neg hnotAbove]
      by_cases hsmall : n ≤ 2 ^ 63
      · have hnotBelow : ¬ -(n : Int) < -2 ^ 63 := by omega
        rw [if_pos hsmall, if_neg hnotBelow]
      · have hbelow : -(n : Int) < -2 ^ 63 := by omega
        rw [if_neg hsmall, if_pos hbelow]
  | false =>
      rw [hneg, if_neg Bool.false_ne_true] at hz
      subst hz
      rw [if_neg Bool.false_ne_true]
      by_cases hsmall : n < 2 ^ 63
      · have hnotAbove : ¬ (2 ^ 63 : Int) ≤ n := by omega
        have hnotBelow : ¬ (n : Int) < -2 ^ 63 := by omega
        rw [if_pos hsmall, if_neg hnotAbove, if_neg hnotBelow]
      · have habove : (2 ^ 63 : Int) ≤ n := by omega
        rw [if_neg hsmall, if_pos habove]

theorem atoi_decimal {n : Int} (hmin : -2 ^ 63 ≤ n) (hmax : n < 2 ^ 63) :
    atoi (String.ofList (decimal n)) = (Int64.ofInt n, none) := by
  cases n with
  | ofNat n =>
      rw [Int.ofNat_eq_natCast] at hmax
      have hlt : n < 2 ^ 63 := by omega
      rw [Int.ofNat_eq_natCast, decimal_ofNat, atoi, String.toList_ofList, splitSign_toDigits,
        parseSigned_of_digitsValue _ (digitsValue_toDigits n), if_neg Bool.false_ne_true,
        if_pos hlt]
  | negSucc n =>
      have hle : n + 1 ≤ 2 ^ 63 := by omega
      have hneg : -((n + 1 : Nat) : Int) = Int.negSucc n := rfl
      rw [decimal_negSucc, atoi, String.toList_ofList, splitSign,
        parseSigned_of_digitsValue _ (digitsValue_toDigits (n + 1)), if_pos rfl, if_pos hle, hneg]

/-- The digits a text starts with, after its sign, do not fit 64 bits. -/
def StartsTooLarge (s : String) : Prop :=
  2 ^ 64 ≤ Nat.ofDigitChars 10 ((splitSign s.toList).2.takeWhile Char.isDigit) 0

instance (s : String) : Decidable (StartsTooLarge s) := Nat.decLe _ _

/-- Any other text is read as 0, or as a bound if it starts with too large a number. -/
theorem atoi_of_not_denoted {s : String} (h : denoted s = none) :
    (atoi s).1 =
      if StartsTooLarge s then
        if (splitSign s.toList).1 then Int64.minValue else Int64.maxValue
      else 0 := by
  have hdigits := Option.map_eq_none_iff.mp h
  have hparse : parseUint (splitSign s.toList).2 =
      if StartsTooLarge s then .error .range else .error .syntax_ := parseUint_of_not_digits hdigits
  rw [atoi, parseSigned, hparse]
  by_cases hlarge : StartsTooLarge s
  · rw [if_pos hlarge, if_pos hlarge]
  · rw [if_neg hlarge, if_neg hlarge]

example : (atoi "18446744073709551616x", atoi "12x") =
    ((Int64.maxValue, some .range), (0, some .syntax_)) := by decide

/-- Digits padded with zeros on the left, as a fixed-width field prints them. -/
def padded (width n : Nat) : List Char :=
  List.replicate (width - (Nat.toDigits 10 n).length) '0' ++ Nat.toDigits 10 n

theorem padded_injective {width m n : Nat} (h : padded width m = padded width n) : m = n := by
  have hvalue := congrArg (fun cs => Nat.ofDigitChars 10 cs 0) h
  simpa only [padded, Nat.ofDigitChars_append, Nat.ofDigitChars_replicate_zero, Nat.mul_zero,
    Nat.ofDigitChars_ten_toDigits] using hvalue

theorem isDigit_of_mem_padded {width n : Nat} {c : Char} (h : c ∈ padded width n) :
    c.isDigit = true := by
  rcases List.mem_append.mp h with h | h
  · rw [List.eq_of_mem_replicate h]
    rfl
  · exact isDigit_of_mem_toDigits h

/-- A year as a date prints it: at least four digits after the sign. -/
def yearText : Int → List Char
  | .ofNat n => padded 4 n
  | .negSucc n => '-' :: padded 4 (n + 1)

theorem mem_yearText {n : Int} {c : Char} (h : c ∈ yearText n) : c.isDigit = true ∨ c = '-' := by
  cases n with
  | ofNat n => exact .inl (isDigit_of_mem_padded h)
  | negSucc n =>
      rcases List.mem_cons.mp h with rfl | h
      · exact .inr rfl
      · exact .inl (isDigit_of_mem_padded h)

private theorem minus_cons_ne_padded (cs : List Char) (w n : Nat) : '-' :: cs ≠ padded w n := by
  intro h
  have hdigit := isDigit_of_mem_padded (h ▸ List.mem_cons_self : '-' ∈ padded w n)
  cases hdigit

theorem yearText_injective : Function.Injective yearText := by
  intro m n h
  cases m with
  | ofNat m =>
      cases n with
      | ofNat n => rw [padded_injective h]
      | negSucc n => exact absurd h.symm (minus_cons_ne_padded _ _ _)
  | negSucc m =>
      cases n with
      | ofNat n => exact absurd h (minus_cons_ne_padded _ _ _)
      | negSucc n =>
          have hsucc := padded_injective (List.cons.inj h).2
          rw [Nat.succ.inj hsucc]

section Split

variable {α : Type} {sep : α}

/-- Of two readings of one list as prefix, separator, suffix, those whose suffixes
avoid the separator are the same reading. -/
theorem append_sep_inj {p p' t t' : List α} (ht : sep ∉ t) (ht' : sep ∉ t')
    (h : p ++ sep :: t = p' ++ sep :: t') : p = p' ∧ t = t' := by
  induction p generalizing p' with
  | nil =>
      cases p' with
      | nil => exact ⟨rfl, (List.cons.inj h).2⟩
      | cons x p' =>
          have htail : t = p' ++ sep :: t' := (List.cons.inj h).2
          exact absurd (htail ▸ List.mem_append_right p' List.mem_cons_self) ht
  | cons x p ih =>
      cases p' with
      | nil =>
          have htail : p ++ sep :: t = t' := (List.cons.inj h).2
          exact absurd (htail ▸ List.mem_append_right p List.mem_cons_self) ht'
      | cons y p' =>
          obtain ⟨rfl, htail⟩ := List.cons.inj h
          obtain ⟨rfl, hsuffix⟩ := ih htail
          exact ⟨rfl, hsuffix⟩

/-- A prefix followed by fields, each after a separator. -/
def joinFields (sep : α) (p : List α) (fields : List (List α)) : List α :=
  fields.foldl (fun acc f => acc ++ sep :: f) p

private theorem joinFields_append (p : List α) (fs gs : List (List α)) :
    joinFields sep p (fs ++ gs) = joinFields sep (joinFields sep p fs) gs := List.foldl_append

private theorem append_joinFields (p q : List α) (fields : List (List α)) :
    p ++ sep :: joinFields sep q fields = joinFields sep p (q :: fields) := by
  induction fields using List.reverseRecOn with
  | nil => rfl
  | append_singleton fields f ih =>
      simp only [joinFields, List.foldl_append, List.foldl_cons, List.foldl_nil] at ih ⊢
      rw [← ih, List.append_assoc, List.cons_append]

variable (sep) in
theorem joinFields_flatten (p q : List α) (fs gs hs : List (List α)) :
    joinFields sep p (fs ++ joinFields sep q gs :: hs) =
      joinFields sep p (fs ++ q :: (gs ++ hs)) := by
  calc joinFields sep p (fs ++ joinFields sep q gs :: hs)
      = joinFields sep (joinFields sep p fs ++ sep :: joinFields sep q gs) hs := by
        rw [joinFields_append]
        rfl
    _ = joinFields sep p (fs ++ q :: (gs ++ hs)) := by
        rw [append_joinFields, ← joinFields_append, ← List.cons_append, ← joinFields_append]

theorem prefix_joinFields (p : List α) (fields : List (List α)) :
    p <+: joinFields sep p fields := by
  induction fields generalizing p with
  | nil => exact List.prefix_refl p
  | cons f fields ih => exact (List.prefix_append p (sep :: f)).trans (ih (p ++ sep :: f))

/-- Separator-free fields can be read off from the right, whatever the prefix holds. -/
theorem joinFields_injective {p p' : List α} {fs fs' : List (List α)}
    (hlen : fs.length = fs'.length) (hfs : ∀ f ∈ fs, sep ∉ f) (hfs' : ∀ f ∈ fs', sep ∉ f)
    (h : joinFields sep p fs = joinFields sep p' fs') : p = p' ∧ fs = fs' := by
  induction fs using List.reverseRecOn generalizing fs' with
  | nil =>
      obtain rfl := List.length_eq_zero_iff.mp hlen.symm
      exact ⟨h, rfl⟩
  | append_singleton fs f ih =>
      rcases List.eq_nil_or_concat' fs' with rfl | ⟨gs, g, rfl⟩
      · simp at hlen
      · simp only [joinFields, List.foldl_append, List.foldl_cons, List.foldl_nil] at h
        obtain ⟨hrest, rfl⟩ := append_sep_inj (hfs f (by simp)) (hfs' g (by simp)) h
        obtain ⟨rfl, rfl⟩ := ih (by simpa using hlen) (fun x hx => hfs x (by simp [hx]))
          (fun x hx => hfs' x (by simp [hx])) hrest
        exact ⟨rfl, rfl⟩

end Split

end TrendingPipeline.Base.Decimal
