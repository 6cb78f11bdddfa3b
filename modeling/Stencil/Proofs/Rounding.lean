import Mathlib.Algebra.Order.Ring.Abs
import Mathlib.Tactic.Linarith
import Stencil.Value.Compare
import Stencil.Proofs.Doubles

/-!
# Rounding integers to floating-point numbers

An integer with more than fifty-three binary digits is no floating-point number in general, and is
rounded when it is converted to one. The number that it becomes is as near to it as any number of
the format, and this alone makes the conversion monotone: of two integers the greater one never
becomes the smaller number, though both may become the same. Which one of two equally near numbers
is taken plays no part.

Finite numbers are ordered as the rational numbers that they stand for, so that words, which are
converted before they are compared, are compared as the integers that they are rounded to.

## Main results

* `Nearest.mono`: numbers that are nearest to greater ones are greater or equal.
* `Number.exists_nearest`: an integer in the range of the format becomes a nearest number.
* `Number.rounded_mono`, `Number.rounded_eq_iff`: the integers that words are rounded to.
* `Value.compareNumbers_eq`: finite numbers are ordered as what they stand for.
-/

namespace Stencil

open Float.Model Float.Model.UnpackedFloat

/-! ### Nearest numbers -/

/-- A number of the format that is as near to a rational number as any other one. -/
structure Nearest (q r : ℚ) : Prop where
  isDouble : IsDouble r
  le : ∀ d, IsDouble d → |q - r| ≤ |q - d|

/-- A double is nearest to itself. -/
theorem Nearest.refl {q : ℚ} (h : IsDouble q) : Nearest q q :=
  ⟨h, fun d _ => by rw [sub_self, abs_zero]; exact abs_nonneg _⟩

/-- A number of the format is the only one that is nearest to it. -/
theorem Nearest.eq {q r : ℚ} (h : Nearest q r) (hq : IsDouble q) : r = q := by
  have hle := h.le q hq
  rw [sub_self, abs_zero] at hle
  exact (sub_eq_zero.mp (abs_nonpos_iff.mp hle)).symm

/-- What is nearest stays so with the other sign. -/
theorem Nearest.neg {q r : ℚ} (h : Nearest q r) : Nearest (-q) (-r) := by
  refine ⟨h.isDouble.neg, fun d hd => ?_⟩
  have hle := h.le (-d) hd.neg
  have hleft : |-q - -r| = |q - r| := by rw [← abs_neg, neg_sub_neg, neg_sub]
  have hright : |-q - d| = |q - -d| := by rw [← abs_neg]; ring_nf
  rwa [hleft, hright]

/-- Numbers that are nearest to greater ones are greater or equal. -/
theorem Nearest.mono {p q r s : ℚ} (hr : Nearest p r) (hs : Nearest q s) (h : p < q) : r ≤ s := by
  by_contra hlt
  -- Both would lie on the wrong side of the middle between the two numbers.
  have hp := sq_le_sq.mpr (hr.le s hs.isDouble)
  have hq := sq_le_sq.mpr (hs.le r hr.isDouble)
  nlinarith

/-- Of the multiples of a power of two, one that is not farther away than half the power is as near
as any. -/
theorem abs_sub_grid_le {v u : ℚ} {c : ℤ} (h : 2 * |v - c * u| ≤ u) (j : ℤ) :
    |v - c * u| ≤ |v - j * u| := by
  by_cases hj : c = j
  · rw [hj]
  have hu : 0 ≤ u := le_trans (by positivity) h
  have hstep : (1 : ℚ) ≤ |(c : ℚ) - j| := by
    have := Int.one_le_abs (sub_ne_zero.mpr hj)
    exact_mod_cast this
  have hapart : u ≤ |c * u - j * u| := by
    rw [← sub_mul, abs_mul, abs_of_nonneg hu]
    exact le_mul_of_one_le_left hu hstep
  have htriangle := abs_sub_le (c * u) v (j * u)
  rw [abs_sub_comm (c * u) v] at htriangle
  linarith

/-- Among the numbers that are not smaller than `2 ^ 52` steps, those of the format are multiples of
the step. So a multiple that is not farther away than half a step is nearest. -/
theorem nearest_of_grid {v : ℚ} {c f : ℤ} (hlow : 2 ^ 52 * 2 ^ f ≤ v)
    (h : 2 * |v - c * 2 ^ f| ≤ 2 ^ f) (hc : IsDouble (c * 2 ^ f)) : Nearest v (c * 2 ^ f) := by
  refine ⟨hc, ?_⟩
  rintro _ ⟨a, b, ha, -, -, rfl⟩
  rcases le_or_gt f b with hfb | hbf
  · obtain ⟨k, rfl⟩ : ∃ k : ℕ, b = f + k := ⟨(b - f).toNat, by omega⟩
    have hgrid : (a : ℚ) * 2 ^ (f + (k : ℤ)) = ((a * 2 ^ k : ℤ) : ℚ) * 2 ^ f := by
      rw [mul_two_zpow_add, Int.cast_mul, Int.cast_pow, Int.cast_ofNat]
    rw [hgrid]
    exact abs_sub_grid_le h _
  -- A finer number is smaller than all multiples in the range, so the least of these is nearer.
  · have hfine : (a : ℚ) * 2 ^ b ≤ 2 ^ 52 * 2 ^ f := by
      have hmantissa : (a : ℚ) ≤ 2 ^ 53 := by
        have : a ≤ 2 ^ 53 := by omega
        exact_mod_cast this
      calc (a : ℚ) * 2 ^ b ≤ 2 ^ 53 * 2 ^ b :=
            mul_le_mul_of_nonneg_right hmantissa (two_zpow_pos b).le
        _ = 2 ^ 52 * 2 ^ (b + 1) := by rw [zpow_add₀ (by norm_num)]; ring
        _ ≤ 2 ^ 52 * 2 ^ f := by
          refine mul_le_mul_of_nonneg_left ?_ (by norm_num)
          exact zpow_le_zpow_right₀ (by norm_num) (by omega)
    have hleast := abs_sub_grid_le h (2 ^ 52)
    rw [Int.cast_pow, Int.cast_ofNat, abs_of_nonneg (sub_nonneg.mpr hlow)] at hleast
    rw [abs_of_nonneg (sub_nonneg.mpr (hfine.trans hlow))]
    linarith

/-! ### Shifting digits out -/

/-- What is left of a mantissa when digits are shifted out: the first one of them, and whether there
is one after it, are remembered. -/
theorem shiftRight_digits (m k : ℕ) : (ExtendedMantissa.mk m false false) >>> (k + 1) =
    ⟨m / 2 ^ (k + 1), m / 2 ^ k % 2 != 0, m % 2 ^ k != 0⟩ := by
  induction k with
  | zero =>
    show (ExtendedMantissa.mk m false false).shiftRightOne = _
    simp [ExtendedMantissa.shiftRightOne, Nat.mod_one]
  | succ k ih =>
    have hstep : ∀ em : ExtendedMantissa, em >>> (k + 1 + 1) = (em >>> (k + 1)).shiftRightOne :=
      fun _ => rfl
    have hsticky : (m / 2 ^ k % 2 != 0 || m % 2 ^ k != 0) = (m % 2 ^ (k + 1) != 0) := by
      have hpos := Nat.two_pow_pos k
      rw [Nat.mod_pow_succ, Bool.eq_iff_iff]
      simp only [Bool.or_eq_true, bne_iff_ne, ne_eq, Nat.add_eq_zero_iff, Nat.mul_eq_zero,
        hpos.ne', false_or]
      tauto
    rw [hstep, ih, ExtendedMantissa.shiftRightOne, hsticky, Nat.div_div_eq_div_mul, ← Nat.pow_succ]

/-- The mantissa that is left is rounded to the nearest one. -/
theorem roundedMantissa_shiftRight (m k : ℕ) :
    ∃ c, ((ExtendedMantissa.mk m false false) >>> (k + 1)).roundedMantissa = c ∧
      c ≤ m / 2 ^ (k + 1) + 1 ∧ 2 * m ≤ (2 * c + 1) * 2 ^ (k + 1) ∧
        2 * c * 2 ^ (k + 1) ≤ 2 * m + 2 ^ (k + 1) := by
  have hdigits := Nat.div_add_mod m (2 ^ (k + 1))
  have hrest := Nat.mod_pow_succ (b := 2) (k := k) (x := m)
  have htail := Nat.mod_lt m (Nat.two_pow_pos k)
  have hfirst := Nat.mod_lt (m / 2 ^ k) Nat.two_pos
  have hdouble : 2 ^ (k + 1) = 2 * 2 ^ k := Nat.pow_succ'
  rw [shiftRight_digits]
  generalize m / 2 ^ (k + 1) = q at hdigits ⊢
  generalize m % 2 ^ (k + 1) = r at hdigits hrest
  generalize m % 2 ^ k = tail at htail hrest ⊢
  generalize m / 2 ^ k % 2 = first at hfirst hrest ⊢
  rw [hdouble] at hdigits ⊢
  generalize 2 ^ k = u at *
  subst hrest hdigits
  have hparity := Nat.mod_lt q Nat.two_pos
  rcases (by omega : first = 0 ∨ first = 1) with rfl | rfl <;>
    rcases Nat.eq_zero_or_pos tail with rfl | hpos
  · exact ⟨q, rfl, by omega, by nlinarith, by nlinarith⟩
  · have htail' : (tail != 0) = true := by simpa using hpos.ne'
    refine ⟨q, by rw [htail']; rfl, by omega, by nlinarith, by nlinarith⟩
  · refine ⟨q + q % 2, rfl, by omega, ?_, ?_⟩ <;>
      rcases (by omega : q % 2 = 0 ∨ q % 2 = 1) with h | h <;> rw [h] <;> nlinarith
  · have htail' : (tail != 0) = true := by simpa using hpos.ne'
    refine ⟨q + 1, by rw [htail']; rfl, by omega, by nlinarith, by nlinarith⟩

/-- Rounding shifts a mantissa, rounds it, and shifts it once more into its packed form. -/
theorem roundWithAccuracy_of_shifts {s : Sign} {m d : ℕ} {e e' f : ℤ} {em : ExtendedMantissa}
    (hd : 0 < d) (hfirst : shiftToTargetExponent .binary64 m e .exact = (em, e'))
    (hsecond : shiftToTargetExponent .binary64 em.roundedMantissa e' .exact =
      (⟨d, false, false⟩, f)) :
    roundWithAccuracy .binary64 s m e .exact = .finite s d f hd := by
  rw [roundWithAccuracy, hfirst]
  dsimp only
  rw [hsecond]
  exact dif_neg hd.ne'

/-- The packed form of a mantissa of fifty-three digits, or of one more than the greatest. -/
theorem exists_shiftToTargetExponent {c : ℕ} {e : ℤ} (hc : 2 ^ 52 ≤ c)
    (hdouble : IsDouble (c * 2 ^ e)) : ∃ (d : ℕ) (f : ℤ), 0 < d ∧ Canonical d f ∧
      (c : ℚ) * 2 ^ e = d * 2 ^ f ∧
        shiftToTargetExponent .binary64 c e .exact = (⟨d, false, false⟩, f) := by
  have hc0 : 0 < c := by omega
  obtain ⟨d, f, hd, hcanonical, hvalue⟩ :=
    hdouble.exists_canonical (mul_pos (by exact_mod_cast hc0) (two_zpow_pos e))
  obtain ⟨j, rfl⟩ : ∃ j : ℕ, f = e + j := by
    have hplace := log2_add_exponent hc0 hd hvalue
    have htarget := hcanonical.eq_target
    have hlead := (Nat.le_log2 hc0.ne').mpr hc
    exact ⟨(f - e).toNat, by omega⟩
  have hpacked : c = d * 2 ^ j := by
    have hscaled := hvalue
    rw [mul_two_zpow_add] at hscaled
    exact_mod_cast mul_right_cancel₀ (two_zpow_pos e).ne' hscaled
  refine ⟨d, e + j, hd, hcanonical, hvalue, ?_⟩
  rw [hpacked]
  exact shiftToTargetExponent_eq hd hcanonical

/-- A mantissa that was rounded up to one more than the greatest is still one of a number. -/
theorem isDouble_of_le {c : ℕ} {f : ℤ} (hc : c ≤ 2 ^ 53) (hlow : -1074 ≤ f) (hhigh : f < 971) :
    IsDouble (c * 2 ^ f) := by
  rcases hc.lt_or_eq with hlt | rfl
  · exact ⟨c, f, by simpa using hlt, hlow, hhigh.le, by simp⟩
  · refine ⟨2 ^ 52, f + 1, by decide, by omega, by omega, ?_⟩
    rw [zpow_add₀ (by norm_num)]
    push_cast
    ring

/-- A mantissa with more than fifty-three digits is shifted until fifty-three are left. -/
theorem shiftToTargetExponent_of_log2 {m k : ℕ} {e : ℤ} (hlog : m.log2 = 53 + k)
    (hlow : -1074 ≤ e + (k + 1)) : shiftToTargetExponent .binary64 m e .exact =
      ((ExtendedMantissa.mk m false false) >>> (k + 1), e + (k + 1)) := by
  have htarget : Format.binary64.targetExponent (totalExponent m e) = e + (k + 1) := by
    rw [targetExponent_eq, hlog]
    push_cast
    omega
  have hamount : (e + ((k : ℤ) + 1) - e).toNat = k + 1 := by omega
  rw [shiftToTargetExponent, htarget, shiftToExponent, hamount]
  rfl

/-- Rounding a mantissa with digits to shift out ends at a nearest number, which is a multiple of
the step. -/
theorem exists_stands_round {m k : ℕ} {e : ℤ} (hlog : m.log2 = 53 + k) (hlow : -1074 ≤ e + (k + 1))
    (hhigh : e + (k + 1) < 971) : ∃ c : ℕ, Nearest (m * 2 ^ e) (c * 2 ^ (e + (k + 1))) ∧
      Stands (roundWithAccuracy .binary64 .positive m e .exact) (c * 2 ^ (e + (k + 1))) := by
  have hm : m ≠ 0 := by
    rintro rfl
    simp at hlog
    omega
  obtain ⟨hleast, hgreatest⟩ := (Nat.log2_eq_iff hm).mp hlog
  obtain ⟨c, hrounded, hc, hbelow, habove⟩ := roundedMantissa_shiftRight m k
  have hpos := Nat.two_pow_pos (k + 1)
  have hwidth : 2 ^ (53 + k) = 2 ^ 52 * 2 ^ (k + 1) := by rw [← Nat.pow_add]; congr 1; omega
  have hquotient : m / 2 ^ (k + 1) < 2 ^ 53 := by
    rw [Nat.div_lt_iff_lt_mul hpos, ← Nat.pow_add]
    exact hgreatest.trans_eq (congrArg _ (by omega))
  have hc52 : 2 ^ 52 ≤ c := by
    by_contra hlt
    nlinarith
  have hdouble : IsDouble (c * 2 ^ (e + ((k : ℤ) + 1))) := isDouble_of_le (by omega) hlow hhigh
  refine ⟨c, ?_, ?_⟩
  · have hscale := two_zpow_pos e
    have hstep : (2 : ℚ) ^ (e + ((k : ℤ) + 1)) = 2 ^ (k + 1) * 2 ^ e := by
      simpa using mul_two_zpow_add 1 e (k + 1)
    have hnear : 2 * |(m : ℚ) * 2 ^ e - (c : ℤ) * 2 ^ (e + ((k : ℤ) + 1))| ≤
        2 ^ (e + ((k : ℤ) + 1)) := by
      have hbelow' : (2 : ℚ) * m ≤ (2 * c + 1) * 2 ^ (k + 1) := by exact_mod_cast hbelow
      have habove' : (2 : ℚ) * c * 2 ^ (k + 1) ≤ 2 * m + 2 ^ (k + 1) := by exact_mod_cast habove
      rw [hstep, ← abs_two, ← abs_mul, abs_two, abs_le, Int.cast_natCast]
      constructor <;> nlinarith
    refine nearest_of_grid (c := c) ?_ hnear hdouble
    have hleast' : (2 : ℚ) ^ 52 * 2 ^ (k + 1) ≤ m := by exact_mod_cast hwidth ▸ hleast
    rw [hstep, ← mul_assoc]
    exact mul_le_mul_of_nonneg_right hleast' hscale.le
  · have hfirst := shiftToTargetExponent_of_log2 hlog hlow
    obtain ⟨d, f, hd, hcanonical, hvalue, hsecond⟩ := exists_shiftToTargetExponent hc52 hdouble
    rw [roundWithAccuracy_of_shifts hd hfirst (hrounded ▸ hsecond)]
    exact .finite hd hcanonical hvalue

/-! ### Integers -/

namespace Number

/-- Great integers are converted to nearest numbers, which are integers. -/
theorem exists_nearest_ofScientific {n : ℕ} (hn : 2 ^ 53 ≤ n) (hlarge : n < 2 ^ 1000) :
    ∃ r : ℤ, value (.ofModel (.ofScientific n 0)) = some (r : ℚ) ∧ Nearest n r := by
  have hn0 : n ≠ 0 := by omega
  have hlog := (Nat.le_log2 hn0).mpr hn
  have hlog' := (Nat.log2_lt hn0).mpr hlarge
  have hshift : (n <<< 53 * 10 ^ 0).log2 = 53 + n.log2 := by
    have hpos : n <<< 53 * 10 ^ 0 ≠ 0 := by simpa [Nat.shiftLeft_eq] using hn0
    obtain ⟨hlow, hhigh⟩ := (Nat.log2_eq_iff hn0).mp rfl
    rw [Nat.log2_eq_iff hpos, pow_zero, mul_one, Nat.shiftLeft_eq, add_assoc, Nat.pow_add 2 53,
      Nat.pow_add 2 53, Nat.mul_comm n]
    exact ⟨Nat.mul_le_mul_left _ hlow, Nat.mul_lt_mul_of_pos_left hhigh (Nat.two_pow_pos 53)⟩
  obtain ⟨c, hnear, hstands⟩ :=
    exists_stands_round (e := -53 + 0) hshift (by omega) (by omega)
  -- The step is at least one, as more digits are shifted out than were shifted in.
  have hinteger : (c : ℚ) * 2 ^ (-53 + 0 + ((n.log2 : ℤ) + 1)) =
      ((c * 2 ^ (n.log2 - 52) : ℕ) : ℤ) := by
    have hstep : (-53 + 0 + ((n.log2 : ℤ) + 1)) = ((n.log2 - 52 : ℕ) : ℤ) := by omega
    rw [hstep, zpow_natCast]
    push_cast
    rfl
  rw [shiftLeft_mul_zpow, hinteger] at hnear
  rw [← ofScientific_eq hn0, hinteger] at hstands
  exact ⟨_, hstands.value_pack, hnear⟩

/-- An integer in the range of the format is converted to a nearest number, which is an integer. -/
theorem exists_nearest_ofNat {n : ℕ} (hlarge : n < 2 ^ 1000) :
    ∃ r : ℤ, value (Float.ofNat n) = some (r : ℚ) ∧ Nearest n r := by
  by_cases hsmall : n < 2 ^ 53
  · have hdouble : IsDouble (n : ℤ) := isDouble_of_natAbs_lt (n := n) hsmall
    exact ⟨n, by rw [value_ofNat (by exact_mod_cast hdouble), Int.cast_natCast], .refl hdouble⟩
  · have hconvert : Float.ofNat n = .ofModel (.ofScientific n 0) := by
      change Float.ofScientific n false 0 = _
      rw [Float.ofScientific, dif_neg (fun h => hsmall h.1)]
      rfl
    rw [hconvert]
    exact exists_nearest_ofScientific (by omega) hlarge

/-- The same for negative integers: rounding does not look at the sign. -/
theorem exists_nearest {n : ℤ} (hlarge : n.natAbs < 2 ^ 1000) :
    ∃ r : ℤ, value (Float.ofInt n) = some (r : ℚ) ∧ Nearest n r := by
  cases n with
  | ofNat n => exact exists_nearest_ofNat hlarge
  | negSucc n =>
    obtain ⟨r, hvalue, hnear⟩ := exists_nearest_ofNat (n := n.succ) hlarge
    refine ⟨-r, ?_, ?_⟩
    · rw [Int.cast_neg]
      exact value_neg hvalue
    · rw [Int.cast_neg, Int.cast_negSucc]
      exact hnear.neg

/-- The integer that a word is rounded to when it is converted. -/
def rounded (w : Int64) : ℤ :=
  (Exact.ofFloat (ofWord w)).integer?.getD 0

/-- A word is rounded to an integer nearest to it. -/
theorem exists_nearest_ofWord (w : Int64) :
    ∃ r : ℤ, value (ofWord w) = some (r : ℚ) ∧ Nearest w.toInt r := by
  have hlow := w.le_toInt
  have hhigh := w.toInt_lt
  exact exists_nearest (by omega)

/-- The double of a word is the integer that the word is rounded to. -/
theorem value_ofWord (w : Int64) : value (ofWord w) = some (rounded w : ℚ) := by
  obtain ⟨r, hvalue, -⟩ := exists_nearest_ofWord w
  rw [rounded, Exact.integer?_eq_some_iff.mpr hvalue]
  exact hvalue

/-- Converting a word rounds it to a nearest number. -/
theorem nearest_rounded (w : Int64) : Nearest w.toInt (rounded w) := by
  obtain ⟨r, hvalue, hnear⟩ := exists_nearest_ofWord w
  rw [value_ofWord, Option.some_inj] at hvalue
  rwa [hvalue]

/-- Rounding is monotone. -/
theorem rounded_mono {v w : Int64} (h : v ≤ w) : rounded v ≤ rounded w := by
  rcases (Int64.le_iff_toInt_le.mp h).eq_or_lt with heq | hlt
  · rw [Int64.toInt_inj.mp heq]
  · exact_mod_cast (nearest_rounded v).mono (nearest_rounded w) (by exact_mod_cast hlt)

/-- Only the words that are numbers of the format are kept as they are. -/
theorem rounded_eq_iff {w : Int64} : rounded w = w.toInt ↔ IsDouble w.toInt := by
  constructor
  · intro h
    rw [← h]
    exact (nearest_rounded w).isDouble
  · intro h
    exact_mod_cast (nearest_rounded w).eq h

/-- Small words are not rounded. -/
theorem rounded_of_natAbs_lt {w : Int64} (h : w.toInt.natAbs < 2 ^ 53) : rounded w = w.toInt :=
  rounded_eq_iff.mpr (isDouble_of_natAbs_lt h)

/-- What is rounded to a small integer is not rounded at all. -/
theorem rounded_eq_of_natAbs_lt {w : Int64} (h : (rounded w).natAbs < 2 ^ 53) :
    rounded w = w.toInt := by
  by_cases hw : w.toInt.natAbs < 2 ^ 53
  · exact rounded_of_natAbs_lt hw
  have hleast : IsDouble ((2 ^ 53 : ℤ) : ℚ) :=
    ⟨1, 53, by decide, by decide, by decide, by norm_num⟩
  rcases (by omega : w.toInt = 2 ^ 53 ∨ w.toInt = -2 ^ 53 ∨ 2 ^ 53 < w.toInt ∨
    w.toInt < -2 ^ 53) with heq | heq | hlt | hlt
  · exact rounded_eq_iff.mpr (heq ▸ hleast)
  · refine rounded_eq_iff.mpr ?_
    rw [heq, Int.cast_neg]
    exact hleast.neg
  · have := (Nearest.refl hleast).mono (nearest_rounded w) (by exact_mod_cast hlt)
    have : (2 ^ 53 : ℤ) ≤ rounded w := by exact_mod_cast this
    omega
  · have := (nearest_rounded w).mono (Nearest.refl hleast.neg) (by exact_mod_cast hlt)
    have : rounded w ≤ -2 ^ 53 := by exact_mod_cast this
    omega

/-- A word is not rounded beyond the ends of the range, which are numbers of the format. -/
theorem natAbs_rounded_le (w : Int64) : (rounded w).natAbs ≤ wordEnd := by
  have hend : IsDouble (wordEnd : ℚ) :=
    ⟨1, 63, by decide, by decide, by decide, by norm_num [wordEnd]⟩
  have hlow : -(wordEnd : ℤ) ≤ w.toInt := w.le_toInt
  have hhigh : w.toInt < wordEnd := w.toInt_lt
  have hle : rounded w ≤ wordEnd := by
    have := (nearest_rounded w).mono (.refl hend) (by exact_mod_cast hhigh)
    exact_mod_cast this
  have hge : -wordEnd ≤ rounded w := by
    rcases hlow.eq_or_lt with heq | hlt
    · rw [rounded_eq_iff.mpr (by rw [← heq]; exact_mod_cast hend.neg), heq]
    · have := (Nearest.refl hend.neg).mono (nearest_rounded w) (by exact_mod_cast hlt)
      exact_mod_cast this
  omega

/-- Rounding makes nothing zero. -/
theorem rounded_eq_zero_iff {w : Int64} : rounded w = 0 ↔ w = 0 := by
  constructor
  · intro h
    by_contra hw
    rcases lt_or_gt_of_ne (mt Int64.toInt_inj.mp hw) with hneg | hpos
    · have hle : w ≤ -1 := Int64.le_iff_toInt_le.mpr (Int.le_of_lt_add_one hneg)
      have hmono := rounded_mono hle
      rw [h, rounded_of_natAbs_lt (by decide)] at hmono
      exact absurd hmono (by decide)
    · have hle : 1 ≤ w := Int64.le_iff_toInt_le.mpr hpos
      have hmono := rounded_mono hle
      rw [h, rounded_of_natAbs_lt (by decide)] at hmono
      exact absurd hmono (by decide)
  · rintro rfl
    exact rounded_of_natAbs_lt (by decide)

end Number

/-! ### Order -/

/-- Packed forms are ordered by their exponents first. -/
theorem Canonical.mul_lt_mul {m n : ℕ} {e d : ℤ} (h : Canonical m e) (h' : Canonical n d)
    (hlt : e < d) : (m : ℚ) * 2 ^ e < n * 2 ^ d := by
  have hlow := h.low
  have hnormal : (2 : ℚ) ^ 52 ≤ n := by exact_mod_cast h'.normal.resolve_right (by omega)
  have hm : (m : ℚ) < 2 ^ 53 := by exact_mod_cast h.lt
  calc (m : ℚ) * 2 ^ e < 2 ^ 53 * 2 ^ e := mul_lt_mul_of_pos_right hm (two_zpow_pos e)
    _ = 2 ^ 52 * 2 ^ (e + 1) := by rw [zpow_add₀ (by norm_num)]; ring
    _ ≤ 2 ^ 52 * 2 ^ d :=
      mul_le_mul_of_nonneg_left (zpow_le_zpow_right₀ (by norm_num) hlt) (by norm_num)
    _ ≤ n * 2 ^ d := mul_le_mul_of_nonneg_right hnormal (two_zpow_pos d).le

/-- Canonical numbers are compared by their exponents first. -/
theorem Canonical.compare_mul {m n : ℕ} {e d : ℤ} (h : Canonical m e) (h' : Canonical n d) :
    compare ((m : ℚ) * 2 ^ e) (n * 2 ^ d) = (compare e d).then (compare m n) := by
  rcases lt_trichotomy e d with hlt | rfl | hgt
  · rw [compare_lt_iff_lt.mpr (h.mul_lt_mul h' hlt), compare_lt_iff_lt.mpr hlt]
    rfl
  · rw [compare_eq_iff_eq.mpr rfl]
    have hscale := two_zpow_pos e
    rcases lt_trichotomy m n with hlt | rfl | hgt
    · rw [Ordering.then, compare_lt_iff_lt.mpr hlt, compare_lt_iff_lt]
      exact mul_lt_mul_of_pos_right (by exact_mod_cast hlt) hscale
    · rw [compare_eq_iff_eq.mpr rfl, Ordering.then, compare_eq_iff_eq.mpr rfl]
    · rw [Ordering.then, compare_gt_iff_gt.mpr hgt, compare_gt_iff_gt]
      exact mul_lt_mul_of_pos_right (by exact_mod_cast hgt) hscale
  · rw [compare_gt_iff_gt.mpr (h'.mul_lt_mul h hgt), compare_gt_iff_gt.mpr hgt]
    rfl

/-- Negative numbers are compared the other way round. -/
theorem compare_neg_neg (a b : ℚ) : compare (-a) (-b) = (compare a b).swap := by
  rcases lt_trichotomy a b with h | rfl | h
  · rw [compare_gt_iff_gt.mpr (neg_lt_neg h), compare_lt_iff_lt.mpr h]
    rfl
  · rw [compare_eq_iff_eq.mpr rfl, compare_eq_iff_eq.mpr rfl]
    rfl
  · rw [compare_lt_iff_lt.mpr (neg_lt_neg h), compare_gt_iff_gt.mpr h]
    rfl

/-- Finite numbers are compared as the rational numbers that they stand for. -/
theorem Stands.compare_eq {f g : UnpackedFloat} {p q : ℚ} (hf : Stands f p) (hg : Stands g q) :
    f.compare g = some (compare p q) := by
  have hpos : ∀ {m : ℕ} {e : ℤ}, 0 < m → (0 : ℚ) < m * 2 ^ e :=
    fun hm => mul_pos (by exact_mod_cast hm) (two_zpow_pos _)
  cases hf with
  | zero s =>
    cases hg with
    | zero t => rw [compare_eq_iff_eq.mpr rfl]; rfl
    | @finite t n d _ hn h' hq =>
      subst hq
      cases t
      · rw [compare_gt_iff_gt.mpr (by simpa [Sign.apply] using hpos hn)]
        rfl
      · rw [compare_lt_iff_lt.mpr (by simpa [Sign.apply] using hpos hn)]
        rfl
  | @finite s m e _ hm h hp =>
    subst hp
    cases hg with
    | zero t =>
      cases s
      · rw [compare_lt_iff_lt.mpr (by simpa [Sign.apply] using hpos hm)]
        rfl
      · rw [compare_gt_iff_gt.mpr (by simpa [Sign.apply] using hpos hm)]
        rfl
    | @finite t n d _ hn h' hq =>
      subst hq
      have hless : -((m : ℚ) * 2 ^ e) < n * 2 ^ d :=
        (neg_lt_zero.mpr (hpos hm)).trans (hpos hn)
      have hless' : -((n : ℚ) * 2 ^ d) < m * 2 ^ e :=
        (neg_lt_zero.mpr (hpos hn)).trans (hpos hm)
      cases s <;> cases t
      · have hcompare : compare ((Sign.negative.apply m : ℚ) * 2 ^ e)
            (Sign.negative.apply n * 2 ^ d) = ((compare e d).then (compare m n)).swap := by
          simp only [Sign.apply, Int.cast_neg, Int.cast_natCast, neg_mul, compare_neg_neg,
            h.compare_mul h']
        rw [hcompare]
        rfl
      · rw [compare_lt_iff_lt.mpr (by simpa [Sign.apply] using hless)]
        rfl
      · rw [compare_gt_iff_gt.mpr (by simpa [Sign.apply] using hless')]
        rfl
      · have hcompare : compare ((Sign.positive.apply m : ℚ) * 2 ^ e)
            (Sign.positive.apply n * 2 ^ d) = (compare e d).then (compare m n) := by
          simp only [Sign.apply, Int.cast_natCast, h.compare_mul h']
        rw [hcompare]
        rfl

namespace Number

variable {x y : Float} {p q : ℚ} (hx : value x = some p) (hy : value y = some q)
include hx hy

/-- Doubles are compared as the numbers they stand for. -/
theorem compare_unpack : x.toModel.unpack.compare y.toModel.unpack = some (compare p q) :=
  (stands_unpack hx).compare_eq (stands_unpack hy)

/-- A double is less exactly when its number is. -/
theorem lt_iff : x < y ↔ p < q := by
  change decide ((x.toModel.unpack.compare y.toModel.unpack == some .lt) = true) = true ↔ _
  rw [decide_eq_true_iff, compare_unpack hx hy, beq_iff_eq, Option.some_inj, compare_lt_iff_lt]

/-- Doubles equal each other exactly when their numbers do. -/
theorem beq_iff : x == y ↔ p = q := by
  change (x.toModel.unpack.compare y.toModel.unpack == some .eq) = true ↔ _
  rw [compare_unpack hx hy, beq_iff_eq, Option.some_inj, compare_eq_iff_eq]

/-- Finite numbers are ordered as the rational numbers that they stand for. -/
theorem compareNumbers_eq : Value.compareNumbers x y = some (compare p q) := by
  have hx' := lt_iff hx hy
  have hy' := lt_iff hy hx
  have heq := beq_iff hx hy
  rw [Value.compareNumbers]
  rcases lt_trichotomy p q with h | h | h
  · rw [if_pos (hx'.mpr h), compare_lt_iff_lt.mpr h]
  · rw [if_neg (mt hx'.mp h.not_lt), if_neg (mt hy'.mp h.symm.not_lt), if_pos (heq.mpr h),
      compare_eq_iff_eq.mpr h]
  · rw [if_neg (mt hx'.mp h.not_gt), if_pos (hy'.mpr h), compare_gt_iff_gt.mpr h]

end Number

/-! ### Numbers and what they stand for -/

/-- The point of the number line that something is, or which end of the line. -/
def Exact.point : Exact → Option (Bool ⊕ ℚ)
  | .nan => none
  | .infinite negative => some (.inl negative)
  | .finite negative mantissa exponent => some (.inr (signed negative mantissa * 2 ^ exponent))

/-- What stands for a number is at that point. -/
theorem Stands.point {f : UnpackedFloat} {p : ℚ} (h : Stands f p) :
    (Exact.ofUnpacked f).point = some (.inr p) := by
  have hvalue := h.value
  cases hexact : Exact.ofUnpacked f <;> simp_all [Exact.value, Exact.point]

/-- No end of the number line is a point on it. -/
theorem Stands.compare_infinity_ne {f : UnpackedFloat} {p : ℚ} (h : Stands f p) (s : Sign) :
    (UnpackedFloat.infinity s).compare f ≠ some .eq ∧ f.compare (.infinity s) ≠ some .eq := by
  cases h with
  | zero t => cases s <;> exact ⟨nofun, nofun⟩
  | @finite t _ _ _ _ _ _ => cases s <;> cases t <;> exact ⟨nofun, nofun⟩

/-- Nothing compares to what is no number. -/
theorem compare_notANumber (f : UnpackedFloat) : f.compare .notANumber = none := by
  cases f <;> rfl

/-- What is no number compares to nothing. -/
theorem notANumber_compare (f : UnpackedFloat) : UnpackedFloat.notANumber.compare f = none :=
  rfl

/-- The ends of the number line compare as their signs do. -/
theorem infinity_compare_infinity (s t : Sign) :
    (UnpackedFloat.infinity s).compare (.infinity t) = some (compare s t) :=
  rfl

/-- What is no number is nowhere on the number line. -/
theorem point_notANumber : (Exact.ofUnpacked .notANumber).point = none :=
  rfl

/-- An infinite number is an end of the number line. -/
theorem point_infinity (s : Sign) :
    (Exact.ofUnpacked (.infinity s)).point = some (.inl (Exact.isNegative s)) :=
  rfl

/-- What is unpacked is no number, or an end of the number line, or a point on it. -/
theorem unpack_cases (x : Float) : x.toModel.unpack = .notANumber ∨
    (∃ s, x.toModel.unpack = .infinity s) ∨ ∃ p, Stands x.toModel.unpack p := by
  have hstands := fun q => stands_unpack (x := x) (q := q)
  rw [ofFloat_eq] at hstands
  cases h : x.toModel.unpack with
  | notANumber => exact .inl rfl
  | infinity s => exact .inr (.inl ⟨s, rfl⟩)
  | zero | finite =>
    rw [h] at hstands
    exact .inr (.inr ⟨_, hstands _ rfl⟩)

/-- A number other than zero has one packed form only. -/
theorem Stands.eq {f g : UnpackedFloat} {p : ℚ} (hf : Stands f p) (hg : Stands g p) (hp : p ≠ 0) :
    f = g := by
  cases hf with
  | zero s => exact absurd rfl hp
  | @finite s m e _ hm h hf =>
    cases hg with
    | zero t => exact absurd rfl hp
    | @finite t n d _ hn h' hg =>
      have hpos : (0 : ℚ) < m * 2 ^ e := mul_pos (by exact_mod_cast hm) (two_zpow_pos e)
      have hpos' : (0 : ℚ) < n * 2 ^ d := mul_pos (by exact_mod_cast hn) (two_zpow_pos d)
      have hparts : s = t ∧ (m : ℚ) * 2 ^ e = n * 2 ^ d := by
        have hvalue := hf.symm.trans hg
        cases s <;> cases t <;> simp [Sign.apply] at hvalue ⊢ <;> linarith
      obtain ⟨rfl, hvalue⟩ := hparts
      have hcompare := (h.compare_mul h').symm.trans (compare_eq_iff_eq.mpr hvalue)
      rw [Ordering.then_eq_eq, compare_eq_iff_eq, compare_eq_iff_eq] at hcompare
      obtain ⟨rfl, rfl⟩ := hcompare
      rfl

/-- What stands for a number is one. -/
theorem Stands.isNaN_eq_false {f : UnpackedFloat} {p : ℚ} (h : Stands f p) : f.isNaN = false := by
  cases h <;> rfl

namespace Number

/-- A number other than zero has one form only. -/
theorem eq_of_value {x y : Float} {p : ℚ} (hx : value x = some p) (hy : value y = some p)
    (hp : p ≠ 0) : x = y := by
  have hunpack := (stands_unpack hx).eq (stands_unpack hy) hp
  have hbits : x.toModel.toBits.toBitVec.toNat = y.toModel.toBits.toBitVec.toNat := by
    cases hparts : x.toModel.unpack with
    | notANumber | infinity | zero =>
      have hstands := stands_unpack hx
      rw [hparts] at hstands
      cases hstands
      all_goals exact absurd rfl hp
    | finite s m e hm =>
      have hleft := toNat_eq_of_unpack _ hparts
      have hright := toNat_eq_of_unpack _ (hunpack.symm.trans hparts)
      exact_mod_cast hleft.trans hright.symm
  obtain ⟨⟨b, _⟩⟩ := x
  obtain ⟨⟨c, _⟩⟩ := y
  obtain rfl : b = c := UInt64.toBitVec_inj.mp (BitVec.eq_of_toNat_eq hbits)
  rfl

/-- A double that has a value is a number. -/
theorem isNaN_of_value {x : Float} {p : ℚ} (hx : value x = some p) : x.isNaN = false :=
  (stands_unpack hx).isNaN_eq_false

/-- The point of the number line that a number is, or the end of the line. -/
def point (x : Float) : Option (Bool ⊕ ℚ) :=
  (Exact.ofFloat x).point

/-- Numbers are equal exactly when they are one point of the number line. -/
theorem beq_iff_point {x y : Float} : x == y ↔ ∃ p, point x = some p ∧ point y = some p := by
  change (x.toModel.unpack.compare y.toModel.unpack == some .eq) = true ↔ _
  rw [beq_iff_eq, point, point, ofFloat_eq, ofFloat_eq]
  obtain hx | ⟨s, hx⟩ | ⟨p, hx⟩ := unpack_cases x
  · rw [hx, notANumber_compare, point_notANumber]
    simp
  · obtain hy | ⟨t, hy⟩ | ⟨q, hy⟩ := unpack_cases y
    · rw [hy, compare_notANumber, point_notANumber]
      simp
    · rw [hx, hy, infinity_compare_infinity, point_infinity, point_infinity]
      cases s <;> cases t <;> simp [Exact.isNegative, compare]
    · rw [hx, hy.point, point_infinity]
      simp [(hy.compare_infinity_ne s).1]
  · obtain hy | ⟨t, hy⟩ | ⟨q, hy⟩ := unpack_cases y
    · rw [hy, compare_notANumber, point_notANumber]
      simp
    · rw [hy, hx.point, point_infinity]
      simp [(hx.compare_infinity_ne t).2]
    · rw [hx.compare_eq hy, hx.point, hy.point, Option.some_inj, compare_eq_iff_eq]
      simp [eq_comm]

/-- What is no number equals nothing, and everything else equals itself. -/
theorem beq_self_iff {x : Float} : x == x ↔ x.isNaN = false := by
  change _ ↔ x.toModel.unpack.isNaN = false
  rw [beq_iff_point, point, ofFloat_eq]
  cases x.toModel.unpack with
  | notANumber =>
    refine ⟨?_, fun h => absurd h Bool.noConfusion⟩
    rintro ⟨_, hp, -⟩
    cases hp
  | _ => exact ⟨fun _ => rfl, fun _ => ⟨_, rfl, rfl⟩⟩

/-- Doubles equal each other in both orders alike. -/
theorem beq_comm (x y : Float) : (x == y) = (y == x) :=
  Bool.eq_iff_iff.mpr (by simp only [beq_iff_point, and_comm])

/-- Doubles that equal a third one equal each other. -/
theorem beq_trans {x y z : Float} (h : x == y) (h' : y == z) : x == z := by
  obtain ⟨p, hx, hy⟩ := beq_iff_point.mp h
  obtain ⟨q, hy', hz⟩ := beq_iff_point.mp h'
  obtain rfl := Option.some.inj (hy.symm.trans hy')
  exact beq_iff_point.mpr ⟨p, hx, hz⟩

/-- Words become the same number when they are rounded to the same integer. -/
theorem ofWord_eq_iff {v w : Int64} : ofWord v = ofWord w ↔ rounded v = rounded w := by
  constructor
  · intro h
    rw [rounded, h, ← rounded]
  · intro h
    by_cases hw : w = 0
    · rw [hw, rounded_eq_zero_iff.mpr rfl, rounded_eq_zero_iff] at h
      rw [h, hw]
    · refine eq_of_value (h ▸ value_ofWord v) (value_ofWord w) ?_
      exact_mod_cast mt rounded_eq_zero_iff.mp hw

end Number

end Stencil
