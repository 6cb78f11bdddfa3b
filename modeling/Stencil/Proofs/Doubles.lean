import Mathlib.Algebra.Order.Field.Power
import Mathlib.Data.Rat.Cast.Order
import Mathlib.Tactic.NormNum
import Mathlib.Tactic.Positivity
import Mathlib.Tactic.Ring
import Stencil.Number.Exact

/-!
# Exact operations on floating-point numbers

A floating-point number that is finite stands for a rational number, and the rational numbers that
one stands for have at most fifty-three binary digits. An operation on two of them rounds, but it
rounds nothing when the exact result is such a number itself. Here this is shown for sums,
differences, products and the numbers of integers, from the operations on bits up.

Nothing is said about which number is taken when the exact result is none: rounding itself plays no
part. What keeps the argument short is that a number has one form only in which its bits are packed,
so that it is enough to show that an operation ends at the exact result in that form.

## Main results

* `ofFloat_eq`: what a number stands for can be read off its parts.
* `roundWithAccuracy_eq`: rounding a number of the format puts it into its packed form.
* `Number.value_add`, `Number.value_sub`, `Number.value_mul`, `Number.value_neg`,
  `Number.value_ofInt`: operations are exact when the exact result is a number of the format.
* `Number.toWord?_eq_some_iff`: which numbers are words.
-/

namespace Stencil

open Float.Model Float.Model.UnpackedFloat

/-! ### Signs -/

/-- The opposite sign gives the opposite number. -/
theorem sign_apply_neg (s : Sign) (n : ℤ) : (-s).apply n = -s.apply n := by
  cases s
  · exact (Int.neg_neg n).symm
  · rfl

/-- The sign of a product is the product of the signs. -/
theorem sign_apply_mul (s t : Sign) (m n : ℤ) : (s * t).apply (m * n) = s.apply m * t.apply n := by
  cases s <;> cases t
  · exact (neg_mul_neg m n).symm
  · exact (neg_mul m n).symm
  · exact (mul_neg m n).symm
  · rfl

/-- A sign is given alike to equal magnitudes. -/
theorem sign_apply_congr (s : Sign) {m c : ℕ} {e f : ℤ} (h : (m : ℚ) * 2 ^ e = c * 2 ^ f) :
    (s.apply m : ℚ) * 2 ^ e = s.apply c * 2 ^ f := by
  cases s <;> simp [Sign.apply, h]

/-! ### Rational numbers -/

/-- The rational number that a finite number stands for. -/
def Exact.value : Exact → Option ℚ
  | .finite negative mantissa exponent => some (signed negative mantissa * 2 ^ exponent)
  | _ => none

/-- Whether a rational number is a number of the format: an integer of at most fifty-three binary
digits times a power of two in the range of the exponents. -/
def IsDouble (q : ℚ) : Prop :=
  ∃ (m : ℤ) (e : ℤ), m.natAbs < 2 ^ 53 ∧ -1074 ≤ e ∧ e ≤ 971 ∧ q = m * 2 ^ e

/-- The form of a positive number in which its bits are packed: the mantissa has fifty-three digits,
or else the exponent is the least one. -/
structure Canonical (m : ℕ) (e : ℤ) : Prop where
  lt : m < 2 ^ 53
  low : -1074 ≤ e
  high : e ≤ 971
  normal : 2 ^ 52 ≤ m ∨ e = -1074

/-- The unpacked number is finite, in its packed form, and stands for a rational number. -/
inductive Stands : UnpackedFloat → ℚ → Prop where
  | zero (s : Sign) : Stands (.zero s) 0
  | finite {s : Sign} {m : ℕ} {e : ℤ} {q : ℚ} (hm : 0 < m) (h : Canonical m e)
      (hq : q = s.apply m * 2 ^ e) : Stands (.finite s m e hm) q

/-- Powers of two are positive. -/
theorem two_zpow_pos (e : ℤ) : (0 : ℚ) < 2 ^ e :=
  zpow_pos (by norm_num) e

/-- Digits move between the mantissa and the exponent. -/
theorem mul_two_zpow_add (q : ℚ) (e : ℤ) (k : ℕ) : q * 2 ^ (e + k) = q * 2 ^ k * 2 ^ e := by
  rw [add_comm, zpow_add₀ (by norm_num), zpow_natCast, mul_assoc]

/-- Digits that the mantissa has more, the exponent has less. -/
theorem mul_two_pow_zpow (q : ℚ) (k : ℕ) (e : ℤ) : q * 2 ^ k * 2 ^ (e - k) = q * 2 ^ e := by
  rw [← mul_two_zpow_add, sub_add_cancel]

/-- The opposite of a number of the format is one. -/
theorem IsDouble.neg {q : ℚ} (h : IsDouble q) : IsDouble (-q) := by
  obtain ⟨m, e, hm, hlow, hhigh, rfl⟩ := h
  exact ⟨-m, e, by rwa [Int.natAbs_neg], hlow, hhigh, by push_cast; ring⟩

/-- The magnitude of a number of the format is one. -/
theorem IsDouble.of_sign {s : Sign} {m : ℕ} {e : ℤ} (h : IsDouble (s.apply m * 2 ^ e)) :
    IsDouble (m * 2 ^ e) := by
  cases s
  · simpa [Sign.apply] using h.neg
  · exact h

/-- Small integers are numbers of the format. -/
theorem isDouble_of_natAbs_lt {n : ℤ} (h : n.natAbs < 2 ^ 53) : IsDouble n :=
  ⟨n, 0, h, by decide, by decide, by simp⟩

/-- The lead digit of a number has one place, in whatever form the number is given. -/
theorem log2_add_exponent {m c : ℕ} {e f : ℤ} (hm : 0 < m) (hc : 0 < c)
    (h : (m : ℚ) * 2 ^ e = c * 2 ^ f) : (m.log2 : ℤ) + e = c.log2 + f := by
  have hle : ∀ {m c : ℕ} {e f : ℤ}, 0 < m → 0 < c → (m : ℚ) * 2 ^ e = c * 2 ^ f →
      (m.log2 : ℤ) + e ≤ c.log2 + f := by
    intro m c e f hm hc h
    have hlow : (2 : ℚ) ^ ((m.log2 : ℤ) + e) ≤ m * 2 ^ e := by
      rw [zpow_add₀ (by norm_num), zpow_natCast]
      refine mul_le_mul_of_nonneg_right ?_ (two_zpow_pos e).le
      exact_mod_cast Nat.log2_self_le hm.ne'
    have hhigh : (c : ℚ) * 2 ^ f < 2 ^ ((c.log2 : ℤ) + 1 + f) := by
      rw [zpow_add₀ (by norm_num)]
      refine mul_lt_mul_of_pos_right ?_ (two_zpow_pos f)
      exact_mod_cast Nat.lt_log2_self
    have hplaces := (zpow_lt_zpow_iff_right₀ (by norm_num : (1 : ℚ) < 2)).mp
      ((h ▸ hlow).trans_lt hhigh)
    omega
  exact le_antisymm (hle hm hc h) (hle hc hm h.symm)

/-- Rounding aims at fifty-three digits, or at the least exponent. -/
theorem targetExponent_eq (m : ℕ) (e : ℤ) :
    Format.binary64.targetExponent (totalExponent m e) = max (m.log2 + e - 52) (-1074) := by
  have hbits : Format.binary64.mantissaBits = 53 := rfl
  simp only [Format.targetExponent, totalExponent, Format.minExponent, hbits]
  omega

/-- The mantissa of a packed form has at most fifty-three digits. -/
theorem Canonical.log2_le {m : ℕ} {e : ℤ} (h : Canonical m e) : m.log2 ≤ 52 := by
  by_cases hm : m = 0
  · simp [hm]
  · exact Nat.le_of_lt_succ ((Nat.log2_lt hm).mpr h.lt)

/-- The packed form is the one that rounding aims at. -/
theorem Canonical.eq_target {m : ℕ} {e : ℤ} (h : Canonical m e) :
    max (m.log2 + e - 52) (-1074) = e := by
  have hle := h.log2_le
  have hlow := h.low
  rcases h.normal with hnormal | hleast
  · have hge := (Nat.le_log2 (Nat.ne_of_gt (Nat.lt_of_lt_of_le (by decide) hnormal))).mpr hnormal
    omega
  · omega

/-- The digits of a product reach at least as far down as those of its packed form. -/
theorem Canonical.add_exponents_le {m n c : ℕ} {e d f : ℤ} (h : Canonical m e)
    (h' : Canonical n d) (hm : 0 < m) (hn : 0 < n) (hc : 0 < c) (hpacked : Canonical c f)
    (hvalue : ((m * n : ℕ) : ℚ) * 2 ^ (e + d) = c * 2 ^ f) : e + d ≤ f := by
  have hplace := log2_add_exponent (Nat.mul_pos hm hn) hc hvalue
  have htarget := hpacked.eq_target
  have hlead : 2 ^ 52 ≤ m * n → 52 ≤ (m * n).log2 := (Nat.le_log2 (Nat.mul_pos hm hn).ne').mpr
  rcases h.normal with hnormal | rfl
  · have := hlead (hnormal.trans (Nat.le_mul_of_pos_right m hn))
    omega
  · rcases h'.normal with hnormal | rfl
    · have := hlead (hnormal.trans (Nat.le_mul_of_pos_left n hm))
      omega
    · omega

/-- Every positive number of the format has a packed form. -/
theorem IsDouble.exists_canonical {q : ℚ} (h : IsDouble q) (hpos : 0 < q) :
    ∃ (m : ℕ) (e : ℤ), 0 < m ∧ Canonical m e ∧ q = m * 2 ^ e := by
  obtain ⟨n, e, hn, hlow, hhigh, rfl⟩ := h
  have hn0 : 0 < n := by
    have := pos_of_mul_pos_left hpos (two_zpow_pos e).le
    exact_mod_cast this
  obtain ⟨m, rfl⟩ := Int.eq_ofNat_of_zero_le hn0.le
  have hm : m ≠ 0 := by omega
  have hlog : m.log2 ≤ 52 := Nat.le_of_lt_succ ((Nat.log2_lt hm).mpr hn)
  -- The mantissa is shifted until it has all its digits, or the exponent is the least one.
  obtain ⟨k, hk⟩ : ∃ k : ℕ, k = min (52 - m.log2) (e + 1074).toNat := ⟨_, rfl⟩
  have hshift : m * 2 ^ k < 2 ^ 53 := by
    calc m * 2 ^ k < 2 ^ (m.log2 + 1) * 2 ^ k :=
          Nat.mul_lt_mul_of_pos_right Nat.lt_log2_self (Nat.two_pow_pos k)
      _ = 2 ^ (m.log2 + 1 + k) := (Nat.pow_add ..).symm
      _ ≤ 2 ^ 53 := Nat.pow_le_pow_right (by decide) (by omega)
  refine ⟨m * 2 ^ k, e - k, Nat.mul_pos (by omega) (Nat.two_pow_pos k),
    ⟨hshift, by omega, by omega, ?_⟩, ?_⟩
  · rcases Nat.le_total (52 - m.log2) (e + 1074).toNat with hle | hle
    · refine .inl ?_
      calc 2 ^ 52 = 2 ^ (m.log2 + k) := congrArg _ (by omega)
        _ = 2 ^ m.log2 * 2 ^ k := Nat.pow_add ..
        _ ≤ m * 2 ^ k := Nat.mul_le_mul_right _ (Nat.log2_self_le hm)
    · exact .inr (by omega)
  · push_cast
    exact (mul_two_pow_zpow m k e).symm

/-! ### Rounding -/

/-- A shift that loses no digit divides by a power of two. -/
theorem shiftRight_eq {m k : ℕ} (h : 2 ^ k ∣ m) :
    (ExtendedMantissa.mk m false false) >>> k = ⟨m / 2 ^ k, false, false⟩ := by
  induction k with
  | zero => simp [HShiftRight.hShiftRight, Nat.repeat]
  | succ k ih =>
    obtain ⟨c, rfl⟩ := h
    have hprev := ih ((Nat.pow_dvd_pow 2 (Nat.le_succ k)).trans (Dvd.intro c rfl))
    have hstep : ∀ em : ExtendedMantissa, em >>> (k + 1) = (em >>> k).shiftRightOne :=
      fun _ => rfl
    have hhalf : 2 ^ (k + 1) * c / 2 ^ k = 2 * c := by
      rw [Nat.pow_succ, Nat.mul_assoc]
      exact Nat.mul_div_cancel_left _ (Nat.two_pow_pos k)
    rw [hstep, hprev, hhalf, Nat.mul_div_cancel_left _ (Nat.two_pow_pos (k + 1))]
    simp [ExtendedMantissa.shiftRightOne]

/-- Shifting a number to the exponent of its packed form loses no digit. -/
theorem shiftToTargetExponent_eq {c k : ℕ} {e : ℤ} (hc : 0 < c) (h : Canonical c (e + k)) :
    shiftToTargetExponent .binary64 (c * 2 ^ k) e .exact = (⟨c, false, false⟩, e + k) := by
  have htarget : Format.binary64.targetExponent (totalExponent (c * 2 ^ k) e) = e + k := by
    have hvalue : ((c * 2 ^ k : ℕ) : ℚ) * 2 ^ e = c * 2 ^ (e + k) := by
      rw [mul_two_zpow_add, Nat.cast_mul, Nat.cast_pow, Nat.cast_ofNat]
    have hplace := log2_add_exponent (Nat.mul_pos hc (Nat.two_pow_pos k)) hc hvalue
    rw [targetExponent_eq, hplace, h.eq_target]
  have hshift : (e + k - e).toNat = k := by omega
  rw [shiftToTargetExponent, htarget, shiftToExponent, hshift]
  exact congrArg (·, e + (k : ℤ))
    ((shiftRight_eq (Dvd.intro_left c rfl)).trans
      (by rw [Nat.mul_div_cancel _ (Nat.two_pow_pos k)]))

/-- Rounding a number of the format puts it into its packed form. -/
theorem roundWithAccuracy_eq {s : Sign} {m c : ℕ} {e f : ℤ} (hc : 0 < c) (h : Canonical c f)
    (hle : e ≤ f) (hvalue : (m : ℚ) * 2 ^ e = c * 2 ^ f) :
    roundWithAccuracy .binary64 s m e .exact = .finite s c f hc := by
  obtain ⟨k, rfl⟩ : ∃ k : ℕ, f = e + k := ⟨(f - e).toNat, by omega⟩
  have hm : m = c * 2 ^ k := by
    rw [mul_two_zpow_add] at hvalue
    exact_mod_cast mul_right_cancel₀ (two_zpow_pos e).ne' hvalue
  have hagain : shiftToTargetExponent .binary64 c (e + k) .exact =
      (⟨c, false, false⟩, e + k) := by
    have hcanonical : Canonical c (e + k + (0 : ℕ)) := by simpa using h
    simpa using shiftToTargetExponent_eq hc hcanonical
  rw [roundWithAccuracy, hm, shiftToTargetExponent_eq hc h]
  change (match shiftToTargetExponent .binary64 c (e + k) .exact with
    | (em, e) => if h : em.mantissa = 0 then UnpackedFloat.zero s
      else .finite s em.mantissa e (Nat.pos_of_ne_zero h)) = _
  rw [hagain]
  exact dif_neg hc.ne'

/-- A magnitude of the format is rounded to its packed form. -/
theorem round_eq {s : Sign} {m c : ℕ} {e f : ℤ} (hm : 0 < m) (hc : 0 < c) (h : Canonical c f)
    (hvalue : (m : ℚ) * 2 ^ e = c * 2 ^ f) :
    UnpackedFloat.round .binary64 s m e = .finite s c f hc := by
  have htarget : Format.binary64.targetExponent (totalExponent m e) = f := by
    rw [targetExponent_eq, log2_add_exponent hm hc hvalue, h.eq_target]
  rw [UnpackedFloat.round, htarget]
  refine roundWithAccuracy_eq hc h (by omega) ?_
  rw [← hvalue, Nat.shiftLeft_eq]
  push_cast
  exact mul_two_pow_zpow m _ e

/-- A number of the format stays what it is when it is rounded. -/
theorem stands_round {s : Sign} {m : ℕ} {e : ℤ} (hm : 0 < m) (h : IsDouble (s.apply m * 2 ^ e)) :
    Stands (UnpackedFloat.round .binary64 s m e) (s.apply m * 2 ^ e) := by
  have hpos : 0 < (m : ℚ) * 2 ^ e := mul_pos (by exact_mod_cast hm) (two_zpow_pos e)
  obtain ⟨c, f, hc, hcanonical, hvalue⟩ := h.of_sign.exists_canonical hpos
  rw [round_eq hm hc hcanonical hvalue]
  exact .finite hc hcanonical (sign_apply_congr s hvalue)

/-- Normalizing keeps every number of the format. -/
theorem stands_normalize {m e : ℤ} (zero : Sign) (h : IsDouble (m * 2 ^ e)) :
    Stands (UnpackedFloat.normalize .binary64 m e zero) (m * 2 ^ e) := by
  rw [UnpackedFloat.normalize]
  rcases lt_trichotomy m 0 with hm | rfl | hm
  · obtain ⟨n, rfl⟩ : ∃ n : ℕ, m = -n := ⟨m.natAbs, by omega⟩
    rw [Int.compare_eq_lt.mpr hm, Int.neg_neg, Int.toNat_natCast]
    exact stands_round (s := .negative) (by omega) h
  · simpa using Stands.zero zero
  · obtain ⟨n, rfl⟩ := Int.eq_ofNat_of_zero_le hm.le
    rw [Int.compare_eq_gt.mpr hm]
    exact stands_round (s := .positive) (by omega) h

/-! ### Bits -/

/-- Whether a sign is that of the negative numbers. -/
def Exact.isNegative : Sign → Bool
  | .negative => true
  | .positive => false

/-- The number with the parts that unpacking gives. -/
def Exact.ofUnpacked : UnpackedFloat → Exact
  | .notANumber => .nan
  | .infinity s => .infinite (isNegative s)
  | .zero s => .finite (isNegative s) 0 (-1074)
  | .finite s m e _ => .finite (isNegative s) m e

/-- A leading digit adds a power of two. -/
theorem toNat_append_lead {n : ℕ} (m : BitVec n) : (1#1 ++ m).toNat = 2 ^ n + m.toNat := by
  rw [BitVec.toNat_append, ← Nat.shiftLeft_add_eq_or_of_lt m.isLt, Nat.shiftLeft_eq]
  simp

/-- Numbers of one sign are equal when their mantissas and their exponents are. -/
theorem finite_congr {s : Sign} {m n : ℕ} {e d : ℤ} {hm : 0 < m} {hn : 0 < n} (hmn : m = n)
    (hed : e = d) : UnpackedFloat.finite s m e hm = .finite s n d hn := by
  subst hmn hed
  rfl

section Fields

variable (b : BitVec Format.binary64.numBits)

/-- The fraction is what the lower fifty-two bits hold. -/
theorem toNat_unpackMantissa : (unpackMantissa b).toNat = b.toNat % twoPow 52 := by
  simp [unpackMantissa, twoPow]

/-- The exponent field is what the next eleven bits hold. -/
theorem toNat_unpackExponent : (unpackExponent b).toNat = b.toNat / twoPow 52 % twoPow 11 := by
  simp [unpackExponent, twoPow, Nat.shiftRight_eq_div_pow]

/-- The highest bit is the sign. -/
theorem isNegative_unpackSign :
    Exact.isNegative (.ofBitVec (unpackSign b)) = (b.toNat / twoPow 63 % 2 == 1) := by
  have hbit : (unpackSign b).toNat = b.toNat / twoPow 63 % 2 := by
    have hextract : unpackSign b = b.extractLsb' 63 1 := rfl
    rw [hextract, BitVec.extractLsb'_toNat, Nat.shiftRight_eq_div_pow]
    rfl
  rw [← hbit, Sign.ofBitVec]
  generalize unpackSign b = bit
  revert bit
  decide

/-- Unpacking tells the numbers apart by their exponent fields. -/
theorem unpack_eq : UnpackedFloat.unpack .binary64 b =
    if (unpackExponent b).toNat = 2047 then
      if (unpackMantissa b).toNat = 0 then .infinity (.ofBitVec (unpackSign b)) else .notANumber
    else if (unpackExponent b).toNat = 0 then
      if h : (unpackMantissa b).toNat = 0 then .zero (.ofBitVec (unpackSign b))
      else .finite (.ofBitVec (unpackSign b)) (unpackMantissa b).toNat (-1074)
        (Nat.pos_of_ne_zero h)
    else .finite (.ofBitVec (unpackSign b)) (2 ^ 52 + (unpackMantissa b).toNat)
      ((unpackExponent b).toNat - 1075) (Nat.add_pos_left (by decide) _) := by
  have hones : unpackExponent b = -1#_ ↔ (unpackExponent b).toNat = 2047 := by
    rw [← BitVec.toNat_inj]
    rfl
  have hleast : unpackExponent b = 0#_ ↔ (unpackExponent b).toNat = 0 := by
    rw [← BitVec.toNat_inj]
    rfl
  have hfraction : unpackMantissa b = 0#_ ↔ (unpackMantissa b).toNat = 0 := by
    rw [← BitVec.toNat_inj]
    rfl
  unfold UnpackedFloat.unpack
  refine if_congr hones (if_congr hfraction rfl rfl) (ite_congr (propext hleast)
    (fun hfield => dite_congr (propext hfraction) (fun _ => rfl) fun _ => ?_) fun _ => ?_)
  · refine finite_congr rfl ?_
    rw [hfield]
    rfl
  · exact finite_congr (toNat_append_lead _) rfl

/-- What bits are unpacked into, by what their fields hold. -/
inductive Unpacks : UnpackedFloat → Prop
  | infinity : (unpackExponent b).toNat = 2047 → (unpackMantissa b).toNat = 0 →
    Unpacks (.infinity (.ofBitVec (unpackSign b)))
  | notANumber : (unpackExponent b).toNat = 2047 → (unpackMantissa b).toNat ≠ 0 →
    Unpacks .notANumber
  | zero : (unpackExponent b).toNat = 0 → (unpackMantissa b).toNat = 0 →
    Unpacks (.zero (.ofBitVec (unpackSign b)))
  | subnormal : (unpackExponent b).toNat = 0 → ∀ hm : 0 < (unpackMantissa b).toNat,
    Unpacks (.finite (.ofBitVec (unpackSign b)) (unpackMantissa b).toNat (-1074) hm)
  | normal : (unpackExponent b).toNat ≠ 2047 → (unpackExponent b).toNat ≠ 0 →
    ∀ hm : 0 < 2 ^ 52 + (unpackMantissa b).toNat,
    Unpacks (.finite (.ofBitVec (unpackSign b)) (2 ^ 52 + (unpackMantissa b).toNat)
      ((unpackExponent b).toNat - 1075) hm)

/-- Bits are unpacked into one of these. -/
theorem unpacks : Unpacks b (UnpackedFloat.unpack .binary64 b) := by
  rw [unpack_eq]
  by_cases hlast : (unpackExponent b).toNat = 2047
  · rw [if_pos hlast]
    by_cases hfraction : (unpackMantissa b).toNat = 0
    · rw [if_pos hfraction]
      exact .infinity hlast hfraction
    · rw [if_neg hfraction]
      exact .notANumber hlast hfraction
  · rw [if_neg hlast]
    by_cases hfirst : (unpackExponent b).toNat = 0
    · rw [if_pos hfirst]
      by_cases hfraction : (unpackMantissa b).toNat = 0
      · rw [dif_pos hfraction]
        exact .zero hfirst hfraction
      · rw [dif_neg hfraction]
        exact .subnormal hfirst _
    · rw [if_neg hfirst]
      exact .normal hlast hfirst _

/-- What bits stand for is what they are unpacked into. -/
theorem ofBits_eq : Exact.ofBits b.toNat = .ofUnpacked (UnpackedFloat.unpack .binary64 b) := by
  have hunpacks := unpacks b
  generalize UnpackedFloat.unpack .binary64 b = f at hunpacks ⊢
  rw [Exact.ofBits, ← toNat_unpackExponent b, ← toNat_unpackMantissa b, ← isNegative_unpackSign b]
  dsimp only
  cases hunpacks with
  | infinity hlast hfraction =>
    rw [if_pos hlast, if_pos hfraction]
    rfl
  | notANumber hlast hfraction =>
    rw [if_pos hlast, if_neg hfraction]
    rfl
  | zero hfirst hfraction =>
    rw [if_neg (by omega), if_pos hfirst, hfraction]
    rfl
  | subnormal hfirst hm =>
    rw [if_neg (by omega), if_pos hfirst]
    rfl
  | normal hlast hfirst hm =>
    rw [if_neg hlast, if_neg hfirst]
    rfl

/-- Unpacking gives the packed form of a number. -/
theorem canonical_of_unpack {s : Sign} {m : ℕ} {e : ℤ} {hm : 0 < m}
    (h : UnpackedFloat.unpack .binary64 b = .finite s m e hm) : Canonical m e := by
  have hfraction : (unpackMantissa b).toNat < 2 ^ 52 := (unpackMantissa b).isLt
  have hfield : (unpackExponent b).toNat < 2 ^ 11 := (unpackExponent b).isLt
  have hunpacks := unpacks b
  rw [h] at hunpacks
  cases hunpacks with
  | subnormal => exact ⟨by omega, by omega, by omega, .inr rfl⟩
  | normal => exact ⟨by omega, by omega, by omega, .inl (by omega)⟩

/-- The bits of a number can be read off its parts. -/
theorem toNat_eq_of_unpack {s : Sign} {m : ℕ} {e : ℤ} {hm : 0 < m}
    (h : UnpackedFloat.unpack .binary64 b = .finite s m e hm) :
    (b.toNat : ℤ) = (Exact.isNegative s).toNat * 2 ^ 63 + (e + 1074) * 2 ^ 52 + m := by
  have hbits : b.toNat < 2 ^ 64 := b.isLt
  have hfraction : (unpackMantissa b).toNat = b.toNat % 2 ^ 52 := toNat_unpackMantissa b
  have hfield : (unpackExponent b).toNat = b.toNat / 2 ^ 52 % 2 ^ 11 := toNat_unpackExponent b
  have hsign : (Exact.isNegative (.ofBitVec (unpackSign b))).toNat = b.toNat / 2 ^ 63 := by
    have hbit : b.toNat / 2 ^ 63 = 0 ∨ b.toNat / 2 ^ 63 = 1 := by omega
    rw [isNegative_unpackSign]
    change (b.toNat / 2 ^ 63 % 2 == 1).toNat = _
    rcases hbit with hbit | hbit <;> rw [hbit] <;> rfl
  have hunpacks := unpacks b
  rw [h] at hunpacks
  cases hunpacks with
  | subnormal | normal => omega

end Fields

/-- The sign of a packed number is its first bit. -/
theorem sign_packComponents (s : Sign) (e : BitVec 11) (m : BitVec 52) :
    Sign.ofBitVec (unpackSign (packComponents .binary64 s e m)) = s := by
  have hbit : unpackSign (packComponents .binary64 s e m) = s.toBitVec := by
    rw [packComponents, BitVec.append_assoc]
    exact BitVec.extractLsb'_append_eq_left
  rw [hbit]
  cases s <;> rfl

/-- Packing puts the digits of a number behind its sign and its exponent field, which is zero where
digits are missing. -/
theorem pack_finite (s : Sign) {m : ℕ} (e : ℤ) (hm : 0 < m) :
    UnpackedFloat.pack .binary64 (.finite s m e hm) =
      if 2 ^ 11 ≤ (e + 1075).toNat + 1 then packedInfinity .binary64 s
      else if m.log2 + 1 = 53 then
        packComponents .binary64 s (.ofNat 11 (e + 1075).toNat) (.ofNat 52 m)
      else packComponents .binary64 s 0#11 (.ofNat 52 m) := by
  have hbias : e + 1075 =
      e + Format.binary64.exponentBias + Format.binary64.mantissaBitsWithoutImplicit := by
    simp [Format.exponentBias]
    omega
  rw [hbias]
  rfl

/-- Packing and unpacking keeps the packed form of a number. -/
theorem unpack_pack {s : Sign} {m : ℕ} {e : ℤ} (hm : 0 < m) (h : Canonical m e) :
    UnpackedFloat.unpack .binary64 (UnpackedFloat.pack .binary64 (.finite s m e hm)) =
      .finite s m e hm := by
  obtain ⟨hlt, hlow, hhigh, hnormal⟩ := h
  rw [pack_finite, if_neg (by omega)]
  by_cases hlead : 2 ^ 52 ≤ m
  · have hlog : m.log2 = 52 := (Nat.log2_eq_iff hm.ne').mpr ⟨hlead, hlt⟩
    have hfield : (BitVec.ofNat 11 (e + 1075).toNat).toNat = (e + 1075).toNat := by
      rw [BitVec.toNat_ofNat]
      omega
    have hfraction : 2 ^ 52 + (BitVec.ofNat 52 m).toNat = m := by
      rw [BitVec.toNat_ofNat]
      omega
    rw [hlog, if_pos rfl, unpack_eq, unpackExponent_packComponents, unpackMantissa_packComponents,
      sign_packComponents, hfield, if_neg (by omega), if_neg (by omega)]
    exact finite_congr hfraction (by omega)
  · obtain rfl : e = -1074 := hnormal.resolve_left hlead
    have hlog : m.log2 < 52 := (Nat.log2_lt hm.ne').mpr (Nat.lt_of_not_le hlead)
    have hfraction : (BitVec.ofNat 52 m).toNat = m := by
      rw [BitVec.toNat_ofNat]
      omega
    rw [if_neg (by omega), unpack_eq, unpackExponent_packComponents, unpackMantissa_packComponents,
      sign_packComponents, hfraction, if_neg (by decide), if_pos (by decide), dif_neg hm.ne']

/-! ### Values -/

/-- What a number stands for can be read off its unpacked form. -/
theorem ofFloat_eq (x : Float) : Exact.ofFloat x = .ofUnpacked x.toModel.unpack :=
  ofBits_eq x.toModel.toBits.toBitVec

/-- The value of zero. -/
theorem Exact.value_ofUnpacked_zero (s : Sign) : (ofUnpacked (.zero s)).value = some 0 := by
  change (Exact.finite (isNegative s) 0 (-1074)).value = _
  cases s <;> simp [value, signed, isNegative]

/-- The value of a number other than zero. -/
theorem Exact.value_ofUnpacked_finite (s : Sign) (m : ℕ) (e : ℤ) (hm : 0 < m) :
    (ofUnpacked (.finite s m e hm)).value = some ((s.apply m : ℚ) * 2 ^ e) := by
  change (Exact.finite (isNegative s) m e).value = _
  cases s <;> simp [value, signed, isNegative, Sign.apply]

/-- A packed form has the value that it stands for. -/
theorem Stands.value {f : UnpackedFloat} {q : ℚ} (h : Stands f q) :
    (Exact.ofUnpacked f).value = some q := by
  cases h with
  | zero s => rw [Exact.value_ofUnpacked_zero]
  | @finite s m e _ hm h hq => rw [Exact.value_ofUnpacked_finite, hq]

/-- What is packed can be read again. -/
theorem Stands.value_pack {f : UnpackedFloat} {q : ℚ} (h : Stands f q) :
    (Exact.ofFloat (.ofModel (.pack f))).value = some q := by
  have hunpack : (Float.Model.pack f).unpack = f := by
    cases h with
    | zero s => cases s <;> rfl
    | finite hm h hq => exact unpack_pack hm h
  rw [ofFloat_eq, hunpack, h.value]

/-- The bits of a finite number are unpacked into its packed form. -/
theorem stands_unpack_bits {b : BitVec Format.binary64.numBits} {q : ℚ}
    (h : (Exact.ofBits b.toNat).value = some q) : Stands (UnpackedFloat.unpack .binary64 b) q := by
  rw [ofBits_eq] at h
  cases hunpack : UnpackedFloat.unpack .binary64 b with
  | notANumber | infinity s =>
    rw [hunpack] at h
    cases h
  | zero s =>
    rw [hunpack] at h
    obtain rfl := Option.some.inj ((Exact.value_ofUnpacked_zero s).symm.trans h)
    exact .zero s
  | finite s m e hm =>
    rw [hunpack] at h
    have hcanonical := canonical_of_unpack _ hunpack
    have hstands : Stands (.finite s m e hm) (s.apply m * 2 ^ e) := .finite hm hcanonical rfl
    obtain rfl := Option.some.inj (hstands.value.symm.trans h)
    exact hstands

/-- A finite number is unpacked into its packed form. -/
theorem stands_unpack {x : Float} {q : ℚ} (h : (Exact.ofFloat x).value = some q) :
    Stands x.toModel.unpack q :=
  stands_unpack_bits h

/-! ### Operations -/

/-- Bringing a number to a smaller exponent keeps it. -/
theorem apply_decreaseExponent (s : Sign) (m : ℕ) {e f : ℤ} (h : f ≤ e) :
    (s.apply (decreaseExponent m e f).1 : ℚ) * 2 ^ f = s.apply m * 2 ^ e := by
  obtain ⟨k, rfl⟩ : ∃ k : ℕ, f = e - k := ⟨(e - f).toNat, by omega⟩
  have hshift : (decreaseExponent m e (e - k)).1 = m * 2 ^ k := by
    rw [decreaseExponent, Nat.shiftLeft_eq, sub_sub_cancel, Int.toNat_natCast]
  have hscale : s.apply ((m * 2 ^ k : ℕ) : ℤ) = s.apply m * 2 ^ k := by
    cases s <;> simp [Sign.apply]
  rw [hshift, hscale]
  push_cast
  exact mul_two_pow_zpow _ k e

/-- To subtract is to add the opposite number. -/
theorem unpacked_sub_eq_add_neg (f g : UnpackedFloat) :
    f.sub .binary64 g = f.add .binary64 g.neg := by
  cases f with
  | finite s m e hm =>
    cases g with
    | finite t n d hn =>
      have hsum (k l : ℕ) : s.apply k - t.apply l = s.apply k + (-t).apply l := by
        rw [sign_apply_neg, Int.sub_eq_add_neg]
      exact congrArg (normalize .binary64 · (min e d) .positive) (hsum _ _)
    | _ => rfl
  | _ => cases g <;> rfl

section Operations

variable {f g : UnpackedFloat} {p q : ℚ} (hf : Stands f p) (hg : Stands g q)
include hf

/-- The opposite of a packed form stands for the opposite number. -/
theorem Stands.neg : Stands f.neg (-p) := by
  cases hf with
  | zero s => exact neg_zero (G := ℚ) ▸ Stands.zero (-s)
  | finite hm h hp =>
    refine .finite hm h ?_
    rw [hp, sign_apply_neg]
    push_cast
    ring

include hg

/-- Sums are exact when they are numbers of the format. -/
theorem Stands.add (h : IsDouble (p + q)) : Stands (f.add .binary64 g) (p + q) := by
  cases hf with
  | zero s =>
    rw [zero_add]
    cases hg with
    | zero t => cases s <;> cases t <;> exact .zero _
    | finite hm h hq => exact .finite hm h hq
  | @finite s m e _ hm hcanonical hp =>
    cases hg with
    | zero t =>
      rw [add_zero]
      exact .finite hm hcanonical hp
    | @finite t n d _ hn _ hq =>
      have hsum : ((s.apply (decreaseExponent m e (min e d)).1 +
          t.apply (decreaseExponent n d (min e d)).1 : ℤ) : ℚ) * 2 ^ min e d = p + q := by
        rw [Int.cast_add, add_mul, apply_decreaseExponent s m (min_le_left e d),
          apply_decreaseExponent t n (min_le_right e d), hp, hq]
      rw [← hsum] at h ⊢
      exact stands_normalize .positive h

/-- Differences are exact when they are numbers of the format. -/
theorem Stands.sub (h : IsDouble (p - q)) : Stands (f.sub .binary64 g) (p - q) := by
  rw [sub_eq_add_neg] at h ⊢
  rw [unpacked_sub_eq_add_neg]
  exact hf.add hg.neg h

/-- Products are exact when they are numbers of the format. -/
theorem Stands.mul (h : IsDouble (p * q)) : Stands (f.mul .binary64 g) (p * q) := by
  cases hf with
  | zero s =>
    rw [zero_mul]
    cases hg <;> exact .zero _
  | @finite s m e _ hm hcanonical hp =>
    cases hg with
    | zero t =>
      rw [mul_zero]
      exact .zero _
    | @finite t n d _ hn hcanonical' hq =>
      have hpos : 0 < ((m * n : ℕ) : ℚ) * 2 ^ (e + d) :=
        mul_pos (by exact_mod_cast Nat.mul_pos hm hn) (two_zpow_pos _)
      have hproduct : p * q = (s * t).apply (m * n : ℕ) * 2 ^ (e + d) := by
        rw [hp, hq, Nat.cast_mul, sign_apply_mul, zpow_add₀ (by norm_num)]
        push_cast
        ring
      rw [hproduct] at h ⊢
      obtain ⟨c, f, hc, hpacked, hvalue⟩ := h.of_sign.exists_canonical hpos
      have hle := hcanonical.add_exponents_le hcanonical' hm hn hc hpacked hvalue
      change Stands (roundWithAccuracy .binary64 (s * t) (m * n) (e + d) .exact) _
      rw [roundWithAccuracy_eq hc hpacked hle hvalue]
      exact .finite hc hpacked (sign_apply_congr _ hvalue)

end Operations

namespace Number

/-- The rational number that a finite number stands for. -/
def value (x : Float) : Option ℚ :=
  (Exact.ofFloat x).value

variable {x y : Float} {p q : ℚ} (hx : value x = some p) (hy : value y = some q)
include hx

/-- The opposite of a number is exact. -/
theorem value_neg : value (-x) = some (-p) :=
  (stands_unpack hx).neg.value_pack

include hy

/-- A sum is exact when it is a number of the format. -/
theorem value_add (h : IsDouble (p + q)) : value (x + y) = some (p + q) :=
  ((stands_unpack hx).add (stands_unpack hy) h).value_pack

/-- A difference is exact when it is a number of the format. -/
theorem value_sub (h : IsDouble (p - q)) : value (x - y) = some (p - q) :=
  ((stands_unpack hx).sub (stands_unpack hy) h).value_pack

/-- A product is exact when it is a number of the format. -/
theorem value_mul (h : IsDouble (p * q)) : value (x * y) = some (p * q) :=
  ((stands_unpack hx).mul (stands_unpack hy) h).value_pack

omit hx hy

/-- Integers below `2 ^ 53` are converted as words. -/
theorem value_toFloat {n : ℕ} (h : n < 2 ^ 53) : value n.toUInt64.toFloat = some (n : ℚ) := by
  have hword : n.toUInt64.toNat = n := by
    rw [Nat.toUInt64_eq, UInt64.toNat_ofNat']
    omega
  have hvalue : (((n.toUInt64.toNat : ℕ) : ℤ) : ℚ) * 2 ^ (0 : ℤ) = n := by
    rw [hword, zpow_zero, mul_one, Int.cast_natCast]
  have hdouble : IsDouble n := isDouble_of_natAbs_lt (n := n) h
  exact (stands_normalize .positive (hvalue ▸ hdouble)).value_pack.trans (congrArg some hvalue)

/-- An integer is scaled up and down again when it is converted. -/
theorem shiftLeft_mul_zpow (n : ℕ) :
    ((n <<< 53 * 10 ^ 0 : ℕ) : ℚ) * 2 ^ (-53 + 0 : ℤ) = n := by
  simpa only [Nat.shiftLeft_eq, pow_zero, mul_one, Nat.cast_mul, Nat.cast_pow, Nat.cast_ofNat,
    zero_sub, add_zero, zpow_zero] using mul_two_pow_zpow n 53 0

/-- Greater integers are converted as products with powers of ten. -/
theorem ofScientific_eq {n : ℕ} (hn : n ≠ 0) : UnpackedFloat.ofScientific .binary64 n 0 =
    roundWithAccuracy .binary64 .positive (n <<< 53 * 10 ^ 0) (-53 + 0) .exact := by
  have hlow : ¬(0 : ℤ) < -((2 ^ Format.binary64.exponentBits : ℤ) + n.log2) := by
    have hrange : (0 : ℤ) ≤ 2 ^ Format.binary64.exponentBits := by positivity
    omega
  rw [UnpackedFloat.ofScientific, dif_neg hn, if_neg (by decide), if_neg hlow, if_pos (le_refl _)]
  rfl

/-- A great integer of the format is converted exactly. -/
theorem value_ofScientific {n : ℕ} (hn : 0 < n) (h : IsDouble n) :
    value (.ofModel (.ofScientific n 0)) = some (n : ℚ) := by
  have hpos : (0 : ℚ) < n := by exact_mod_cast hn
  obtain ⟨c, f, hc, hcanonical, hvalue⟩ := h.exists_canonical hpos
  have hle : -53 + 0 ≤ f := by
    have hplace := log2_add_exponent (e := 0) hn hc (by simpa using hvalue)
    have htarget := hcanonical.eq_target
    omega
  have hround := roundWithAccuracy_eq (s := .positive) hc hcanonical hle
    ((shiftLeft_mul_zpow n).trans hvalue)
  have hstands : Stands (UnpackedFloat.ofScientific .binary64 n 0) n := by
    rw [ofScientific_eq hn.ne', hround]
    exact .finite hc hcanonical hvalue
  exact hstands.value_pack

/-- A natural number of the format is converted exactly. -/
theorem value_ofNat {n : ℕ} (h : IsDouble n) : value (Float.ofNat n) = some (n : ℚ) := by
  change value (Float.ofScientific n false 0) = _
  rw [Float.ofScientific]
  split
  · next hsmall =>
    have hone : value Float.exactlyRepresentablePowersOfTen[0] = some 1 := by
      have hexact : Exact.ofFloat Float.exactlyRepresentablePowersOfTen[0] =
          .finite false (2 ^ 52) (-52) := by rfl
      rw [value, hexact]
      norm_num [Exact.value, Exact.signed]
    simpa using value_mul (value_toFloat hsmall.1) hone (by simpa using h)
  · next hlarge => exact value_ofScientific (by omega) h

/-- An integer of the format is converted exactly. -/
theorem value_ofInt {n : ℤ} (h : IsDouble n) : value (Float.ofInt n) = some (n : ℚ) := by
  cases n with
  | ofNat n => exact value_ofNat h
  | negSucc n =>
    have hneg : IsDouble ((n.succ : ℕ) : ℚ) := by
      have := h.neg
      rw [Int.cast_negSucc, neg_neg] at this
      exact this
    rw [Int.cast_negSucc]
    exact value_neg (value_ofNat hneg)

end Number

/-! ### Integers and words -/

/-- A sign stays outside of a product. -/
theorem Exact.signed_mul (negative : Bool) (m : ℕ) (k : ℕ) :
    signed negative (m * k) = signed negative m * k := by
  cases negative <;> simp [signed]

/-- The integer that is read off a number is the number. -/
theorem Exact.integer?_eq_some_iff {x : Exact} {n : ℤ} :
    x.integer? = some n ↔ x.value = some (n : ℚ) := by
  cases x with
  | nan | infinite => simp [integer?, value]
  | finite negative m e =>
    rw [value, Option.some_inj]
    rcases le_or_gt 0 e with he | he
    · obtain ⟨k, rfl⟩ := Int.eq_ofNat_of_zero_le he
      rw [integer?_of_nonneg he, Option.some_inj, Int.toNat_natCast, signed_mul, twoPow,
        zpow_natCast]
      exact_mod_cast Iff.rfl
    · obtain ⟨k, rfl⟩ : ∃ k : ℕ, e = -k := ⟨e.natAbs, by omega⟩
      have hscale : (signed negative m : ℚ) * 2 ^ (-(k : ℤ)) = n ↔
          signed negative m = n * (2 ^ k : ℕ) := by
        rw [zpow_neg, zpow_natCast, mul_inv_eq_iff_eq_mul₀ (by positivity)]
        exact_mod_cast Iff.rfl
      have hpos : ((2 ^ k : ℕ) : ℤ) ≠ 0 := by positivity
      rw [hscale, integer?, wholePart, Int.neg_neg, Int.toNat_natCast]
      simp only [he.not_ge, false_or, if_false, twoPow, Nat.pow_eq]
      by_cases hmod : m % 2 ^ k = 0
      · obtain ⟨c, rfl⟩ := Nat.dvd_of_mod_eq_zero hmod
        rw [if_pos hmod, Nat.mul_div_cancel_left _ (Nat.two_pow_pos k), Nat.mul_comm, signed_mul,
          Option.some_inj]
        exact (mul_left_inj' hpos).symm
      · rw [if_neg hmod]
        refine iff_of_false (Option.some_ne_none n).symm fun hn => hmod (Nat.mod_eq_zero_of_dvd ?_)
        have hdvd : ((2 ^ k : ℕ) : ℤ) ∣ signed negative m := Dvd.intro_left n hn.symm
        cases negative with
        | false => exact Int.natCast_dvd_natCast.mp hdvd
        | true => exact Int.natCast_dvd_natCast.mp ((Int.dvd_neg).mp hdvd)

namespace Number

/-- An integer that fits a word is held by it. -/
theorem toInt_ofInt {n : ℤ} (h : n.natAbs < wordEnd) : (Int64.ofInt n).toInt = n := by
  refine Int64.toInt_ofInt_of_le ?_ ?_ <;> simp [wordEnd] at h ⊢ <;> omega

/-- A number is a word exactly when it stands for an integer whose magnitude is below `2 ^ 63`. -/
theorem toWord?_eq_some_iff {x : Float} {w : Int64} :
    toWord? x = some w ↔ value x = some (w.toInt : ℚ) ∧ w.toInt.natAbs < wordEnd := by
  rw [value, ← Exact.integer?_eq_some_iff, toWord?]
  cases (Exact.ofFloat x).integer? with
  | none => simp
  | some n =>
    dsimp only
    split
    · next hn =>
      constructor
      · rintro ⟨⟩
        rw [toInt_ofInt hn]
        exact ⟨rfl, hn⟩
      · rintro ⟨⟨⟩, -⟩
        rw [Int64.ofInt_toInt]
    · next hn =>
      refine iff_of_false nofun ?_
      rintro ⟨⟨⟩, hw⟩
      exact hn hw

end Number

end Stencil
