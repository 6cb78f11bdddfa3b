import Stencil.Proofs.Reductions
import Stencil.Proofs.Rounding

/-!
# Integers that are coerced

Orders, extremes and remainders are those of the floating-point numbers that the operands are
coerced to, also when all operands are integers. So they are those of the integers that the
operands are rounded to. Since rounding is monotone, it can only make integers equal that are not:
an order is never reversed, and the least of some integers is rounded to the least number. Equality
does not coerce integers, and tells all of them apart.

## Main results

* `Exact.value_toFloat`: a number is made from its parts.
* `Number.value_remainder`: the remainder of two integers is exact.
* `exists_foldl_moreExtreme`: a fold keeps the number of the most extreme operand.
* `coerced_words`: what orders, extremes and remainders of integers are.
-/

namespace Stencil

open Float.Model Float.Model.UnpackedFloat

/-! ### Numbers from their parts -/

/-- The digits of a number, lined up with the highest place of the fraction. -/
theorem log2_lead {m : ℕ} (hm : m ≠ 0) (h : m < 2 ^ 53) :
    m.log2 ≤ 52 ∧ 2 ^ 52 ≤ m * 2 ^ (52 - m.log2) ∧ m * 2 ^ (52 - m.log2) < 2 ^ 53 := by
  have hlog : m.log2 ≤ 52 := Nat.le_of_lt_succ ((Nat.log2_lt hm).mpr h)
  have hpos := Nat.two_pow_pos (52 - m.log2)
  refine ⟨hlog, ?_, ?_⟩
  · calc 2 ^ 52 = 2 ^ m.log2 * 2 ^ (52 - m.log2) := by rw [← Nat.pow_add]; congr 1; omega
      _ ≤ m * 2 ^ (52 - m.log2) := Nat.mul_le_mul_right _ (Nat.log2_self_le hm)
  · calc m * 2 ^ (52 - m.log2) < 2 ^ (m.log2 + 1) * 2 ^ (52 - m.log2) :=
          Nat.mul_lt_mul_of_pos_right Nat.lt_log2_self hpos
      _ = 2 ^ 53 := by rw [← Nat.pow_add]; congr 1; omega

namespace Exact

/-- Bits are read field by field. -/
theorem ofBits_fields (negative : Bool) {field fraction : ℕ} (hfield : field < 2047)
    (hfraction : fraction < 2 ^ 52) :
    ofBits ((if negative then twoPow 63 else 0) + (field * 2 ^ 52 + fraction)) =
      if field = 0 then .finite negative fraction (-1074)
      else .finite negative (2 ^ 52 + fraction) (field - 1075) := by
  have hsign : twoPow 63 = 2 ^ 63 := rfl
  have hlead : twoPow 52 = 2 ^ 52 := rfl
  have hwidth : twoPow 11 = 2 ^ 11 := rfl
  rw [ofBits, hsign, hlead, hwidth]
  generalize hbits : (if negative = true then 2 ^ 63 else 0) + (field * 2 ^ 52 + fraction) = bits
  have hfraction' : bits % 2 ^ 52 = fraction := by cases negative <;> simp at hbits <;> omega
  have hfield' : bits / 2 ^ 52 % 2 ^ 11 = field := by cases negative <;> simp at hbits <;> omega
  have hnegative : (bits / 2 ^ 63 % 2 == 1) = negative := by
    cases negative <;> simp at hbits ⊢ <;> omega
  rw [hfraction', hfield', hnegative, if_neg hfield.ne]

/-- The bits of a magnitude are those of a number that stands for it. -/
theorem exists_magnitudeBits {m : ℕ} {e : ℤ} (hm : m < 2 ^ 53) (hlow : -1074 ≤ e)
    (hhigh : e ≤ 971) : ∃ field fraction : ℕ, field < 2047 ∧ fraction < 2 ^ 52 ∧
      magnitudeBits m e = field * 2 ^ 52 + fraction ∧
        (m : ℚ) * 2 ^ e = if field = 0 then (fraction : ℚ) * 2 ^ (-1074 : ℤ)
          else ((2 ^ 52 + fraction : ℕ) : ℚ) * 2 ^ (field - 1075 : ℤ) := by
  rcases eq_or_ne m 0 with rfl | hm0
  · exact ⟨0, 0, by decide, by decide, rfl, by simp⟩
  obtain ⟨hlog, hleast, hgreatest⟩ := log2_lead hm0 hm
  rw [magnitudeBits, if_neg hm0]
  dsimp only
  split
  · next hsmall =>
    obtain ⟨k, rfl⟩ : ∃ k : ℕ, e = k - 1074 := ⟨(e + 1074).toNat, by omega⟩
    refine ⟨0, m * 2 ^ k, by decide, ?_, ?_, ?_⟩
    · calc m * 2 ^ k < 2 ^ (m.log2 + 1) * 2 ^ k :=
            Nat.mul_lt_mul_of_pos_right Nat.lt_log2_self (Nat.two_pow_pos k)
        _ = 2 ^ (m.log2 + 1 + k) := (Nat.pow_add ..).symm
        _ ≤ 2 ^ 52 := Nat.pow_le_pow_right (by decide) (by omega)
    · rw [sub_add_cancel, Int.toNat_natCast, Nat.zero_mul, Nat.zero_add]
      rfl
    · rw [if_pos rfl, Nat.cast_mul, Nat.cast_pow, Nat.cast_ofNat, ← mul_two_zpow_add,
        neg_add_eq_sub]
  · next hnormal =>
    refine ⟨(m.log2 + e + 1023).toNat, m * 2 ^ (52 - m.log2) - 2 ^ 52, by omega, by omega, ?_, ?_⟩
    · have hlead : twoPow 52 = 2 ^ 52 := rfl
      rw [hlead, twoPow, Nat.pow_eq]
      omega
    · have hdigits : 2 ^ 52 + (m * 2 ^ (52 - m.log2) - 2 ^ 52) = m * 2 ^ (52 - m.log2) := by omega
      have hplace : (((m.log2 + e + 1023).toNat : ℤ) - 1075) = e - (52 - m.log2 : ℕ) := by omega
      rw [if_neg (by omega), hdigits, hplace, Nat.cast_mul, Nat.cast_pow, Nat.cast_ofNat,
        mul_two_pow_zpow]

/-- The value of a finite double. -/
theorem value_finite (negative : Bool) (m : ℕ) (e : ℤ) :
    (finite negative m e).value =
      some (if negative then -((m : ℚ) * 2 ^ e) else (m : ℚ) * 2 ^ e) := by
  cases negative <;> simp [value, signed]

/-- The number that is made from a sign, a mantissa and an exponent stands for them. -/
theorem value_toFloat (negative : Bool) {m : ℕ} {e : ℤ} (hm : m < 2 ^ 53) (hlow : -1074 ≤ e)
    (hhigh : e ≤ 971) :
    Number.value (Exact.finite negative m e).toFloat = some ((signed negative m : ℚ) * 2 ^ e) := by
  obtain ⟨field, fraction, hfield, hfraction, hbits, hvalue⟩ := exists_magnitudeBits hm hlow hhigh
  have hread := ofBits_fields negative hfield hfraction
  rw [← hbits] at hread
  have hword : (toBits (.finite negative m e)).toUInt64.toNat = toBits (.finite negative m e) := by
    have hsign : twoPow 63 = 2 ^ 63 := rfl
    rw [Nat.toUInt64_eq, UInt64.toNat_ofNat', toBits, hbits, hsign]
    split <;> omega
  refine (stands_unpack_bits ?_).value_pack
  change (ofBits (toBits (.finite negative m e)).toUInt64.toNat).value = _
  rw [hword, toBits, hread, ← value, value_finite, hvalue]
  split <;> rw [value_finite]

/-! ### Remainders -/

/-- The parts of a number that stands for an integer. -/
theorem exists_finite_of_value {x : Float} {n : ℤ} (h : Number.value x = some (n : ℚ)) :
    ∃ (negative : Bool) (m : ℕ) (e : ℤ), ofFloat x = .finite negative m e ∧ m < 2 ^ 53 ∧
      -1074 ≤ e ∧ e ≤ 971 ∧ n = signed negative n.natAbs ∧ (m : ℚ) * 2 ^ e = n.natAbs := by
  obtain ⟨negative, m, e, hparts, hm, hlow, hhigh⟩ : ∃ (negative : Bool) (m : ℕ) (e : ℤ),
      ofFloat x = .finite negative m e ∧ m < 2 ^ 53 ∧ -1074 ≤ e ∧ e ≤ 971 := by
    have hstands := stands_unpack h
    rw [ofFloat_eq]
    generalize x.toModel.unpack = parts at hstands
    cases hstands with
    | zero s => exact ⟨_, _, _, rfl, by decide, by decide, by decide⟩
    | finite hm h hq => exact ⟨_, _, _, rfl, h.lt, h.low, h.high⟩
  refine ⟨negative, m, e, hparts, hm, hlow, hhigh, ?_⟩
  have hpos : (0 : ℚ) ≤ m * 2 ^ e := mul_nonneg (Nat.cast_nonneg m) (two_zpow_pos e).le
  rw [Number.value, hparts, value_finite, Option.some_inj] at h
  cases negative
  · have hn : 0 ≤ n := by exact_mod_cast hpos.trans_eq h
    obtain ⟨k, rfl⟩ := Int.eq_ofNat_of_zero_le hn
    exact ⟨rfl, h⟩
  · have hn : 0 ≤ -n := by exact_mod_cast hpos.trans_eq (neg_eq_iff_eq_neg.mp h)
    obtain ⟨k, hk⟩ := Int.eq_ofNat_of_zero_le hn
    obtain rfl : n = -k := by omega
    rw [Int.natAbs_neg, Int.natAbs_natCast]
    refine ⟨rfl, ?_⟩
    simpa using h

/-- A remainder does not depend on the unit in which both numbers are counted. -/
theorem mod_mul_zpow {k l m n : ℕ} {e : ℤ} (hm : (k : ℚ) * 2 ^ e = m) (hn : (l : ℚ) * 2 ^ e = n) :
    ((k % l : ℕ) : ℚ) * 2 ^ e = (m % n : ℕ) := by
  have hscale := two_zpow_pos e
  rcases Nat.eq_zero_or_pos l with rfl | hl
  · obtain rfl : n = 0 := by simpa using hn.symm
    rw [Nat.mod_zero, Nat.mod_zero, hm]
  have hn0 : 0 < n := by
    have : (0 : ℚ) < n := hn ▸ mul_pos (by exact_mod_cast hl) hscale
    exact_mod_cast this
  have hcross : k * n = m * l := by
    have : (k : ℚ) * n = m * l := by rw [← hm, ← hn]; ring
    exact_mod_cast this
  have hquotient : k / l = m / n := by
    rw [← Nat.mul_div_mul_right k l hn0, hcross, Nat.mul_comm l n, Nat.mul_div_mul_right m n hl]
  have hk : ((k % l : ℕ) : ℚ) = k - l * (k / l : ℕ) := by
    rw [eq_sub_iff_add_eq]
    exact_mod_cast Nat.mod_add_div k l
  have hm' : ((m % n : ℕ) : ℚ) = m - n * (m / n : ℕ) := by
    rw [eq_sub_iff_add_eq]
    exact_mod_cast Nat.mod_add_div m n
  rw [hk, hm', hquotient, sub_mul, hm, mul_right_comm, hn]

/-- Remainders of signed numbers have the sign of the dividend. -/
theorem signed_mod (negative : Bool) (k : ℕ) (n : ℤ) :
    signed negative (k % n.natAbs) = (signed negative k).tmod n := by
  have hmod : ((k % n.natAbs : ℕ) : ℤ) = (k : ℤ).tmod n := by
    rcases Int.natAbs_eq n with h | h <;> rw [h] <;> simp [Int.tmod_eq_emod_of_nonneg]
  cases negative
  · exact hmod
  · rw [signed, if_pos rfl, hmod, signed, if_pos rfl, Int.neg_tmod]

end Exact

/-- The remainder of two integers is exact. -/
theorem Number.value_remainder {x y : Float} {m n : ℤ} (hx : value x = some (m : ℚ))
    (hy : value y = some (n : ℚ)) (hn : n ≠ 0) :
    value (remainder x y) = some ((m.tmod n : ℤ) : ℚ) := by
  obtain ⟨s, k, e, hxparts, hk, helow, hehigh, hsign, hxvalue⟩ := Exact.exists_finite_of_value hx
  obtain ⟨t, l, d, hyparts, hl, hdlow, hdhigh, -, hyvalue⟩ := Exact.exists_finite_of_value hy
  have hl0 : l ≠ 0 := by
    rintro rfl
    rw [Nat.cast_zero, zero_mul] at hyvalue
    exact hn (Int.natAbs_eq_zero.mp (by exact_mod_cast hyvalue.symm))
  obtain ⟨c, hc⟩ : ∃ c : ℤ, c = min e d := ⟨_, rfl⟩
  obtain ⟨i, hi⟩ : ∃ i : ℕ, e = c + i := ⟨(e - c).toNat, by omega⟩
  obtain ⟨j, hj⟩ : ∃ j : ℕ, d = c + j := ⟨(d - c).toNat, by omega⟩
  have hremainder : remainder x y =
      (Exact.finite s (k * 2 ^ i % (l * 2 ^ j)) c).toFloat := by
    have hi' : (e - c).toNat = i := by omega
    have hj' : (d - c).toNat = j := by omega
    rw [remainder, hxparts, hyparts, Exact.remainder, if_neg hl0, ← hc]
    dsimp only
    rw [hi', hj']
    rfl
  -- One of the two numbers is counted in its own unit, so its mantissa bounds the remainder.
  have hbound : k * 2 ^ i % (l * 2 ^ j) < 2 ^ 53 := by
    rcases (by omega : i = 0 ∨ j = 0) with rfl | rfl
    · rw [pow_zero, mul_one]
      exact (Nat.mod_le _ _).trans_lt hk
    · rw [pow_zero, mul_one]
      exact (Nat.mod_lt _ (Nat.pos_of_ne_zero hl0)).trans hl
  have hunit : ∀ (a b : ℕ), ((a * 2 ^ b : ℕ) : ℚ) * 2 ^ c = a * 2 ^ (c + b) := by
    intro a b
    rw [mul_two_zpow_add, Nat.cast_mul, Nat.cast_pow, Nat.cast_ofNat]
  have hmod : ((k * 2 ^ i % (l * 2 ^ j) : ℕ) : ℚ) * 2 ^ c = (m.natAbs % n.natAbs : ℕ) :=
    Exact.mod_mul_zpow (by rw [hunit, ← hi, hxvalue]) (by rw [hunit, ← hj, hyvalue])
  rw [hremainder, Exact.value_toFloat s hbound (by omega) (by omega), Option.some_inj]
  rw [hsign, ← Exact.signed_mod]
  cases s <;> simp only [Exact.signed, Bool.false_eq_true, if_true, if_false, Int.cast_neg,
    Int.cast_natCast, neg_mul, hmod]

namespace Builtin

/-! ### Orders -/

/-- Words are compared as what they are rounded to. -/
theorem compareNumbers_ofWord (a b : Int64) :
    Value.compareNumbers (Number.ofWord a) (Number.ofWord b) =
      some (compare (Number.rounded a) (Number.rounded b)) := by
  rw [Number.compareNumbers_eq (Number.value_ofWord a) (Number.value_ofWord b), ← cmp_eq_compare,
    Int.cast_strictMono.cmp_map_eq, cmp_eq_compare]

/-- Rounding can make integers equal, but it does not reverse their order. -/
theorem compare_rounded (a b : Int64) : compare (Number.rounded a) (Number.rounded b) =
    if Number.rounded a = Number.rounded b then .eq else compare a.toInt b.toInt := by
  split
  · next h => exact compare_eq_iff_eq.mpr h
  · next h =>
    rcases lt_trichotomy a.toInt b.toInt with hlt | heq | hgt
    · have hle := Number.rounded_mono (Int64.le_iff_toInt_le.mpr hlt.le)
      rw [compare_lt_iff_lt.mpr hlt, compare_lt_iff_lt]
      exact lt_of_le_of_ne hle h
    · exact absurd (congrArg Number.rounded (Int64.toInt_inj.mp heq)) h
    · have hle := Number.rounded_mono (Int64.le_iff_toInt_le.mpr hgt.le)
      rw [compare_gt_iff_gt.mpr hgt, compare_gt_iff_gt]
      exact lt_of_le_of_ne hle (Ne.symm h)

/-! ### Extremes -/

/-- Of two rounded words the more extreme one is the rounding of the more extreme word. -/
theorem moreExtreme_ofWord {keep : Ordering} (hkeep : keep ≠ .eq) (best w : Int64) :
    moreExtreme keep (Number.ofWord best) (Number.ofWord w) =
      Number.ofWord (if compare w.toInt best.toInt = keep then w else best) := by
  rw [moreExtreme, Number.isNaN_of_value (Number.value_ofWord best),
    Number.isNaN_of_value (Number.value_ofWord w), compareNumbers_ofWord, compare_rounded]
  simp only [Bool.or_self, Bool.false_eq_true, if_false, beq_iff_eq, Option.some_inj]
  by_cases h : Number.rounded w = Number.rounded best
  · rw [if_pos h, if_neg hkeep.symm, apply_ite Number.ofWord, Number.ofWord_eq_iff.mpr h, ite_self]
  · rw [if_neg h, apply_ite Number.ofWord]

/-- A fold keeps the number of the most extreme operand. -/
theorem exists_foldl_moreExtreme {keep : Ordering} (hkeep : keep ≠ .eq) (best : Int64)
    (ns : List Int64) : ∃ m ∈ best :: ns,
      (ns.map Number.ofWord).foldl (moreExtreme keep) (Number.ofWord best) = Number.ofWord m ∧
        ∀ n ∈ best :: ns, compare n.toInt m.toInt ≠ keep := by
  induction ns generalizing best with
  | nil =>
    refine ⟨best, List.mem_singleton_self best, rfl, ?_⟩
    rintro n hn
    rw [List.mem_singleton.mp hn, compare_eq_iff_eq.mpr rfl]
    exact hkeep.symm
  | cons w ns ih =>
    rw [List.map_cons, List.foldl_cons, moreExtreme_ofWord hkeep]
    obtain ⟨m, hm, hfold, hmost⟩ := ih (if compare w.toInt best.toInt = keep then w else best)
    obtain ⟨hbetter, hmost⟩ := List.forall_mem_cons.mp hmost
    refine ⟨m, ?_, hfold, List.forall_mem_cons.mpr ⟨?_, List.forall_mem_cons.mpr ⟨?_, hmost⟩⟩⟩
    · rcases List.mem_cons.mp hm with rfl | hm
      · split <;> simp
      · exact List.mem_cons_of_mem _ (List.mem_cons_of_mem _ hm)
    all_goals
      cases keep with
      | eq => exact absurd rfl hkeep
      | lt | gt =>
        split at hbetter <;> simp only [ne_eq, compare_lt_iff_lt, compare_gt_iff_gt] at * <;> omega

/-- The number of the most extreme operand is returned. -/
theorem exists_extreme {keep : Ordering} (hkeep : keep ≠ .eq) {args : Arguments} {ns : List Int64}
    (hargs : args.positional = ns.map .int) (hns : ns ≠ []) : ∃ m ∈ ns,
      extreme keep args = .ofFloat (Number.ofWord m) ∧
        ∀ n ∈ ns, compare n.toInt m.toInt ≠ keep := by
  obtain ⟨best, rest, rfl⟩ := List.exists_cons_of_ne_nil hns
  obtain ⟨m, hm, hfold, hmost⟩ := exists_foldl_moreExtreme hkeep best rest
  refine ⟨m, hm, ?_, hmost⟩
  rw [extreme, foldNumbers, numbers_eq hargs, List.map_cons, ← hfold]

/-- The least of some integers is their least, rounded. -/
theorem extreme_lt {args : Arguments} {ns : List Int64} (hargs : args.positional = ns.map .int)
    {m : Int64} (hm : m ∈ ns) (hleast : ∀ n ∈ ns, m ≤ n) :
    extreme .lt args = .ofFloat (Number.ofWord m) := by
  obtain ⟨m', hm', heq, hmost⟩ :=
    exists_extreme (nofun : Ordering.lt ≠ .eq) hargs (List.ne_nil_of_mem hm)
  have hle := Int64.le_iff_toInt_le.mp (hleast m' hm')
  have hge := mt compare_lt_iff_lt.mpr (hmost m hm)
  rw [heq, Int64.toInt_inj.mp (le_antisymm (not_lt.mp hge) hle)]

/-- The greatest of some integers is their greatest, rounded. -/
theorem extreme_gt {args : Arguments} {ns : List Int64} (hargs : args.positional = ns.map .int)
    {m : Int64} (hm : m ∈ ns) (hgreatest : ∀ n ∈ ns, n ≤ m) :
    extreme .gt args = .ofFloat (Number.ofWord m) := by
  obtain ⟨m', hm', heq, hmost⟩ :=
    exists_extreme (nofun : Ordering.gt ≠ .eq) hargs (List.ne_nil_of_mem hm)
  have hle := Int64.le_iff_toInt_le.mp (hgreatest m' hm')
  have hge := mt compare_gt_iff_gt.mpr (hmost m hm)
  rw [heq, Int64.toInt_inj.mp (le_antisymm hle (not_lt.mp hge))]

/-! ### Remainders -/

/-- The remainder of two words is the word of the exact remainder of what they are rounded to. -/
theorem exists_modulo {args : Arguments} {a b : Int64} (hargs : args.positional = [.int a, .int b])
    (hb : b ≠ 0) :
    ∃ r, modulo args = .int r ∧ r.toInt = (Number.rounded a).tmod (Number.rounded b) := by
  have hdivisor : Number.rounded b ≠ 0 := mt Number.rounded_eq_zero_iff.mp hb
  have hvalue := Number.value_remainder (Number.value_ofWord a) (Number.value_ofWord b) hdivisor
  have hmodulo : modulo args = .ofFloat (Number.remainder (Number.ofWord a) (Number.ofWord b)) := by
    have hargs' : args.positional = [a, b].map .int := hargs
    rw [modulo, foldNumbers, numbers_eq hargs']
    rfl
  have hbound : ((Number.rounded a).tmod (Number.rounded b)).natAbs < Number.wordEnd := by
    rw [Int.natAbs_tmod]
    exact (Nat.mod_lt _ (Int.natAbs_pos.mpr hdivisor)).trans_le (Number.natAbs_rounded_le b)
  have hword := Number.toInt_ofInt hbound
  refine ⟨_, ?_, hword⟩
  have hresult := Number.toWord?_eq_some_iff.mpr ⟨hword.symm ▸ hvalue, hword.symm ▸ hbound⟩
  rw [hmodulo, Value.ofFloat, hresult]

/-! ### Main result -/

/-- Orders, extremes and remainders of integers are those of the integers that the operands are
rounded to. Each of these is a nearest number, and the operand itself when this is a number of the
format. An order is that of the operands, except that those are equal that are rounded to the same
integer; equality tells them apart. The least and the greatest operand are returned as the numbers
that they become, and so as themselves only when they are such numbers, and not the least word.
Remainders are exact for the rounded operands. -/
theorem coerced_words :
    (∀ w : Int64, Nearest w.toInt (Number.rounded w) ∧
        (Number.rounded w = w.toInt ↔ IsDouble w.toInt)) ∧
      (∀ {args : Arguments} {a b : Int64} {rest : List Value},
        args.positional = .int a :: .int b :: rest →
          equal args = .bool (a == b) ∧
            ∀ accept, ordered accept args = .bool (accept
              (if Number.rounded a = Number.rounded b then .eq else compare a.toInt b.toInt))) ∧
      (∀ {args : Arguments} {ns : List Int64} {m : Int64}, args.positional = ns.map .int → m ∈ ns →
        ((∀ n ∈ ns, m ≤ n) → extreme .lt args = .ofFloat (Number.ofWord m)) ∧
          ((∀ n ∈ ns, n ≤ m) → extreme .gt args = .ofFloat (Number.ofWord m)) ∧
            (Value.ofFloat (Number.ofWord m) = .int m ↔
              IsDouble m.toInt ∧ m ≠ Int64.minValue)) ∧
      ∀ {args : Arguments} {a b : Int64}, args.positional = [.int a, .int b] → b ≠ 0 →
        ∃ r, modulo args = .int r ∧ r.toInt = (Number.rounded a).tmod (Number.rounded b) := by
  refine ⟨fun w => ⟨Number.nearest_rounded w, Number.rounded_eq_iff⟩, ?_, ?_, exists_modulo⟩
  · intro args a b rest hargs
    have hfirst : args.get 0 = .int a := by rw [Arguments.get, hargs]; rfl
    have hsecond : args.get 1 = .int b := by rw [Arguments.get, hargs]; rfl
    refine ⟨?_, fun accept => ?_⟩
    · rw [equal, hfirst, hsecond]
      simp only [Value.looselyEqual, Value.equal, Value.equalWithin]
    · have horder : (Value.int a).order (.int b) =
          some (compare (Number.rounded a) (Number.rounded b)) := compareNumbers_ofWord a b
      rw [ordered, hfirst, hsecond, horder, compare_rounded]
      rfl
  · intro args ns m hargs hm
    refine ⟨extreme_lt hargs hm, extreme_gt hargs hm, ?_⟩
    rw [Reduction.ofFloat_eq_int_iff, Number.value_ofWord, Option.some_inj,
      ← Number.rounded_eq_iff]
    exact and_congr_left fun _ => by exact_mod_cast Iff.rfl

/-- Two words that are rounded to one number have no order, and the remainder of the odd one is that
of the even one. The least of both is still found. -/
theorem coerced_words_neighbours :
    let ns : List Int64 := [9007199254740993, 9007199254740992]
    let args : Arguments := { positional := ns.map .int }
    let halved : Arguments := { positional := [.int 9007199254740993, .int 2] }
    equal args = .bool false ∧ ordered (· == .gt) args = .bool false ∧
      extreme .lt args = .int 9007199254740992 ∧ modulo halved = .int 0 := by
  intro ns args halved
  obtain ⟨hrounded, horder, hextreme, hmodulo⟩ := coerced_words
  have hword : (9007199254740992 : Int64).toInt = 9007199254740992 := by decide
  have heven : IsDouble ((9007199254740992 : Int64).toInt : ℚ) :=
    ⟨2 ^ 52, 1, by decide, by decide, by decide, by rw [hword]; norm_num⟩
  have hodd : Number.rounded 9007199254740993 = 9007199254740992 := by rfl
  have hargs : args.positional = [.int 9007199254740993, .int 9007199254740992] := rfl
  have hhalved : halved.positional = [.int 9007199254740993, .int 2] := rfl
  have hmem : (9007199254740992 : Int64) ∈ ns := by decide
  obtain ⟨hequal, hordered⟩ := horder hargs
  obtain ⟨hleast, -, hexact⟩ := hextreme (rfl : args.positional = ns.map .int) hmem
  obtain ⟨r, hr, hvalue⟩ := hmodulo hhalved (by decide)
  refine ⟨hequal, ?_, ?_, ?_⟩
  · rw [hordered, hodd, (hrounded _).2.mpr heven, if_pos hword.symm]
    rfl
  · have hall : ∀ n ∈ ns, (9007199254740992 : Int64) ≤ n :=
      List.forall_mem_cons.mpr ⟨by decide, List.forall_mem_cons.mpr ⟨by decide, nofun⟩⟩
    rw [hleast hall, hexact.mpr ⟨heven, by decide⟩]
  · have htwo : Number.rounded 2 = (2 : Int64).toInt := Number.rounded_of_natAbs_lt (by decide)
    rw [hodd, htwo] at hvalue
    have hzero : r = 0 := Int64.toInt_inj.mp (hvalue.trans (by decide))
    rw [hr, hzero]

/-- A word is not less than the next one when both become the same number, and it need not be the
greatest one of itself alone. -/
theorem not_ordered_lt_succ :
    (9007199254740992 : Int64) < 9007199254740993 ∧
      ordered (· == .lt) { positional := [.int 9007199254740992, .int 9007199254740993] } =
        .bool false ∧
      extreme .gt { positional := [.int 9007199254740993] } = .int 9007199254740992 :=
  ⟨by decide, rfl, rfl⟩

end Builtin

end Stencil
