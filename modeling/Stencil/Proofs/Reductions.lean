import Mathlib.Algebra.BigOperators.Ring.List
import Stencil.Builtin.Arithmetic
import Stencil.Proofs.Doubles

/-!
# Sums, differences and products of integers

Integers are added, taken away and multiplied operand by operand in words, and when a step does not
fit a word, everything is computed once more in floating point and turned into a word again. Whether
the result is the exact one thus depends on the results on the way, and on their order: one more
than the greatest word and then one less gives a number that is no word, although the exact result
is one.

The exact result is returned as long as all results on the way fit words. Beyond that it is returned
exactly when the computation in floating point arrives at it, as it does when the operands and all
results on the way have at most fifty-three binary digits.

## Main results

* `foldWords_eq_some_iff`: a fold of words is exact, and it gives a word when every result on the
  way fits one.
* `value_foldl`: so is a fold of floating-point numbers, when every result on the way is one.
* `Reduction.apply_eq_int_iff`: when sums, differences and products of integers are exact, and in
  which orders of the operands.
-/

namespace Stencil.Builtin

/-! ### Folds of words -/

/-- Whether an integer is a word. -/
def Fits (n : ℤ) : Prop :=
  -Number.wordEnd ≤ n ∧ n < Number.wordEnd

instance (n : ℤ) : Decidable (Fits n) :=
  inferInstanceAs (Decidable (_ ∧ _))

/-- A word holds an integer that fits in a word. -/
theorem fits_toInt (w : Int64) : Fits w.toInt :=
  ⟨w.le_toInt, w.toInt_lt⟩

/-- An integer becomes a word exactly if it fits in one. -/
theorem narrow?_eq_some_iff {n : ℤ} {w : Int64} :
    Number.narrow? n = some w ↔ Fits n ∧ w.toInt = n := by
  rw [Number.narrow?]
  split
  · next h =>
    have hword : (Int64.ofInt n).toInt = n := Int64.toInt_ofInt_of_le h.1 h.2
    constructor
    · rintro ⟨⟩
      exact ⟨h, hword⟩
    · rintro ⟨-, rfl⟩
      rw [Int64.ofInt_toInt]
  · next h => exact iff_of_false nofun fun hn => h hn.1

/-- All beginnings of a longer list are the empty one and the longer ones. -/
theorem forall_prefix_cons {α : Type} {P : List α → Prop} {a : α} {l : List α} :
    (∀ t, t <+: a :: l → P t) ↔ P [] ∧ ∀ t, t <+: l → P (a :: t) := by
  simp only [List.prefix_cons_iff, or_imp, forall_and, forall_eq]
  refine and_congr_right fun _ => ⟨fun h t ht => h _ ⟨t, rfl, ht⟩, ?_⟩
  rintro h _ ⟨t, rfl, ht⟩
  exact h t ht

/-- A fold of words is exact, and it gives a word when every result on the way fits one. -/
theorem foldWords_eq_some_iff {op : ℤ → ℤ → ℤ} {start w : Int64} {ns : List Int64} :
    foldWords op start ns = some w ↔
      (∀ l, l <+: ns.map Int64.toInt → Fits (l.foldl op start.toInt)) ∧
        w.toInt = (ns.map Int64.toInt).foldl op start.toInt := by
  induction ns generalizing start with
  | nil =>
    simp only [foldWords_nil, Option.some_inj, List.map_nil, List.prefix_nil, forall_eq,
      List.foldl_nil, fits_toInt, true_and]
    exact ⟨fun h => h ▸ rfl, fun h => (Int64.toInt_inj.mp h).symm⟩
  | cons n ns ih =>
    have hstep : foldWords op start (n :: ns) = some w ↔
        ∃ v, Number.narrow? (op start.toInt n.toInt) = some v ∧ foldWords op v ns = some w := by
      rw [foldWords, List.foldlM_cons]
      exact Option.bind_eq_some_iff
    rw [hstep, List.map_cons, forall_prefix_cons]
    simp only [List.foldl_nil, List.foldl_cons, fits_toInt, true_and]
    constructor
    · rintro ⟨v, hv, hfold⟩
      obtain ⟨-, hv⟩ := narrow?_eq_some_iff.mp hv
      exact hv ▸ ih.mp hfold
    · rintro ⟨hfits, hw⟩
      have hv : Fits (op start.toInt n.toInt) := hfits [] (List.nil_prefix)
      have hword : (Int64.ofInt (op start.toInt n.toInt)).toInt = op start.toInt n.toInt :=
        Int64.toInt_ofInt_of_le hv.1 hv.2
      exact ⟨_, narrow?_eq_some_iff.mpr ⟨hv, hword⟩, ih.mpr ⟨hword.symm ▸ hfits, hword.symm ▸ hw⟩⟩

/-! ### Folds of floating-point numbers -/

/-- A fold of floating-point numbers is exact when every result on the way is such a number. -/
theorem value_foldl {op : ℤ → ℤ → ℤ} {float : Float → Float → Float}
    (hop : ∀ {x y : Float} {m n : ℤ}, Number.value x = some (m : ℚ) →
      Number.value y = some (n : ℚ) → IsDouble (op m n : ℤ) →
      Number.value (float x y) = some ((op m n : ℤ) : ℚ))
    {start : Float} {m : ℤ} (hstart : Number.value start = some (m : ℚ)) (ns : List Int64)
    (hns : ∀ n ∈ ns, IsDouble n.toInt)
    (hway : ∀ l, l <+: ns.map Int64.toInt → IsDouble (l.foldl op m : ℤ)) :
    Number.value ((ns.map Number.ofWord).foldl float start) =
      some (((ns.map Int64.toInt).foldl op m : ℤ) : ℚ) := by
  induction ns generalizing start m with
  | nil => exact hstart
  | cons n ns ih =>
    obtain ⟨hn, hns⟩ := List.forall_mem_cons.mp hns
    rw [List.map_cons, forall_prefix_cons] at hway
    simp only [List.map_cons, List.foldl_cons]
    exact ih (hop hstart (Number.value_ofInt hn) (hway.2 [] List.nil_prefix)) hns hway.2

/-- Operands that are integers are taken as the doubles of their words. -/
theorem numbers_eq {args : Arguments} {ns : List Int64} (hargs : args.positional = ns.map .int) :
    numbers args = ns.map Number.ofWord := by
  rw [numbers, hargs, List.map_map]
  rfl

/-! ### Reductions -/

/-- The ways in which a list of integers is reduced to one. -/
inductive Reduction where
  | sum
  /-- The negation of a single operand; otherwise the first operand less the others. -/
  | difference
  | product

namespace Reduction

/-- The helper that reduces its operands. -/
def apply : Reduction → Arguments → Value
  | .sum => add
  | .difference => subtract
  | .product => multiply

/-- The exact result. -/
def total : Reduction → List ℤ → ℤ
  | .sum, ns => ns.sum
  | .difference, [] => 0
  | .difference, [n] => -n
  | .difference, n :: ns => n - ns.sum
  | .product, ns => ns.prod

/-- The exact results on the way, from operand to operand, with the last one. -/
def partials : Reduction → List ℤ → List ℤ
  | .sum, ns => ns.inits.map List.sum
  | .difference, [] => [0]
  | .difference, [n] => [-n]
  | .difference, n :: ns => ns.inits.map (n - ·.sum)
  | .product, ns => ns.inits.map List.prod

/-- The result in words, if there is one. -/
def words : Reduction → List Int64 → Option Int64
  | .sum => foldWords (· + ·) 0
  | .difference => subtractWords
  | .product => foldWords (· * ·) 1

/-- The result in floating point. -/
def doubles : Reduction → List Float → Float
  | .sum => List.foldl (· + ·) 0
  | .difference => subtractNumbers
  | .product => List.foldl (· * ·) 1

variable (kind : Reduction)

/-- A reduction of integers is made in words, or else in floating point. -/
theorem apply_eq {args : Arguments} {ns : List Int64} (h : args.positional = ns.map .int) :
    kind.apply args = wordsOr (kind.words ns) (kind.doubles (ns.map Number.ofWord)) := by
  have hwords : words? args = some ns := by
    rw [words?, h]
    clear h
    induction ns with
    | nil => rfl
    | cons n ns ih =>
      rw [List.map_cons, List.mapM_cons, ih]
      rfl
  cases kind <;>
    simp only [apply, add, subtract, multiply, hwords, numbers_eq h, Option.bind_some] <;> rfl

/-- Subtracting one after the other subtracts the sum. -/
theorem foldl_sub (n : ℤ) (ns : List ℤ) : ns.foldl (· - ·) n = n - ns.sum := by
  induction ns generalizing n with
  | nil => simp
  | cons m ns ih => rw [List.foldl_cons, ih, List.sum_cons]; omega

/-- In words the exact result is reached when all results on the way fit words. -/
theorem words_eq_some_iff {ns : List Int64} {w : Int64} :
    kind.words ns = some w ↔
      (∀ p ∈ kind.partials (ns.map Int64.toInt), Fits p) ∧
        w.toInt = kind.total (ns.map Int64.toInt) := by
  cases kind with
  | sum =>
    simp only [words, foldWords_eq_some_iff, partials, total, List.forall_mem_map, List.mem_inits,
      List.sum_eq_foldl]
    rfl
  | product =>
    simp only [words, foldWords_eq_some_iff, partials, total, List.forall_mem_map, List.mem_inits,
      List.prod_eq_foldl]
    rfl
  | difference =>
    match ns with
    | [] =>
      simp only [words, subtractWords, Option.some_inj, partials, total, List.map_nil,
        List.forall_mem_singleton]
      rw [← Int64.toInt_inj]
      exact ⟨fun h => ⟨by decide, h.symm⟩, fun h => h.2.symm⟩
    | [n] =>
      simp only [words, subtractWords, narrow?_eq_some_iff, partials, total, List.map_cons,
        List.map_nil, List.forall_mem_singleton]
    | n :: m :: ns =>
      simp only [words, subtractWords, foldWords_eq_some_iff, partials, total, List.map_cons,
        List.forall_mem_map, List.mem_inits, foldl_sub]

/-- In floating point the exact result is reached when the operands and all results on the way are
floating-point numbers. -/
theorem value_doubles {ns : List Int64} (hns : ∀ n ∈ ns, IsDouble n.toInt)
    (hway : ∀ p ∈ kind.partials (ns.map Int64.toInt), IsDouble p) :
    Number.value (kind.doubles (ns.map Number.ofWord)) =
      some (kind.total (ns.map Int64.toInt) : ℚ) := by
  cases kind with
  | sum =>
    simp only [partials, List.forall_mem_map, List.mem_inits, List.sum_eq_foldl] at hway
    simp only [total, List.sum_eq_foldl, doubles]
    refine value_foldl ?_ ?_ ns hns hway
    · intro x y m n hx hy h
      push_cast at h ⊢
      exact Number.value_add hx hy h
    · exact Number.value_ofInt (n := 0) (isDouble_of_natAbs_lt (by decide))
  | product =>
    simp only [partials, List.forall_mem_map, List.mem_inits, List.prod_eq_foldl] at hway
    simp only [total, List.prod_eq_foldl, doubles]
    refine value_foldl ?_ ?_ ns hns hway
    · intro x y m n hx hy h
      push_cast at h ⊢
      exact Number.value_mul hx hy h
    · exact Number.value_ofInt (n := 1) (isDouble_of_natAbs_lt (by decide))
  | difference =>
    match ns with
    | [] => exact Number.value_ofInt (n := 0) (isDouble_of_natAbs_lt (by decide))
    | [n] =>
      have hn := Number.value_neg (Number.value_ofInt (hns n (List.mem_singleton_self n)))
      rw [← Int.cast_neg] at hn
      exact hn
    | n :: m :: ns =>
      obtain ⟨hn, hns⟩ := List.forall_mem_cons.mp hns
      simp only [partials, List.map_cons, List.forall_mem_map, List.mem_inits,
        ← foldl_sub] at hway
      simp only [total, List.map_cons, ← foldl_sub, doubles, subtractNumbers]
      refine value_foldl ?_ (Number.value_ofInt hn) (m :: ns) hns hway
      intro x y m n hx hy h
      push_cast at h ⊢
      exact Number.value_sub hx hy h

/-! ### Orders of the operands -/

/-- Operands whose results on the way do not exceed the exact one, in whatever order they come:
summands of one sign, and factors that are not zero, with a product that is not the least word. -/
def Steady : Reduction → List ℤ → Prop
  | .sum, ns => (∀ n ∈ ns, 0 ≤ n) ∨ ∀ n ∈ ns, n ≤ 0
  | .difference, _ => False
  | .product, ns => (∀ n ∈ ns, n ≠ 0) ∧ ns.prod ≠ -Number.wordEnd

variable {kind}

/-- Steady operands stay so in another order. -/
theorem Steady.perm {ns ms : List ℤ} (h : kind.Steady ns) (hperm : ns.Perm ms) :
    kind.Steady ms := by
  cases kind with
  | sum =>
    refine h.imp (fun h n hn => h n (hperm.mem_iff.mpr hn)) fun h n hn => h n (hperm.mem_iff.mpr hn)
  | product => exact ⟨fun n hn => h.1 n (hperm.mem_iff.mpr hn), hperm.prod_eq ▸ h.2⟩
  | difference => exact h.elim

/-- The order does not matter for a sum or a product. -/
theorem total_perm (h : kind ≠ .difference) {ns ms : List ℤ} (hperm : ns.Perm ms) :
    kind.total ns = kind.total ms := by
  cases kind with
  | sum => exact hperm.sum_eq
  | product => exact hperm.prod_eq
  | difference => exact absurd rfl h

/-- The results on the way of steady operands fit words when the exact result does. -/
theorem Steady.fits {ns : List ℤ} (h : kind.Steady ns) (htotal : Fits (kind.total ns)) :
    ∀ p ∈ kind.partials ns, Fits p := by
  cases kind with
  | sum =>
    simp only [partials, List.forall_mem_map, List.mem_inits]
    rintro l ⟨r, rfl⟩
    rw [total, List.sum_append, Fits] at htotal
    rw [Fits]
    rcases h with h | h
    · have hl := List.sum_nonneg fun n hn => h n (List.mem_append_left r hn)
      have hr := List.sum_nonneg fun n hn => h n (List.mem_append_right l hn)
      omega
    · have hl := List.sum_le_card_nsmul l 0 fun n hn => h n (List.mem_append_left r hn)
      have hr := List.sum_le_card_nsmul r 0 fun n hn => h n (List.mem_append_right l hn)
      rw [nsmul_zero] at hl hr
      omega
  | product =>
    simp only [partials, List.forall_mem_map, List.mem_inits]
    rintro l ⟨r, rfl⟩
    obtain ⟨hzero, hleast⟩ := h
    have hpos : 0 < (l ++ r).prod.natAbs :=
      Int.natAbs_pos.mpr (List.prod_ne_zero fun hmem => hzero 0 hmem rfl)
    have hle : l.prod.natAbs ≤ (l ++ r).prod.natAbs := by
      refine Nat.le_of_dvd hpos (Int.natAbs_dvd_natAbs.mpr ?_)
      rw [List.prod_append]
      exact Int.dvd_mul_right _ _
    rw [total, Fits] at htotal
    rw [Fits]
    omega
  | difference => exact h.elim

/-- In words the exact result is returned. -/
theorem apply_of_fits {args : Arguments} {ns : List Int64} (hargs : args.positional = ns.map .int)
    {w : Int64} (hw : w.toInt = kind.total (ns.map Int64.toInt))
    (hfits : ∀ p ∈ kind.partials (ns.map Int64.toInt), Fits p) : kind.apply args = .int w := by
  rw [kind.apply_eq hargs, kind.words_eq_some_iff.mpr ⟨hfits, hw⟩, wordsOr]

/-- Otherwise the floating-point number is, as the word it is, if it is one. -/
theorem apply_of_not_fits {args : Arguments} {ns : List Int64}
    (hargs : args.positional = ns.map .int)
    (hfits : ¬∀ p ∈ kind.partials (ns.map Int64.toInt), Fits p) :
    kind.apply args = Value.ofFloat (kind.doubles (ns.map Number.ofWord)) := by
  have hwords : kind.words ns = none :=
    Option.eq_none_iff_forall_ne_some.mpr fun w h => hfits (kind.words_eq_some_iff.mp h).1
  rw [kind.apply_eq hargs, hwords, wordsOr]

/-- A double becomes an integer exactly if it is that integer, and not the least one. -/
theorem ofFloat_eq_int_iff {x : Float} {w : Int64} :
    Value.ofFloat x = .int w ↔ Number.value x = some (w.toInt : ℚ) ∧ w ≠ Int64.minValue := by
  have hleast : w.toInt.natAbs < Number.wordEnd ↔ w ≠ Int64.minValue := by
    rw [Ne, ← Int64.toInt_inj]
    have hfits := fits_toInt w
    rw [Fits] at hfits
    change _ ↔ ¬w.toInt = -(Number.wordEnd : ℤ)
    omega
  rw [← hleast, ← Number.toWord?_eq_some_iff, Value.ofFloat]
  cases Number.toWord? x <;> simp

/-- A reduction of integers whose exact result is a word returns this word exactly when all results
on the way are words too, or else the computation in floating point arrives at it; but what is
computed in floating point is never returned as the least word. It arrives at the exact result when
the operands and all results on the way are floating-point numbers. So sums and products are the
same in all orders in which the results on the way are words, and in all orders at all when the
operands are steady. -/
theorem apply_eq_int_iff (kind : Reduction) {args : Arguments} {ns : List Int64}
    (hargs : args.positional = ns.map .int) {w : Int64}
    (hw : w.toInt = kind.total (ns.map Int64.toInt)) :
    (kind.apply args = .int w ↔
        (∀ p ∈ kind.partials (ns.map Int64.toInt), Fits p) ∨
          Number.value (kind.doubles (ns.map Number.ofWord)) = some (w.toInt : ℚ) ∧
            w ≠ Int64.minValue) ∧
      ((∀ n ∈ ns, IsDouble n.toInt) → (∀ p ∈ kind.partials (ns.map Int64.toInt), IsDouble p) →
        Number.value (kind.doubles (ns.map Number.ofWord)) = some (w.toInt : ℚ)) ∧
      ∀ {args' : Arguments} {ms : List Int64}, args'.positional = ms.map .int → ns.Perm ms →
        kind ≠ .difference →
        (kind.Steady (ns.map Int64.toInt) ∨
          ∀ p ∈ kind.partials (ms.map Int64.toInt), Fits p) →
        kind.apply args' = .int w := by
  refine ⟨?_, fun hns hway => hw ▸ kind.value_doubles hns hway, ?_⟩
  · by_cases hfits : ∀ p ∈ kind.partials (ns.map Int64.toInt), Fits p
    · exact iff_of_true (apply_of_fits hargs hw hfits) (.inl hfits)
    · rw [apply_of_not_fits hargs hfits, ofFloat_eq_int_iff]
      exact (or_iff_right hfits).symm
  · intro args' ms hargs' hperm hkind hsteady
    have hperm := hperm.map Int64.toInt
    have hw' : w.toInt = kind.total (ms.map Int64.toInt) := hw.trans (total_perm hkind hperm)
    refine apply_of_fits hargs' hw' (hsteady.elim (fun h => ?_) id)
    exact (h.perm hperm).fits (hw' ▸ fits_toInt w)

/-- A result on the way is one more than the greatest word, and a floating-point number. -/
theorem apply_eq_int_iff_exact :
    let ns : List Int64 := [4611686018427387904, 4611686018427387904, -4611686018427387904]
    let args : Arguments := { positional := ns.map .int }
    (4611686018427387904 : Int64).toInt = Reduction.sum.total (ns.map Int64.toInt) ∧
      (¬∀ p ∈ Reduction.sum.partials (ns.map Int64.toInt), Fits p) ∧
      add args = .int 4611686018427387904 := by
  intro ns args
  have hargs : args.positional = ns.map .int := rfl
  have hw : (4611686018427387904 : Int64).toInt = Reduction.sum.total (ns.map Int64.toInt) := rfl
  have hdouble : ∀ m n : ℤ, n = m * 2 ^ 62 → m.natAbs < 2 ^ 53 → IsDouble n := fun m n hn hm =>
    ⟨m, 62, hm, by decide, by decide, by rw [hn]; norm_num⟩
  have hns : ∀ n ∈ ns, IsDouble n.toInt := by
    simp only [ns, List.forall_mem_cons]
    exact ⟨hdouble 1 _ (by decide) (by decide), hdouble 1 _ (by decide) (by decide),
      hdouble (-1) _ (by decide) (by decide), nofun⟩
  have hpartials : Reduction.sum.partials (ns.map Int64.toInt) =
      [0, 4611686018427387904, 9223372036854775808, 4611686018427387904] := by decide
  have hway : ∀ p ∈ Reduction.sum.partials (ns.map Int64.toInt), IsDouble p := by
    rw [hpartials]
    simp only [List.forall_mem_cons]
    exact ⟨hdouble 0 _ (by decide) (by decide), hdouble 1 _ (by decide) (by decide),
      hdouble 2 _ (by decide) (by decide), hdouble 1 _ (by decide) (by decide), nofun⟩
  obtain ⟨hexact, hdoubles, -⟩ := apply_eq_int_iff .sum hargs hw
  exact ⟨hw, by decide, hexact.mpr (.inr ⟨hdoubles hns hway, by decide⟩)⟩

/-- One more than the greatest word is on the way in one order, and not in the other. -/
theorem apply_max_add_one_sub_one :
    let ns : List Int64 := [Int64.maxValue, 1, -1]
    Reduction.sum.total (ns.map Int64.toInt) = Int64.maxValue.toInt ∧
      add { positional := ns.map .int } = .float (Float.ofBits 0x43e0000000000000) ∧
      add { positional := ns.reverse.map .int } = .int Int64.maxValue :=
  ⟨rfl, rfl, rfl⟩

end Reduction

end Stencil.Builtin
