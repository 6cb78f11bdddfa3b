import Mathlib.Tactic.IntervalCases
import Stencil.Proofs.Chains

/-!
# Printed parameters

The words of a tag can be printed from its parameters. A term is printed as the word that spells it,
as a text between quotes that it does not contain, or as parameters in parentheses; parameters stand
one space apart. What is printed is read as the parameters it was printed from, whatever they are
nested in. The reader tries the parameters of a block first, then a name with an equals sign, and
then a term, so a word must not be taken for the start of one of the first two. What decides this
is behind the word: no equals sign follows it, and no bar.

A tag that is printed like this has no closing braces outside of quotes, so that its end is found
where it is.

## Main results

* `Term.ofWord_integerText`: the digits of an integer spell the integer.
* `Param.Printed.param?_eq`: a printed parameter is read back.
* `Param.readAll?_printed`: a name and printed parameters are read back.
* `Token.ofText_printed`: the token of a tag with printed parameters.
-/

namespace Stencil

open Text Source

/-! ### Words -/

namespace Number

/-- The decimal digits of a number are digits. -/
theorem isDigit_of_mem_digits (n : Nat) : ∀ d ∈ Nat.toDigits 10 n, d.isDigit = true :=
  fun _ => Nat.isDigit_of_mem_toDigits (by decide) (by decide)

/-- What starts with a digit has no sign. -/
theorem signOf_of_isDigit {ds : List Char} (h : ∀ d ∈ ds, d.isDigit = true) :
    signOf ds = (false, ds) := by
  unfold signOf
  split
  · exact absurd (h '-' List.mem_cons_self) (by decide)
  · exact absurd (h '+' List.mem_cons_self) (by decide)
  · rfl

/-- The digits of a word are read as the word. -/
theorem wordOfText?_integerText (n : Int64) :
    wordOfText? (integerText n.toInt).toList = some n := by
  have hdigits := isDigit_of_mem_digits n.toInt.natAbs
  have hvalue : digitsValue (Nat.toDigits 10 n.toInt.natAbs) = n.toInt.natAbs :=
    Nat.ofDigitChars_toDigits (by decide) (by decide)
  have hsign : signOf (integerText n.toInt).toList =
      (decide (n.toInt < 0), Nat.toDigits 10 n.toInt.natAbs) := by
    rw [integerText, String.toList_ofList]
    by_cases hneg : n.toInt < 0
    · simp [hneg, signOf]
    · simp [hneg, signOf_of_isDigit hdigits]
  have hsigned : Exact.signed (decide (n.toInt < 0)) n.toInt.natAbs = n.toInt := by
    unfold Exact.signed
    split
    · next hneg =>
      have := of_decide_eq_true hneg
      omega
    · next hneg =>
      have := mt decide_eq_true hneg
      omega
  have hrange : -(wordEnd : Int) ≤ n.toInt ∧ n.toInt < wordEnd := ⟨n.le_toInt, n.toInt_lt⟩
  have hall : (Nat.toDigits 10 n.toInt.natAbs).all Char.isDigit = true :=
    List.all_eq_true.mpr hdigits
  unfold wordOfText?
  rw [hsign]
  simp only [hall, hvalue, hsigned, narrow?, if_pos hrange, Int64.ofInt_toInt]
  simp [Nat.toDigits_ne_nil]

end Number

namespace Term

/-- A text that is one word. -/
structure IsWord (cs : List Char) : Prop where
  ne_nil : cs ≠ []
  chars : ∀ c ∈ cs, isWordChar c = true

/-- Digits stand in words. -/
theorem isWordChar_of_isDigit {c : Char} (h : c.isDigit = true) : isWordChar c = true := by
  obtain ⟨hlo, hhi⟩ : 48 ≤ c.toNat ∧ c.toNat ≤ 57 := by
    simpa [Char.isDigit, UInt32.le_iff_toNat_le] using h
  rw [← Char.ofNat_toNat c]
  generalize c.toNat = n at hlo hhi
  interval_cases n <;> decide

variable {c : Char} {cs : List Char}

/-- What stands in words is no white space. -/
theorem isBlank_eq_false (h : isWordChar c = true) : isBlank c = false := by
  simp only [isWordChar, Bool.and_eq_true, Bool.not_eq_true'] at h
  exact h.1

/-- What stands in words is no gap. -/
theorem isGap_eq_false (h : isWordChar c = true) : isGap c = false := by
  by_contra hgap
  have hblank := isBlank_of_isGap (Bool.not_eq_false _ ▸ hgap)
  rw [isBlank_eq_false h] at hblank
  cases hblank

/-- A text of word characters is a word. -/
theorem IsWord.of_all (hne : cs ≠ []) (h : cs.all isWordChar = true) : IsWord cs :=
  ⟨hne, List.all_eq_true.mp h⟩

/-- A word has a first character. -/
theorem IsWord.exists_cons (h : IsWord cs) :
    ∃ c more, cs = c :: more ∧ isWordChar c = true := by
  obtain ⟨c, more, rfl⟩ := List.exists_cons_of_ne_nil h.ne_nil
  exact ⟨c, more, rfl, h.chars c List.mem_cons_self⟩

/-- Integers are written as words. -/
theorem isWord_integerText (n : Int) : IsWord (Number.integerText n).toList := by
  have hdigits : ∀ d ∈ Nat.toDigits 10 n.natAbs, isWordChar d = true := fun d hd =>
    isWordChar_of_isDigit (Number.isDigit_of_mem_digits _ d hd)
  rw [Number.integerText, String.toList_ofList]
  split
  · exact ⟨List.cons_ne_nil _ _, List.forall_mem_cons.mpr ⟨by decide, hdigits⟩⟩
  · exact ⟨Nat.toDigits_ne_nil, hdigits⟩

/-- The digits of an integer spell the integer. -/
theorem ofWord_integerText (n : Int64) :
    ofWord (Number.integerText n.toInt).toList = .literal (.int n) := by
  have hstart : startsNumber (Number.integerText n.toInt).toList = true := by
    obtain ⟨d, ds, hds⟩ := List.exists_cons_of_ne_nil
      (Nat.toDigits_ne_nil (n := n.toInt.natAbs) (b := 10))
    have hd : d.isDigit = true :=
      Number.isDigit_of_mem_digits _ d (hds ▸ List.mem_cons_self)
    rw [Number.integerText, String.toList_ofList, hds]
    split
    · exact hd
    · unfold startsNumber
      split
      · next heq =>
        obtain ⟨rfl, -⟩ := List.cons.inj heq
        cases hd
      · next heq =>
        obtain ⟨rfl, -⟩ := List.cons.inj heq
        exact hd
      · next heq => cases heq
  have hread := Number.wordOfText?_integerText n
  have hword : ∀ text : String, startsNumber text.toList = false →
      String.ofList (Number.integerText n.toInt).toList ≠ text := by
    rintro text htext rfl
    rw [String.toList_ofList, hstart] at htext
    cases htext
  unfold ofWord
  split
  · next h => exact absurd h (hword _ (by decide))
  · next h => exact absurd h (hword _ (by decide))
  · next h => exact absurd h (hword _ (by decide))
  · next h => exact absurd h (hword _ (by decide))
  · rw [if_pos hstart, hread]

end Term

/-! ### Printing -/

/-- A text that is the name of a block parameter. -/
structure Param.IsName (cs : List Char) : Prop where
  ne_nil : cs ≠ []
  chars : ∀ c ∈ cs, isNameChar c = true

mutual

/-- The text prints the term. -/
inductive Term.Printed : Term → List Char → Prop where
  | integer (n : Int64) : Term.Printed (.literal (.int n)) (Number.integerText n.toInt).toList
  | bool (b : Bool) : Term.Printed (.literal (.bool b)) (if b then "true" else "false").toList
  | null : Term.Printed (.literal .null) "null".toList
  | quoted {q : Char} (hq : q = '"' ∨ q = '\'') (text : String) (h : q ∉ text.toList) :
    Term.Printed (.literal (.string text)) (q :: (text.toList ++ [q]))
  | path (name : String) (h : Term.IsWord name.toList)
    (hpath : Term.ofWord name.toList = .path name) : Term.Printed (.path name) name.toList
  | group {param : Param} {params : List Param} {head tail : List Char}
    (hparam : Param.Printed param head) (hparams : Param.PrintedAll params tail) :
    Term.Printed (.group (param :: params)) ('(' :: (head ++ tail ++ [')']))

/-- The text prints the parameter. -/
inductive Param.Printed : Param → List Char → Prop where
  | plain {term : Term} {cs : List Char} (h : Term.Printed term cs) : Param.Printed (.plain term) cs
  | named {term : Term} {cs : List Char} (name : String) (hname : Term.IsWord name.toList)
    (h : Term.Printed term cs) : Param.Printed (.named name term) (name.toList ++ '=' :: cs)
  | block (names : List String) (h : ∀ name ∈ names, Param.IsName name.toList) :
    Param.Printed (.block names) ("as |" ++ " ".intercalate names ++ "|").toList

/-- The text prints the parameters, with a space before each of them. -/
inductive Param.PrintedAll : List Param → List Char → Prop where
  | nil : Param.PrintedAll [] []
  | cons {param : Param} {params : List Param} {cs tail : List Char} (h : Param.Printed param cs)
    (hparams : Param.PrintedAll params tail) :
    Param.PrintedAll (param :: params) (' ' :: (cs ++ tail))

end

namespace Param

open Term

variable {cs rest : List Char} {budget : Nat}

/-! ### What stands behind a word -/

/-- What is behind a word ends the word, and makes it neither the name of a named term nor the start
of the parameters of a block. -/
structure EndsWord (rest : List Char) : Prop where
  word : ∀ c ∈ rest.head?, isWordChar c = false
  equals : rest.head? ≠ some '='
  bar : (skipGap rest).head? ≠ some '|'

/-- What has a property is split off at the first character that does not have it. -/
theorem takeWhile_dropWhile_append {p : Char → Bool} (h : ∀ c ∈ cs, p c = true)
    (hrest : ∀ c ∈ rest.head?, p c = false) :
    (cs ++ rest).takeWhile p = cs ∧ (cs ++ rest).dropWhile p = rest := by
  rw [List.takeWhile_append_of_pos h, List.dropWhile_append_of_pos h]
  cases rest with
  | nil => simp
  | cons c rest => simp [hrest c rfl]

/-- A word is read up to its end. -/
theorem word?_append (h : IsWord cs) (hrest : ∀ c ∈ rest.head?, isWordChar c = false) :
    word? (cs ++ rest) = some (cs, rest) := by
  obtain ⟨htake, hdrop⟩ := takeWhile_dropWhile_append h.chars hrest
  obtain ⟨c, more, rfl⟩ := List.exists_cons_of_ne_nil h.ne_nil
  unfold word?
  rw [htake, hdrop]

/-- A word does not start the parameters of a block, unless a bar follows it. -/
theorem block?_append (h : IsWord cs) (hrest : ∀ c ∈ rest.head?, isWordChar c = false)
    (hbar : (skipGap rest).head? ≠ some '|') (budget : Nat) :
    block? budget (cs ++ rest) = none := by
  unfold block?
  split
  · next more heq =>
    split
    · next others hmore =>
      -- The word is `a`, `as`, or goes on with a character that is neither a gap nor a bar.
      match cs, h, heq with
      | [], h, _ => exact absurd rfl h.ne_nil
      | [c], _, heq =>
        obtain ⟨-, rfl⟩ := List.cons.inj heq
        cases hrest 's' rfl
      | [c, d], _, heq =>
        obtain ⟨-, heq⟩ := List.cons.inj heq
        obtain ⟨-, rfl⟩ := List.cons.inj heq
        have hrest : skipGap rest = '|' :: others := hmore
        rw [hrest] at hbar
        exact absurd rfl hbar
      | c :: d :: e :: cs, h, heq =>
        obtain ⟨-, heq⟩ := List.cons.inj heq
        obtain ⟨-, rfl⟩ := List.cons.inj heq
        have he : isWordChar e = true := h.chars e (by simp)
        have hskip : skipGap (e :: (cs ++ rest)) = e :: (cs ++ rest) :=
          List.dropWhile_cons_of_neg (by simp [isGap_eq_false he])
        obtain ⟨rfl, -⟩ := List.cons.inj (hskip.symm.trans hmore)
        cases he
    · rfl
  · rfl

/-- A word is read as the term that it is. -/
theorem term?_word (h : IsWord cs) (hrest : ∀ c ∈ rest.head?, isWordChar c = false)
    (budget : Nat) : term? (budget + 1) (cs ++ rest) = some (ofWord cs, rest) := by
  have hfirst : ∀ {c : Char} {more : List Char}, cs ++ rest = c :: more → isWordChar c = true := by
    intro c more heq
    obtain ⟨d, others, rfl, hd⟩ := h.exists_cons
    obtain ⟨rfl, -⟩ := List.cons.inj heq
    exact hd
  unfold term?
  split
  · next heq => cases hfirst heq
  · next heq => cases hfirst heq
  · next heq => cases hfirst heq
  · rw [word?_append h hrest]
    rfl

/-- A quoted text is read up to its closing quote. -/
theorem quoted?_append {q : Char} {text : List Char} (h : q ∉ text) (rest : List Char) :
    quoted? q (text ++ q :: rest) = some (.literal (.string (String.ofList text)), rest) := by
  have hall : ∀ c ∈ text, (c != q) = true := fun c hc => by
    rw [bne_iff_ne]
    rintro rfl
    exact h hc
  have hquote : ∀ c ∈ (q :: rest).head?, (c != q) = false := by simp
  obtain ⟨htake, hdrop⟩ := takeWhile_dropWhile_append hall hquote
  unfold quoted?
  rw [htake, hdrop]

/-! ### The names of a block -/

/-- A name begins neither with a gap nor with a bar. -/
theorem IsName.not_gap (h : IsName cs) : ∀ c ∈ cs.head?, isGap c = false ∧ c ≠ '|' := by
  intro c hc
  have hname := h.chars c (List.mem_of_head? hc)
  constructor
  · by_contra hgap
    simp only [isGap, Bool.not_eq_false, Bool.or_eq_true, beq_iff_eq] at hgap
    rcases hgap with ((rfl | rfl) | rfl) | rfl <;> exact absurd hname (by decide)
  · rintro rfl
    exact absurd hname (by decide)

/-- A gap before names is skipped. -/
theorem names?_gap (budget : Nat) (cs : List Char) :
    names? budget (' ' :: cs) = names? budget cs := by
  have hgap : skipGap (' ' :: cs) = skipGap cs := List.dropWhile_cons_of_pos rfl
  cases budget with
  | zero => rfl
  | succ budget => rw [names?, names?, hgap]

/-- A name before others. -/
theorem names?_cons {name : String} {names : List String} {more : List Char}
    (h : IsName name.toList) (hmore : ∀ c ∈ more.head?, isNameChar c = false)
    (hnames : names? budget more = some (names, rest)) :
    names? (budget + 1) (name.toList ++ more) = some (name :: names, rest) := by
  obtain ⟨htake, hdrop⟩ := takeWhile_dropWhile_append h.chars hmore
  obtain ⟨c, cs, hcs⟩ := List.exists_cons_of_ne_nil h.ne_nil
  obtain ⟨hgap, hbar⟩ := h.not_gap c (by rw [hcs]; rfl)
  have hskip : skipGap (name.toList ++ more) = name.toList ++ more := by
    rw [hcs]
    exact List.dropWhile_cons_of_neg (by simp [hgap])
  rw [names?, hskip]
  split
  · next heq =>
    rw [hcs] at heq
    exact absurd (List.cons.inj heq).1 hbar
  · rw [htake, hdrop, hcs, hnames]
    simp [← hcs]

/-- Names with gaps before them are read up to the bar. -/
theorem names?_flatMap {names : List String} (h : ∀ name ∈ names, IsName name.toList)
    (hbudget : (names.flatMap fun name => ' ' :: name.toList).length < budget) :
    names? budget ((names.flatMap fun name => ' ' :: name.toList) ++ '|' :: rest) =
      some (names, rest) := by
  induction names generalizing budget with
  | nil =>
    obtain ⟨budget, rfl⟩ : ∃ k, budget = k + 1 := ⟨budget - 1, by omega⟩
    rfl
  | cons name names ih =>
    obtain ⟨hname, hnames⟩ := List.forall_mem_cons.mp h
    simp only [List.flatMap_cons, List.length_append, List.length_cons] at hbudget
    obtain ⟨budget, rfl⟩ : ∃ k, budget = k + 1 := ⟨budget - 1, by omega⟩
    rw [List.flatMap_cons, List.cons_append, List.cons_append, names?_gap, List.append_assoc]
    refine names?_cons hname ?_ (ih hnames (by omega))
    cases names with
    | nil => rintro _ ⟨⟩; decide
    | cons => rintro _ ⟨⟩; decide

/-- Names are joined by blanks. -/
theorem toList_intercalate (name : String) (names : List String) :
    (" ".intercalate (name :: names)).toList =
      name.toList ++ names.flatMap fun name => ' ' :: name.toList := by
  induction names generalizing name with
  | nil => simp
  | cons next names ih =>
    rw [String.intercalate_cons_cons, String.toList_append, String.toList_append, ih]
    simp

/-- Printed block parameters are read as their names. -/
theorem block?_printed {names : List String} (h : ∀ name ∈ names, IsName name.toList)
    (hbudget : (" ".intercalate names).toList.length + 1 < budget) :
    block? budget (("as |" ++ " ".intercalate names ++ "|").toList ++ rest) =
      some (names, rest) := by
  have htext : ("as |" ++ " ".intercalate names ++ "|").toList ++ rest =
      'a' :: 's' :: ' ' :: '|' :: ((" ".intercalate names).toList ++ '|' :: rest) := by
    simp
  have hskip : skipGap (' ' :: '|' :: ((" ".intercalate names).toList ++ '|' :: rest)) =
      '|' :: ((" ".intercalate names).toList ++ '|' :: rest) := rfl
  rw [htext, block?, hskip]
  cases names with
  | nil => exact names?_flatMap h (Nat.zero_lt_of_lt hbudget)
  | cons name names =>
    have htail : ' ' :: (" ".intercalate (name :: names)).toList =
        (name :: names).flatMap fun name => ' ' :: name.toList := by
      rw [toList_intercalate]
      rfl
    have hlength := congrArg List.length htail
    rw [List.length_cons] at hlength
    show names? budget _ = _
    rw [← names?_gap, ← List.cons_append, htail]
    exact names?_flatMap h (by omega)

/-! ### Reading back -/

/-- Printed terms and parameters start with no gap, no bar and no parenthesis that closes. -/
def opens (c : Char) : Bool :=
  !isGap c && c != '|' && c != ')'

/-- What stands in words can open a parameter. -/
theorem opens_of_isWordChar {c : Char} (h : isWordChar c = true) : opens c = true := by
  have hbar : c ≠ '|' := by rintro rfl; cases h
  have hparen : c ≠ ')' := by rintro rfl; cases h
  simp [opens, isGap_eq_false h, hbar, hparen]

/-- What opens a parameter is no gap. -/
theorem skipGap_cons {c : Char} (h : opens c = true) (more : List Char) :
    skipGap (c :: more) = c :: more := by
  simp only [opens, Bool.and_eq_true, Bool.not_eq_true'] at h
  exact List.dropWhile_cons_of_neg (by simp [h])

/-- What does not start with a word starts neither the parameters of a block nor a named term. -/
theorem unnamed_of_isWordChar {c : Char} (h : isWordChar c = false) (budget : Nat)
    (more : List Char) : block? budget (c :: more) = none ∧ name? (c :: more) = none := by
  constructor
  · unfold block?
    split
    · next heq =>
      obtain ⟨rfl, -⟩ := List.cons.inj heq
      exact absurd h (by decide)
    · rfl
  · simp [name?, word?, h]

/-- Quotes do not stand in words. -/
theorem isWordChar_quote {q : Char} (hq : q = '"' ∨ q = '\'') : isWordChar q = false := by
  rcases hq with rfl | rfl <;> decide

/-- A word ends where the text does. -/
theorem EndsWord.nil : EndsWord [] :=
  ⟨by simp, by simp, by simp [skipGap]⟩

/-- A word ends before a closing parenthesis. -/
theorem EndsWord.paren (rest : List Char) : EndsWord (')' :: rest) :=
  ⟨by simp [isWordChar], by simp, by simp [skipGap, isGap]⟩

/-- A word ends before the blank that precedes a further parameter. -/
theorem EndsWord.gap {c : Char} (h : opens c = true) (rest : List Char) :
    EndsWord (' ' :: c :: rest) where
  word := by rintro _ ⟨⟩; decide
  equals := by simp
  bar := by
    have hskip : skipGap (' ' :: c :: rest) = skipGap (c :: rest) := List.dropWhile_cons_of_pos rfl
    have hbar : c ≠ '|' := by
      rintro rfl
      cases h
    rw [hskip, skipGap_cons h]
    simpa using hbar

end Param

namespace Term

open Param

variable {term : Term} {param : Param} {params : List Param} {cs rest : List Char} {budget : Nat}

/-- A term is printed as a word that spells it, as a quoted text, or in parentheses. -/
theorem Printed.cases_word (h : term.Printed cs) :
    IsWord cs ∧ ofWord cs = term ∨
      ∃ c more, cs = c :: (more ++ [if c = '(' then ')' else c]) ∧ isWordChar c = false ∧
        opens c = true ∧ isBlank (if c = '(' then ')' else c) = false := by
  cases h with
  | integer n => exact .inl ⟨isWord_integerText _, ofWord_integerText n⟩
  | bool b => cases b <;> exact .inl ⟨.of_all (by decide) (by decide), rfl⟩
  | null => exact .inl ⟨.of_all (by decide) (by decide), rfl⟩
  | quoted hq text h =>
    refine .inr ⟨_, text.toList, ?_, isWordChar_quote hq, ?_⟩
    · rcases hq with rfl | rfl <;> rfl
    · rcases hq with rfl | rfl <;> decide
  | path name h hpath => exact .inl ⟨h, hpath⟩
  | group hparam hparams => exact .inr ⟨'(', _, rfl, by decide, by decide, by decide⟩

/-- A printed term has a first character, which opens it. -/
theorem Printed.exists_cons (h : term.Printed cs) : ∃ c more, cs = c :: more ∧ opens c = true := by
  rcases h.cases_word with ⟨hword, -⟩ | ⟨c, more, rfl, -, hopens, -⟩
  · obtain ⟨c, more, rfl, hc⟩ := hword.exists_cons
    exact ⟨c, more, rfl, opens_of_isWordChar hc⟩
  · exact ⟨c, _, rfl, hopens⟩

/-- A printed term does not end in white space. -/
theorem Printed.isBlank_getLast? (h : term.Printed cs) : ∀ c ∈ cs.getLast?, isBlank c = false := by
  rcases h.cases_word with ⟨hword, -⟩ | ⟨c, more, rfl, -, -, hblank⟩
  · exact fun c hc => isBlank_eq_false (hword.chars c (List.mem_of_getLast? hc))
  · intro d hd
    rw [← List.cons_append, List.getLast?_concat] at hd
    obtain rfl := Option.some.inj hd
    exact hblank

end Term

namespace Param

open Term

variable {term : Term} {param : Param} {params : List Param} {cs rest : List Char} {budget : Nat}

/-- A printed parameter has a first character, which opens it. -/
theorem Printed.exists_cons (h : param.Printed cs) : ∃ c more, cs = c :: more ∧ opens c = true := by
  cases h with
  | plain h => exact h.exists_cons
  | named name hname h =>
    obtain ⟨c, more, hcs, hc⟩ := hname.exists_cons
    exact ⟨c, _, by rw [hcs]; rfl, opens_of_isWordChar hc⟩
  | block names h => exact ⟨'a', _, by simp; rfl, by decide⟩

/-- A printed parameter has characters. -/
theorem Printed.length_pos (h : param.Printed cs) : 0 < cs.length := by
  obtain ⟨c, more, rfl, -⟩ := h.exists_cons
  exact Nat.zero_lt_succ _

/-- A printed parameter does not end in white space. -/
theorem Printed.isBlank_getLast? (h : param.Printed cs) : ∀ c ∈ cs.getLast?, isBlank c = false := by
  cases h with
  | plain h => exact h.isBlank_getLast?
  | named name hname h =>
    obtain ⟨c, more, rfl, -⟩ := h.exists_cons
    rw [List.getLast?_append, List.getLast?_cons_cons, List.getLast?_cons, Option.some_or,
      ← List.getLast?_cons]
    exact h.isBlank_getLast?
  | block names h =>
    have hlast : ("as |" ++ " ".intercalate names ++ "|").toList.getLast? = some '|' := by
      rw [String.toList_append]
      exact List.getLast?_concat
    rw [hlast]
    rintro _ ⟨⟩
    decide

/-- A printed parameter is read before those behind it. -/
theorem Printed.params?_cons {more : List Char} (h : param.Printed cs)
    (hparam : param? budget (cs ++ more) = some (param, more))
    (hparams : params? budget more = some (params, rest)) :
    params? (budget + 1) (cs ++ more) = some (param :: params, rest) := by
  obtain ⟨c, others, rfl, hc⟩ := h.exists_cons
  have hparen : c ≠ ')' := by
    rintro rfl
    cases hc
  rw [List.cons_append, params?_of_cons budget (skipGap_cons hc _) hparen, ← List.cons_append,
    hparam, Option.bind_some]
  dsimp only
  rw [hparams]
  rfl

/-- Printed parameters end the word before them, where they stand at the end of a text or of
parentheses. -/
theorem PrintedAll.endsWord (h : PrintedAll params cs) (hrest : ∀ c ∈ rest.head?, c = ')') :
    EndsWord (cs ++ rest) := by
  cases h with
  | nil =>
    cases rest with
    | nil => exact .nil
    | cons c rest =>
      obtain rfl := hrest c rfl
      exact .paren rest
  | cons h hparams =>
    obtain ⟨c, more, rfl, hc⟩ := h.exists_cons
    exact .gap hc _

end Param

open Term Param

mutual

/-- A printed term is read back. -/
theorem Term.Printed.term?_eq : ∀ {term : Term} {cs rest : List Char} {budget : Nat},
    term.Printed cs → EndsWord rest → 2 * (cs ++ rest).length < budget →
      term? budget (cs ++ rest) = some (term, rest)
  | _, _, _, 0, _, _, h => absurd h (Nat.not_lt_zero _)
  | _, _, _, budget + 1, .integer n, hrest, _ => by
    rw [term?_word (isWord_integerText _) hrest.word, ofWord_integerText]
  | _, _, _, budget + 1, .bool true, hrest, _ =>
    term?_word (.of_all (by decide) (by decide)) hrest.word budget
  | _, _, _, budget + 1, .bool false, hrest, _ =>
    term?_word (.of_all (by decide) (by decide)) hrest.word budget
  | _, _, _, budget + 1, .null, hrest, _ =>
    term?_word (.of_all (by decide) (by decide)) hrest.word budget
  | _, _, _, budget + 1, .path name hname hpath, hrest, _ => by
    rw [term?_word hname hrest.word, hpath]
  | _, _, rest, budget + 1, .quoted (q := q) hq text hnot, _, _ => by
    have hread := quoted?_append hnot rest
    have htext : q :: (text.toList ++ [q]) ++ rest = q :: (text.toList ++ q :: rest) := by simp
    rw [String.ofList_toList] at hread
    rw [htext]
    rcases hq with rfl | rfl <;> rw [term?, hread]
  | _, _, rest, budget + 1, @Term.Printed.group param params head tail hparam hparams, _, h => by
    have htext : '(' :: (head ++ tail ++ [')']) ++ rest =
        '(' :: (head ++ (tail ++ ')' :: rest)) := by simp
    have hclose : ∀ c ∈ (')' :: rest).head?, c = ')' := by
      rintro _ ⟨⟩
      rfl
    have hlength := hparam.length_pos
    simp only [List.length_cons, List.length_append, List.length_nil] at h
    obtain ⟨budget, rfl⟩ : ∃ k, budget = k + 1 := ⟨budget - 1, by omega⟩
    have hfirst : param? budget (head ++ (tail ++ ')' :: rest)) =
        some (param, tail ++ ')' :: rest) := hparam.param?_eq (hparams.endsWord hclose)
      (by simp only [List.length_append, List.length_cons]; omega)
    have hothers : params? budget (tail ++ ')' :: rest) = some (params, ')' :: rest) :=
      hparams.params?_eq hclose (by simp only [List.length_append, List.length_cons]; omega)
    rw [htext, term?, hparam.params?_cons hfirst hothers]
    rfl

/-- A printed parameter is read back. -/
theorem Param.Printed.param?_eq : ∀ {param : Param} {cs rest : List Char} {budget : Nat},
    param.Printed cs → EndsWord rest → 2 * (cs ++ rest).length < budget →
      param? budget (cs ++ rest) = some (param, rest)
  | _, cs, rest, budget, .plain hterm, hrest, h => by
    have hread := hterm.term?_eq hrest h
    have hunnamed : block? budget (cs ++ rest) = none ∧ name? (cs ++ rest) = none := by
      rcases hterm.cases_word with ⟨hword, -⟩ | ⟨c, more, rfl, hc, -, -⟩
      · refine ⟨block?_append hword hrest.word hrest.bar budget, ?_⟩
        have hequals := hrest.equals
        unfold name?
        rw [word?_append hword hrest.word]
        split
        · next heq =>
          obtain ⟨-, rfl⟩ := Prod.mk.inj (Option.some.inj heq)
          exact absurd rfl hequals
        · rfl
      · exact unnamed_of_isWordChar hc budget _
    rw [param?, hunnamed.1, hunnamed.2, hread]
    rfl
  | _, _, rest, budget, @Param.Printed.named term cs name hname hterm, hrest, h => by
    have htext : name.toList ++ '=' :: cs ++ rest = name.toList ++ '=' :: (cs ++ rest) := by simp
    have hends : ∀ c ∈ ('=' :: (cs ++ rest)).head?, isWordChar c = false := by
      rintro _ ⟨⟩
      decide
    have hgap : skipGap (cs ++ rest) = cs ++ rest := by
      obtain ⟨c, more, rfl, hc⟩ := hterm.exists_cons
      exact skipGap_cons hc _
    have hread : term? budget (cs ++ rest) = some (term, rest) := by
      refine hterm.term?_eq hrest ?_
      simp only [List.length_append, List.length_cons] at h ⊢
      omega
    have hnamed : name? (name.toList ++ '=' :: (cs ++ rest)) = some (name, cs ++ rest) := by
      unfold name?
      rw [word?_append hname hends]
      exact congrArg (fun name => some (name, cs ++ rest)) String.ofList_toList
    rw [htext, param?, block?_append hname hends (by simp [skipGap, isGap]), hnamed]
    dsimp only
    rw [hgap, hread]
    rfl
  | _, _, rest, budget, .block names hnames, _, h => by
    have hread : block? budget (("as |" ++ " ".intercalate names ++ "|").toList ++ rest) =
        some (names, rest) := by
      refine block?_printed hnames ?_
      simp only [String.toList_append, List.length_append] at h
      have : "as |".toList.length = 4 := rfl
      omega
    rw [param?, hread]

/-- Printed parameters are read back, up to the end of a text or of parentheses. -/
theorem Param.PrintedAll.params?_eq : ∀ {params : List Param} {cs rest : List Char} {budget : Nat},
    PrintedAll params cs → (∀ c ∈ rest.head?, c = ')') → 2 * (cs ++ rest).length + 1 < budget →
      params? budget (cs ++ rest) = some (params, rest)
  | _, _, _, 0, _, _, h => absurd h (Nat.not_lt_zero _)
  | _, _, [], budget + 1, .nil, _, _ => params?_of_nil budget rfl
  | _, _, c :: rest, budget + 1, .nil, hrest, _ => by
    obtain rfl := hrest c rfl
    exact params?_of_paren budget rfl
  | _, _, rest, budget + 1, @PrintedAll.cons param params cs tail hparam hparams, hrest, h => by
    have hlength := hparam.length_pos
    simp only [List.length_append, List.length_cons] at h
    rw [List.cons_append, params?_gap _ rfl, List.append_assoc]
    have hfirst : param? budget (cs ++ (tail ++ rest)) = some (param, tail ++ rest) :=
      hparam.param?_eq (hparams.endsWord hrest) (by simp only [List.length_append]; omega)
    have hothers : params? budget (tail ++ rest) = some (params, rest) :=
      hparams.params?_eq hrest (by simp only [List.length_append]; omega)
    exact hparam.params?_cons hfirst hothers

end

namespace Param

variable {param : Param} {params : List Param} {cs tail : List Char}

/-- A printed parameter and those after it are read back. -/
theorem readAll?_printed (h : param.Printed cs) (hparams : PrintedAll params tail) :
    readAll? (cs ++ tail) = some (param :: params) := by
  have hend : ∀ c ∈ ([] : List Char).head?, c = ')' := by simp
  have hlength := h.length_pos
  have hfirst : param? (2 * (cs ++ tail).length + 1) (cs ++ (tail ++ [])) =
      some (param, tail ++ []) := h.param?_eq (hparams.endsWord hend) (by simp)
  have hothers : params? (2 * (cs ++ tail).length + 1) (tail ++ []) = some (params, []) :=
    hparams.params?_eq hend (by simp only [List.length_append, List.length_nil]; omega)
  have hall := h.params?_cons hfirst hothers
  rw [List.append_nil] at hall
  rw [readAll?, hall]

/-- Texts that do not end in white space do not do so after each other. -/
theorem isBlank_getLast?_append {xs ys : List Char} (hx : ∀ c ∈ xs.getLast?, isBlank c = false)
    (hy : ∀ c ∈ ys.getLast?, isBlank c = false) :
    ∀ c ∈ (xs ++ ys).getLast?, isBlank c = false := by
  rw [List.getLast?_append]
  cases hlast : ys.getLast? with
  | none => simpa using hx
  | some d => simpa [hlast] using hy

/-- Printed parameters begin with the blank before the first one. -/
theorem PrintedAll.eq_of_mem_head? (h : PrintedAll params tail) : ∀ c ∈ tail.head?, c = ' ' := by
  cases h with
  | nil => simp
  | cons => simp

/-- Printed parameters do not end in white space. -/
theorem PrintedAll.isBlank_getLast? : ∀ {params : List Param} {tail : List Char},
    PrintedAll params tail → ∀ c ∈ tail.getLast?, isBlank c = false
  | _, _, .nil => by simp
  | _, _, .cons h hparams => by
    obtain ⟨c, more, rfl, -⟩ := h.exists_cons
    rw [List.cons_append, List.getLast?_cons_cons, ← List.cons_append]
    exact isBlank_getLast?_append h.isBlank_getLast? hparams.isBlank_getLast?

end Param

namespace Source

/-! ### Tags -/

/-- A name that a tag may start with: it is a path, its first character does not tell what else the
tag is for, and it is not the word of an else tag. -/
structure Head (name : String) : Prop where
  word : IsWord name.toList
  path : Term.ofWord name.toList = .path name
  sigil : ∀ c ∈ name.toList.head?, c ∉ ['!', '#', '^', '/', '>', '&']
  branch : name ≠ "else"

variable {name : String} {params : List Param} {words : List Char}

/-- A head is printed as itself. -/
theorem Head.printed (h : Head name) : Param.Printed (.plain (.path name)) name.toList :=
  .plain (.path name h.word h.path)

/-- A name that starts like the word of an else tag goes on with another character of a word. -/
theorem Head.endsWord_eq_false (h : Head name) (hparams : PrintedAll params words)
    {rest : List Char} (heq : name.toList ++ words = 'e' :: 'l' :: 's' :: 'e' :: rest) :
    Source.endsWord rest = false := by
  have heq : name.toList ++ words = "else".toList ++ rest := heq
  rcases List.append_eq_append_iff.mp heq with ⟨as, helse, rfl⟩ | ⟨as, hname, rfl⟩
  · cases as with
    | nil =>
      rw [List.append_nil, String.toList_inj] at helse
      exact absurd helse.symm h.branch
    | cons c as =>
      obtain rfl : c = ' ' := hparams.eq_of_mem_head? c rfl
      have hc : ' ' ∈ "else".toList := by simp [helse]
      exact absurd hc (by decide)
  · cases as with
    | nil =>
      rw [List.append_nil, String.toList_inj] at hname
      exact absurd hname h.branch
    | cons c as =>
      exact isBlank_eq_false (h.word.chars c (by simp [hname]))

/-- The contents of a tag with printed parameters are the value of its head and its parameters. -/
theorem Head.ofContents (h : Head name) (hparams : PrintedAll params words) :
    Tag.ofContents (name.toList ++ words) = .ok (.value true (.plain (.path name) :: params)) := by
  have hread := Param.readAll?_printed h.printed hparams
  have hlast := Param.isBlank_getLast?_append h.printed.isBlank_getLast? hparams.isBlank_getLast?
  obtain ⟨c, more, hcs, hc⟩ := h.word.exists_cons
  have hhead : (name.toList ++ words).head? = some c := by
    rw [hcs]
    rfl
  have hinner : withoutMarks (name.toList ++ words) = name.toList ++ words := by
    rw [withoutMarks_of_ends ?_ (Param.worded_of_readAll? hread).unmarked, trim_of_ends ?_ hlast]
    · rw [hhead]
      rintro _ ⟨⟩
      exact isBlank_eq_false hc
    · rw [hhead]
      rintro ⟨⟩
      cases hc
  have hsigil : ∀ {d : Char} {rest : List Char}, name.toList ++ words = d :: rest →
      d ∉ ['!', '#', '^', '/', '>', '&'] := fun heq => by
    rw [heq] at hhead
    obtain rfl := Option.some.inj hhead
    exact h.sigil _ (by rw [hcs]; rfl)
  have hplain : (paramsOf (name.toList ++ words)).map (Tag.value true) =
      .ok (.value true (.plain (.path name) :: params)) := by
    rw [paramsOf, hread]
    rfl
  unfold Tag.ofContents
  rw [hinner]
  dsimp only
  split
  · next heq => exact absurd (by decide) (hsigil heq)
  · next heq => exact absurd (by decide) (hsigil heq)
  · next heq => exact absurd (by decide) (hsigil heq)
  · next heq => exact absurd (by decide) (hsigil heq)
  · next heq => exact absurd (by decide) (hsigil heq)
  · next heq => exact absurd (by decide) (hsigil heq)
  · next heq =>
    rw [h.endsWord_eq_false hparams heq]
    exact hplain
  · exact hplain

/-- A tag with a name and printed parameters is one token, and these are its parameters. -/
theorem Token.ofText_printed (hname : Head name) (h : Param.PrintedAll params words) :
    Token.ofText ("\x7b\x7b" ++ name ++ String.ofList words ++ "\x7d\x7d") =
      .ok [.tag (.value true (.plain (.path name) :: params)) (Span.ofBytes 0
        (byteSize ("\x7b\x7b" ++ name ++ String.ofList words ++ "\x7d\x7d").toList))] := by
  have hworded := Param.worded_of_readAll? (Param.readAll?_printed hname.printed h)
  have htag := hname.ofContents h
  obtain ⟨c, more, hcs, hc⟩ := hname.word.exists_cons
  have htext : ("\x7b\x7b" ++ name ++ String.ofList words ++ "\x7d\x7d").toList =
      tagText (name.toList ++ words) ++ [] := by
    simp [tagText, opening, closing]
  have hcut : cut (tagText (name.toList ++ words) ++ []) = [.tag (name.toList ++ words)] := by
    rw [hcs] at hworded ⊢
    refine cut_tagText ?_ ?_ ?_ hworded []
    · rintro rfl
      cases hc
    · rintro rfl
      cases hc
    · rintro rfl
      exact hname.sigil '!' (by rw [hcs]; rfl) (by decide)
  rw [Token.ofText, htext, hcut, ofPieces, Piece.tag?, htag]
  simp only [Piece.text, ofPieces, Nat.zero_add, tagText, List.append_nil]
  rfl

/-- A word like the one before the parameters of a block, quotes with braces, and parentheses. -/
theorem Token.ofText_printed_nested :
    Token.ofText "\x7b\x7basset as (f -5 \"a \x7d\x7d b\" k='\"') key=null as |a b|\x7d\x7d" =
      .ok [.tag (.value true [.plain (.path "asset"), .plain (.path "as"),
        .plain (.group [.plain (.path "f"), .plain (.literal (.int (-5))),
          .plain (.literal (.string "a \x7d\x7d b")), .named "k" (.literal (.string "\""))]),
        .named "key" (.literal .null), .block ["a", "b"]]) ⟨0, 52⟩] := by
  have word : ∀ name : String, name.toList ≠ [] → name.toList.all isWordChar = true →
      IsWord name.toList := fun _ => .of_all
  have hname : Head "asset" :=
    ⟨word "asset" (by decide) (by decide), rfl, by rintro _ ⟨⟩; decide, by decide⟩
  have hnames : ∀ name ∈ ["a", "b"], Param.IsName name.toList :=
    List.forall_mem_cons.mpr ⟨⟨by decide, List.all_eq_true.mp (by decide)⟩,
      List.forall_mem_singleton.mpr ⟨by decide, List.all_eq_true.mp (by decide)⟩⟩
  have harguments : PrintedAll [.plain (.literal (.int (-5))),
      .plain (.literal (.string "a \x7d\x7d b")), .named "k" (.literal (.string "\""))] _ :=
    .cons (.plain (.integer (-5)))
      (.cons (.plain (.quoted (.inl rfl) "a \x7d\x7d b" (by decide)))
        (.cons (.named "k" (word _ (by decide) (by decide))
          (.quoted (.inr rfl) "\"" (by decide))) .nil))
  have hparams : PrintedAll [.plain (.path "as"), .plain (.group _), .named "key" (.literal .null),
      .block ["a", "b"]] _ :=
    .cons (.plain (.path "as" (word _ (by decide) (by decide)) rfl))
      (.cons (.plain (.group (.plain (.path "f" (word _ (by decide) (by decide)) rfl)) harguments))
        (.cons (.named "key" (word _ (by decide) (by decide)) .null)
          (.cons (.block ["a", "b"] hnames) .nil)))
  have htoken := Token.ofText_printed hname hparams
  generalize hsource : "\x7b\x7b" ++ "asset" ++ String.ofList _ ++ "\x7d\x7d" = source at htoken
  have htext : source =
      "\x7b\x7basset as (f -5 \"a \x7d\x7d b\" k='\"') key=null as |a b|\x7d\x7d" := by
    rw [← hsource]
    apply String.toList_inj.mp
    simp only [String.toList_append, String.toList_ofList]
    decide
  have hsize : byteSize source.toList = 52 := by
    rw [htext]
    decide
  rw [hsize, htext] at htoken
  exact htoken

end Source

end Stencil
