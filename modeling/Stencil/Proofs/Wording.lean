import Stencil.Proofs.Names

/-!
# The words of a tag in a longer text

The words between the braces of a tag are read with a budget of steps, and the end of the tag is
found before its words are read. So two things have to be known of words before they can be put into
a tag, together with other words: that they are read alike with any budget that is large enough, and
that the search for the end of the tag passes over them. The second one holds because the reader of
words and the search agree on what is quoted: outside of quotes no word has a brace.

## Main results

* `Param.params?_budget`: a larger budget changes nothing.
* `Param.worded_of_readAll?`: the end of a tag is not found within its words.
* `Param.readAll?_if`: words after the name of a conditional.
-/

namespace Stencil

open Text Source

namespace Source

/-! ### Passing over words -/

/-- The search for the end of a tag passes over the text, and the text does not end in a mark. -/
structure Worded (cs : List Char) : Prop where
  passes : ∀ more, breakAtClosing none (cs ++ more) =
    (breakAtClosing none more).map fun (before, rest) => (cs ++ before, rest)
  unmarked : cs.getLast? ≠ some '~'

/-- Whether a character is no quote, no closing brace and no mark. -/
def isPlain (c : Char) : Bool :=
  c != '"' && c != '\'' && c != '~' && c != '\x7d'

namespace Worded

variable {xs ys : List Char}

/-- The empty text is made of words. -/
theorem nil : Worded [] where
  passes more := by simp
  unmarked := by simp

/-- Texts that are made of words are so side by side. -/
theorem append (hx : Worded xs) (hy : Worded ys) : Worded (xs ++ ys) where
  passes more := by
    rw [List.append_assoc, hx.passes, hy.passes, Option.map_map]
    simp [Function.comp_def]
  unmarked := by
    have hlast := hy.unmarked
    rw [List.getLast?_append]
    cases hys : ys.getLast? with
    | none => simpa using hx.unmarked
    | some c => simpa [hys] using hlast

/-- A plain character is made of words. -/
theorem singleton {c : Char} (h : isPlain c = true) : Worded [c] := by
  simp only [isPlain, Bool.and_eq_true, bne_iff_ne] at h
  obtain ⟨⟨⟨hdouble, hsingle⟩, hmark⟩, hbrace⟩ := h
  refine ⟨fun more => ?_, by simpa using hmark⟩
  rw [List.cons_append, List.nil_append, breakAtClosing]
  · rw [if_neg (not_or.mpr ⟨hdouble, hsingle⟩)]
    rfl
  · exact fun _ hc => absurd hc hbrace

/-- A text of plain characters is made of words. -/
theorem of_all (h : xs.all isPlain = true) : Worded xs := by
  induction xs with
  | nil => exact .nil
  | cons c xs ih =>
    rw [List.all_cons, Bool.and_eq_true] at h
    exact (singleton h.1).append (ih h.2)

end Worded

/-- Inside of quotes the search goes on to the quote that closes them. -/
theorem breakAtClosing_quote {q : Char} {text : List Char} (h : q ∉ text) (more : List Char) :
    breakAtClosing (some q) (text ++ q :: more) =
      (breakAtClosing none more).map fun (before, rest) => (text ++ q :: before, rest) := by
  induction text with
  | nil =>
    rw [List.nil_append, breakAtClosing]
    simp
  | cons c text ih =>
    obtain ⟨hc, htext⟩ := List.ne_and_not_mem_of_not_mem_cons h
    rw [List.cons_append, breakAtClosing]
    simp [hc.symm, ih htext, Function.comp_def]

/-- A quoted text has its end. -/
theorem Worded.quoted {q : Char} (hq : q = '"' ∨ q = '\'') {text : List Char} (h : q ∉ text) :
    Worded (q :: (text ++ [q])) where
  passes more := by
    rw [List.cons_append, List.append_assoc, List.cons_append, List.nil_append, breakAtClosing]
    · simp [hq, breakAtClosing_quote h, Function.comp_def]
    · rintro _ rfl
      rcases hq with hq | hq <;> cases hq
  unmarked := by
    rw [← List.cons_append, List.getLast?_concat]
    rcases hq with rfl | rfl <;> decide

/-! ### What readers take -/

/-- The second text is what is left of the first one behind words. -/
def Leaves (cs rest : List Char) : Prop :=
  ∃ used, cs = used ++ rest ∧ Worded used

namespace Leaves

variable {a b c : List Char}

/-- Of a text the text itself is left. -/
theorem refl (a : List Char) : Leaves a a :=
  ⟨[], rfl, .nil⟩

/-- What is left of what is left of a text is left of the text. -/
theorem trans (h : Leaves a b) (h' : Leaves b c) : Leaves a c := by
  obtain ⟨x, rfl, hx⟩ := h
  obtain ⟨y, rfl, hy⟩ := h'
  exact ⟨x ++ y, by simp, hx.append hy⟩

/-- Behind a plain character the rest is left. -/
theorem cons {c : Char} (hc : isPlain c = true) (a : List Char) : Leaves (c :: a) a :=
  ⟨[c], rfl, .singleton hc⟩

/-- Behind plain characters the rest is left. -/
theorem dropWhile {p : Char → Bool} (h : ∀ c, p c = true → isPlain c = true) (a : List Char) :
    Leaves a (a.dropWhile p) :=
  ⟨a.takeWhile p, (List.takeWhile_append_dropWhile).symm,
    .of_all (List.all_eq_true.mpr fun _ hc => h _ (List.mem_takeWhile_imp hc))⟩

/-- What is left is not longer. -/
theorem length_le (h : Leaves a b) : b.length ≤ a.length := by
  obtain ⟨x, rfl, -⟩ := h
  simp

end Leaves

/-- The second text is left of the first one behind words of which there are some. -/
def LeavesLess (cs rest : List Char) : Prop :=
  Leaves cs rest ∧ rest.length < cs.length

namespace LeavesLess

variable {a b c : List Char}

/-- Behind a plain character less is left. -/
theorem cons {d : Char} (hd : isPlain d = true) (h : Leaves a b) : LeavesLess (d :: a) b :=
  ⟨.trans (.cons hd a) h, Nat.lt_succ_of_le h.length_le⟩

/-- What is left of less is less. -/
theorem trans (h : LeavesLess a b) (h' : Leaves b c) : LeavesLess a c :=
  ⟨h.1.trans h', Nat.lt_of_le_of_lt h'.length_le h.2⟩

/-- Behind a quoted text less is left. -/
theorem quoted {q : Char} (hq : q = '"' ∨ q = '\'') {text : List Char} (h : q ∉ text)
    (rest : List Char) : LeavesLess (q :: (text ++ q :: rest)) rest :=
  ⟨⟨q :: (text ++ [q]), by simp, .quoted hq h⟩, by simp; omega⟩

end LeavesLess

end Source

namespace Param

/-- The white space of tags is plain. -/
theorem isPlain_of_isGap {c : Char} (h : isGap c = true) : isPlain c = true := by
  simp only [isGap, Bool.or_eq_true, beq_iff_eq] at h
  rcases h with ((rfl | rfl) | rfl) | rfl <;> decide

/-- The characters of words are plain. -/
theorem isPlain_of_isWordChar {c : Char} (h : Term.isWordChar c = true) : isPlain c = true := by
  simp only [Term.isWordChar, List.contains_cons, Bool.and_eq_true, Bool.not_eq_true',
    Bool.or_eq_false_iff, beq_eq_false_iff_ne] at h
  simp [isPlain, h]

/-- The characters of names are plain. -/
theorem isPlain_of_isNameChar {c : Char} (h : isNameChar c = true) : isPlain c = true := by
  by_contra hplain
  have hc : c = '"' ∨ c = '\'' ∨ c = '~' ∨ c = '\x7d' := by
    simpa [isPlain, or_assoc, imp_iff_not_or] using hplain
  rcases hc with rfl | rfl | rfl | rfl <;> exact absurd h (by decide)

/-! ### What is read is left behind -/

variable {budget : Nat} {cs rest : List Char}

/-- Behind white space the rest is left. -/
theorem leaves_skipGap (cs : List Char) : Leaves cs (skipGap cs) :=
  .dropWhile (fun _ => isPlain_of_isGap) cs

/-- Behind names the rest is left. -/
theorem leaves_names? {names : List String} (h : names? budget cs = some (names, rest)) :
    Leaves cs rest := by
  induction budget generalizing cs names with
  | zero => cases h
  | succ budget ih =>
    refine (leaves_skipGap cs).trans ?_
    unfold names? at h
    split at h
    · next hbar =>
      cases h
      rw [hbar]
      exact .cons (by decide) _
    · split at h
      · cases h
      · obtain ⟨⟨others, _⟩, hothers, h⟩ := Option.bind_eq_some_iff.mp h
        cases h
        exact (Leaves.dropWhile (fun _ => isPlain_of_isNameChar) _).trans (ih hothers)

/-- Behind the parameters of a block less is left. -/
theorem leaves_block? {names : List String} (h : block? budget cs = some (names, rest)) :
    LeavesLess cs rest := by
  unfold block? at h
  split at h
  · next others =>
    split at h
    · next hbar =>
      refine .cons (by decide) (.trans (.cons (by decide) others) ?_)
      refine (leaves_skipGap others).trans ?_
      rw [hbar]
      exact .trans (.cons (by decide) _) (leaves_names? h)
    · cases h
  · cases h

/-- Behind a word less is left. -/
theorem leaves_word? {word : List Char} (h : word? cs = some (word, rest)) :
    LeavesLess cs rest := by
  unfold word? at h
  split at h
  · cases h
  · next hword =>
    obtain ⟨-, rfl⟩ := Prod.mk.inj (Option.some.inj h)
    obtain _ | ⟨c, others⟩ := cs
    · cases hword rfl
    · have hc : Term.isWordChar c = true := by
        by_contra hc
        exact hword (List.takeWhile_cons_of_neg hc)
      rw [List.dropWhile_cons_of_pos hc]
      exact .cons (isPlain_of_isWordChar hc) (.dropWhile (fun _ => isPlain_of_isWordChar) others)

/-- Behind a name less is left. -/
theorem leaves_name? {name : String} (h : name? cs = some (name, rest)) : LeavesLess cs rest := by
  unfold name? at h
  split at h
  · next hword =>
    cases h
    exact (leaves_word? hword).trans (.cons (by decide) _)
  · cases h

/-- Behind a quoted text less is left, counted from its first quote. -/
theorem leaves_quoted? {q : Char} (hq : q = '"' ∨ q = '\'') {term : Term}
    (h : quoted? q cs = some (term, rest)) : LeavesLess (q :: cs) rest := by
  unfold quoted? at h
  split at h
  · next c others hdrop =>
    obtain ⟨-, rfl⟩ := Prod.mk.inj (Option.some.inj h)
    have hc : c = q := by
      have hhead := List.head?_dropWhile_not (· != q) cs
      simpa [hdrop] using hhead
    subst hc
    have htext : c ∉ cs.takeWhile (· != c) := fun hmem => by
      simpa using List.mem_takeWhile_imp hmem
    have hcs : cs = cs.takeWhile (· != c) ++ c :: others := by
      rw [← hdrop, List.takeWhile_append_dropWhile]
    rw [hcs]
    exact .quoted hq (by simpa using htext) others
  · cases h

/-! ### One parameter after the other -/

/-- Reads the parameter that a text starts with: the parameter, and the rest. -/
def param? (budget : Nat) (cs : List Char) : Option (Param × List Char) :=
  match block? budget cs with
  | some (names, rest) => some (.block names, rest)
  | none =>
    match name? cs with
    | some (name, rest) =>
      (term? budget (skipGap rest)).map fun (term, rest) => (.named name term, rest)
    | none => (term? budget cs).map fun (term, rest) => (.plain term, rest)

/-- A text of white space has no parameters. -/
theorem params?_of_nil (budget : Nat) {cs : List Char} (h : skipGap cs = []) :
    params? (budget + 1) cs = some ([], []) := by
  conv => lhs; unfold params?
  rw [h]

/-- The parameters of a list end before a closing parenthesis. -/
theorem params?_of_paren (budget : Nat) {cs rest : List Char} (h : skipGap cs = ')' :: rest) :
    params? (budget + 1) cs = some ([], ')' :: rest) := by
  conv => lhs; unfold params?
  rw [h]
  rfl

/-- Parameters are read one after the other. -/
theorem params?_of_cons (budget : Nat) {cs : List Char} {c : Char} {rest : List Char}
    (h : skipGap cs = c :: rest) (hc : c ≠ ')') :
    params? (budget + 1) cs = (param? budget (c :: rest)).bind fun (param, rest) =>
      (params? budget rest).map fun (params, rest) => (param :: params, rest) := by
  have hbind : ∀ (param : Param) (rest : List Char),
      ((params? budget rest).bind fun (params, rest) => some (param :: params, rest)) =
        (params? budget rest).map fun (params, rest) => (param :: params, rest) :=
    fun _ _ => Option.map_eq_bind.symm
  conv => lhs; unfold params?
  rw [h]
  split
  · next hnil => cases hnil
  · next hparen => exact absurd (List.cons.inj hparen).1 hc
  · unfold param?
    cases block? budget (c :: rest) with
    | some found => exact hbind _ _
    | none =>
      cases name? (c :: rest) with
      | some found =>
        dsimp only
        cases term? budget (skipGap found.2) with
        | none => rfl
        | some term => exact hbind _ _
      | none =>
        dsimp only
        cases term? budget (c :: rest) with
        | none => rfl
        | some term => exact hbind _ _

/-- Parameters are made of words when terms are. -/
theorem leaves_param? {param : Param}
    (hterm : ∀ {cs rest term}, term? budget cs = some (term, rest) → LeavesLess cs rest)
    (h : param? budget cs = some (param, rest)) : LeavesLess cs rest := by
  unfold param? at h
  split at h
  · next hblock =>
    cases h
    exact leaves_block? hblock
  · split at h
    · next hname =>
      obtain ⟨⟨term, _⟩, h', h⟩ := Option.map_eq_some_iff.mp h
      cases h
      exact (leaves_name? hname).trans ((leaves_skipGap _).trans (hterm h').1)
    · obtain ⟨⟨term, _⟩, h', h⟩ := Option.map_eq_some_iff.mp h
      cases h
      exact hterm h'

mutual

/-- A term is made of words. -/
theorem leaves_term? : ∀ {budget : Nat} {cs rest : List Char} {term : Term},
    term? budget cs = some (term, rest) → LeavesLess cs rest
  | 0, _, _, _, h => by cases h
  | budget + 1, cs, rest, term, h => by
    unfold term? at h
    split at h
    · obtain ⟨⟨params, others⟩, hparams, h⟩ := Option.bind_eq_some_iff.mp h
      dsimp only at h
      split at h
      · cases h
        exact .cons (by decide) ((leaves_params? hparams).trans (.cons (by decide) _))
      · cases h
    · exact leaves_quoted? (.inl rfl) h
    · exact leaves_quoted? (.inr rfl) h
    · obtain ⟨⟨word, others⟩, hword, h⟩ := Option.map_eq_some_iff.mp h
      cases h
      exact leaves_word? hword

/-- Parameters are made of words. -/
theorem leaves_params? : ∀ {budget : Nat} {cs rest : List Char} {params : List Param},
    params? budget cs = some (params, rest) → Leaves cs rest
  | 0, _, _, _, h => by cases h
  | budget + 1, cs, rest, params, h => by
    refine (leaves_skipGap cs).trans ?_
    rcases hcs : skipGap cs with _ | ⟨c, others⟩
    · rw [params?_of_nil budget hcs] at h
      cases h
      exact .refl _
    · by_cases hc : c = ')'
      · subst hc
        rw [params?_of_paren budget hcs] at h
        cases h
        exact .refl _
      · rw [params?_of_cons budget hcs hc] at h
        obtain ⟨⟨param, more⟩, hparam, h⟩ := Option.bind_eq_some_iff.mp h
        obtain ⟨⟨params, _⟩, hparams, h⟩ := Option.map_eq_some_iff.mp h
        cases h
        exact (leaves_param? (fun h => leaves_term? h) hparam).1.trans (leaves_params? hparams)

end

/-- The end of a tag is not found within its words. -/
theorem worded_of_readAll? {params : List Param} (h : readAll? cs = some params) : Worded cs := by
  unfold readAll? at h
  split at h
  · next hparams =>
    obtain ⟨used, rfl, hused⟩ := leaves_params? hparams
    rwa [List.append_nil]
  · cases h

/-! ### Budgets -/

/-- The name of a block parameter uses up a character. -/
theorem names?_succ (h : cs.length < budget) : names? (budget + 1) cs = names? budget cs := by
  induction budget generalizing cs with
  | zero => exact absurd h (Nat.not_lt_zero _)
  | succ budget ih =>
    have hgap := (leaves_skipGap cs).length_le
    rw [names?, names?]
    generalize skipGap cs = rest at hgap
    split
    · rfl
    · cases hname : rest.takeWhile isNameChar with
      | nil => rfl
      | cons c name =>
        have hlength : (rest.dropWhile isNameChar).length < budget := by
          have hsplit := congrArg List.length (rest.takeWhile_append_dropWhile (p := isNameChar))
          simp only [hname, List.length_append, List.length_cons] at hsplit
          omega
        simp only [ih hlength]

/-- A budget that covers the text is enough for the parameters of a block. -/
theorem block?_succ (h : cs.length ≤ budget) : block? (budget + 1) cs = block? budget cs := by
  unfold block?
  split
  · next rest =>
    have hgap := (leaves_skipGap rest).length_le
    split
    · next hbar =>
      refine names?_succ ?_
      simp only [hbar, List.length_cons] at hgap h
      omega
    · rfl
  · rfl

/-- A budget that covers the text is enough for a parameter, if it is for terms. -/
theorem param?_succ (h : 2 * cs.length < budget)
    (hterm : ∀ {cs}, 2 * cs.length < budget → term? (budget + 1) cs = term? budget cs) :
    param? (budget + 1) cs = param? budget cs := by
  unfold param?
  rw [block?_succ (by omega), hterm h]
  split
  · rfl
  · split
    · next rest hname =>
      have hless := ((leaves_name? hname).trans (leaves_skipGap rest)).2
      rw [hterm (by omega)]
    · rfl

mutual

/-- A term takes no more than two steps for each of its characters. -/
theorem term?_succ : ∀ {budget : Nat} {cs : List Char}, 2 * cs.length < budget →
    term? (budget + 1) cs = term? budget cs
  | 0, _, h => absurd h (Nat.not_lt_zero _)
  | budget + 1, cs, h => by
    unfold term?
    split
    · next rest =>
      rw [List.length_cons] at h
      rw [params?_succ (by omega)]
    · rfl
    · rfl
    · rfl

/-- To go on with parameters takes a step of its own. -/
theorem params?_succ : ∀ {budget : Nat} {cs : List Char}, 2 * cs.length + 1 < budget →
    params? (budget + 1) cs = params? budget cs
  | 0, _, h => absurd h (Nat.not_lt_zero _)
  | budget + 1, cs, h => by
    have hgap := (leaves_skipGap cs).length_le
    rcases hcs : skipGap cs with _ | ⟨c, others⟩
    · rw [params?_of_nil _ hcs, params?_of_nil _ hcs]
    · by_cases hc : c = ')'
      · subst hc
        rw [params?_of_paren _ hcs, params?_of_paren _ hcs]
      · rw [hcs] at hgap
        rw [params?_of_cons _ hcs hc, params?_of_cons _ hcs hc,
          param?_succ (by omega) fun h => term?_succ h]
        refine Option.bind_congr fun ⟨param, rest⟩ hparam => ?_
        have hless := (leaves_param? (fun h => leaves_term? h) hparam).2
        have hrest : params? (budget + 1) rest = params? budget rest := params?_succ (by omega)
        simp only [hrest]

end

/-- A larger budget changes nothing. -/
theorem params?_budget (h : 2 * cs.length + 1 < budget) :
    params? budget cs = params? (2 * cs.length + 2) cs := by
  induction budget, h using Nat.le_induction with
  | base => rfl
  | succ budget h ih => rw [params?_succ h, ih]

/-- A gap before the first word changes nothing. -/
theorem params?_gap (budget : Nat) {c : Char} (hc : isGap c = true) (cs : List Char) :
    params? budget (c :: cs) = params? budget cs := by
  have hgap : skipGap (c :: cs) = skipGap cs := List.dropWhile_cons_of_pos hc
  cases budget with
  | zero => rfl
  | succ budget =>
    conv => lhs; unfold params?
    conv => rhs; unfold params?
    rw [hgap]

/-- Parameters are read with any budget that covers the text. -/
theorem params?_of_readAll? {params : List Param} (h : readAll? cs = some params)
    (hbudget : 2 * cs.length + 1 < budget) : params? budget cs = some (params, []) := by
  rw [params?_budget hbudget]
  unfold readAll? at h
  split at h
  · next hparams =>
    cases h
    exact hparams
  · cases h

/-! ### Conditions -/

/-- A space before the parameters of a tag changes nothing. -/
theorem readAll?_gap {params : List Param} (h : readAll? cs = some params) :
    readAll? (' ' :: cs) = some params := by
  unfold readAll?
  rw [params?_gap _ rfl, params?_of_readAll? h (by rw [List.length_cons]; omega)]

/-- A parameter before others. -/
theorem readAll?_cons {c : Char} {w rest : List Char} {param : Param} {params : List Param}
    (hgap : isGap c = false) (hparen : c ≠ ')')
    (hparam : ∀ budget, param? (budget + 1) (c :: (w ++ rest)) = some (param, rest))
    (h : readAll? rest = some params) : readAll? (c :: (w ++ rest)) = some (param :: params) := by
  have hskip : skipGap (c :: (w ++ rest)) = c :: (w ++ rest) :=
    List.dropWhile_cons_of_neg (by simp [hgap])
  have hparams : ∀ budget, 2 * rest.length + 1 < budget + 1 →
      params? (budget + 2) (c :: (w ++ rest)) = some (param :: params, []) := by
    intro budget hbudget
    rw [params?_of_cons _ hskip hparen, hparam, Option.bind_some]
    dsimp only
    rw [params?_of_readAll? h hbudget]
    rfl
  unfold readAll?
  rw [hparams _ (by simp only [List.length_cons, List.length_append]; omega)]

/-- Words after the name of a conditional. -/
theorem readAll?_if {params : List Param} (h : readAll? cs = some params) :
    readAll? ('i' :: 'f' :: ' ' :: cs) = some (.plain (.path "if") :: params) :=
  readAll?_cons (w := ['f']) rfl (by decide) (fun _ => rfl) (readAll?_gap h)

end Param

end Stencil
