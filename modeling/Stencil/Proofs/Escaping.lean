import Stencil.Proofs.Entities
import Stencil.Proofs.Interpolation

/-!
# What escaping keeps out of markup

A template that writes one field escapes it. A text that is escaped holds no character of markup but
the ampersands that start its entities, so that nothing in it is read as markup. Escaping is for
texts alone: `null` is written as the empty text, and the output of every other value as it is. What
is written is safe all the same for the scalars, whose output has no character of markup in it. It
is never safe for a record or a map that holds something, because names stand between quotes; and
for a sequence it is safe exactly if the outputs of all its items are, since what separates them
neither belongs to an entity nor has one.

## Main results

* `Markup.safe_escape`: every escaped text is safe.
* `Markup.escapeText_charwise`: a text is escaped character by character, and can be read back.
* `Value.safe_output_iff`: for which values the output is safe as it is.
* `Engine.escaped_field`: what a template that writes one field renders, and when it is safe.
-/

namespace Stencil

namespace Markup

/-! ### Safe texts -/

/-- The text starts with an entity. -/
def StartsEntity (cs : List Char) : Prop :=
  ∃ c entity, entity? c = some entity ∧ entity <+: cs

/-- Nothing in the text is read as markup: it holds neither quotes nor angle brackets, and every
ampersand starts an entity. -/
structure Safe (cs : List Char) : Prop where
  unmarked : ∀ c ∈ ['"', '\'', '<', '>'], c ∉ cs
  ampersand : ∀ before after, cs = before ++ '&' :: after → StartsEntity ('&' :: after)

variable {c : Char} {cs xs ys entity : List Char}

/-- The characters without entity: all but quotes, angle brackets and the ampersand. -/
theorem entity?_eq_none_iff : entity? c = none ↔ c ∉ ['"', '\'', '<', '>'] ∧ c ≠ '&' := by
  unfold entity?
  split <;> simp_all

/-- An entity is an ampersand followed by characters of which none is an ampersand or a comma. -/
theorem entity_eq_cons (h : entity? c = some entity) :
    ∃ tail, entity = '&' :: tail ∧ isPlain tail = true ∧ ',' ∉ entity := by
  unfold entity? at h
  split at h
  all_goals first
    | cases h; exact ⟨_, rfl, by decide, by decide⟩
    | cases h

/-- A text that starts with an entity does so whatever follows. -/
theorem StartsEntity.append (h : StartsEntity xs) (ys : List Char) : StartsEntity (xs ++ ys) := by
  obtain ⟨c, entity, hentity, hprefix⟩ := h
  exact ⟨c, entity, hentity, hprefix.trans (List.prefix_append xs ys)⟩

/-- No entity goes over a comma. -/
theorem startsEntity_comma : StartsEntity (xs ++ ',' :: ys) ↔ StartsEntity xs := by
  refine ⟨?_, fun h => h.append _⟩
  rintro ⟨c, entity, hentity, hprefix⟩
  obtain ⟨-, -, -, hcomma⟩ := entity_eq_cons hentity
  exact ⟨c, entity, hentity, Text.prefix_of_notMem hcomma hprefix⟩

@[simp] theorem safe_nil : Safe [] :=
  ⟨by simp, by simp⟩

/-- The first character of a safe text stands for itself, or starts an entity. -/
theorem safe_cons : Safe (c :: cs) ↔ (entity? c = none ∨ StartsEntity (c :: cs)) ∧ Safe cs := by
  constructor
  · rintro ⟨hunmarked, hampersand⟩
    refine ⟨?_, fun d hd hmem => hunmarked d hd (List.mem_cons_of_mem c hmem),
      fun before after hcs => hampersand (c :: before) after (by rw [hcs]; rfl)⟩
    by_cases hc : c = '&'
    · subst hc
      exact .inr (hampersand [] cs rfl)
    · exact .inl (entity?_eq_none_iff.mpr ⟨fun hmem => hunmarked c hmem List.mem_cons_self, hc⟩)
  · rintro ⟨hc, hunmarked, hampersand⟩
    refine ⟨fun d hd hmem => ?_, fun before after hcs => ?_⟩
    · rcases List.mem_cons.mp hmem with rfl | hmem
      · rcases hc with hc | ⟨_, entity, hentity, hprefix⟩
        · exact (entity?_eq_none_iff.mp hc).1 hd
        · obtain ⟨tail, rfl, -⟩ := entity_eq_cons hentity
          obtain rfl := (List.cons_prefix_cons.mp hprefix).1
          exact absurd hd (by decide)
      · exact hunmarked d hd hmem
    · rcases before with _ | ⟨d, before⟩
      · obtain ⟨rfl, rfl⟩ := List.cons.inj hcs
        exact hc.resolve_left (by decide)
      · exact hampersand before after (List.cons.inj hcs).2

/-- Plain text is safe. -/
theorem safe_of_isPlain (h : isPlain cs = true) : Safe cs := by
  induction cs with
  | nil => exact safe_nil
  | cons c cs ih =>
    rw [isPlain, List.all_cons, Bool.and_eq_true, Option.isNone_iff_eq_none] at h
    exact safe_cons.mpr ⟨.inl h.1, ih h.2⟩

/-- Safe texts after each other are safe. -/
theorem Safe.append (hxs : Safe xs) (hys : Safe ys) : Safe (xs ++ ys) := by
  induction xs with
  | nil => exact hys
  | cons c xs ih =>
    obtain ⟨hc, hxs⟩ := safe_cons.mp hxs
    exact safe_cons.mpr ⟨hc.imp_right fun hstarts => hstarts.append ys, ih hxs⟩

/-- Every escaped text is safe. -/
theorem safe_escape (cs : List Char) : Safe (escape cs) := by
  induction cs with
  | nil => exact safe_nil
  | cons c cs ih =>
    rw [escape_cons]
    refine Safe.append ?_ ih
    rw [escapeChar]
    cases hc : entity? c with
    | none => exact safe_of_isPlain (by simp [isPlain, hc])
    | some entity =>
      obtain ⟨tail, rfl, htail, -⟩ := entity_eq_cons hc
      exact safe_cons.mpr ⟨.inr ⟨c, _, hc, List.prefix_refl _⟩, safe_of_isPlain htail⟩

/-- Escaping, which goes over the bytes of a text, writes every character as its entity or as
itself, and leaves the text as it is exactly when there is nothing to escape. Hence a text is
escaped piece by piece. What is written has neither quotes nor angle brackets, and its entities are
read back as the text, so that no two texts are written alike. -/
theorem escapeText_charwise (text other : String) :
    (scan? text.toList = some .same ↔ ∀ c ∈ text.toList, c ∉ marks) ∧
    ((∃ c ∈ text.toList, c ∈ marks) →
      scan? text.toList = some (.written (text.toList.flatMap escapeChar))) ∧
    (escapeText text).toList = text.toList.flatMap escapeChar ∧
    escapeText (text ++ other) = escapeText text ++ escapeText other ∧
    (∀ c ∈ ['"', '\'', '<', '>'], c ∉ (escapeText text).toList) ∧
    unescape (escapeText text).toList = text.toList ∧
    (escapeText text = escapeText other → text = other) := by
  have htext : ∀ text : String, (escapeText text).toList = escape text.toList := fun text => by
    rw [escapeText_eq, String.toList_ofList]
  have hback : ∀ text : String, unescape (escapeText text).toList = text.toList := fun text => by
    rw [htext, unescape_escape]
  have hsplit : escapeText (text ++ other) = escapeText text ++ escapeText other := by
    rw [← String.toList_inj, String.toList_append, htext, htext, htext, String.toList_append,
      escape_append]
  have hunmarked : ∀ c ∈ ['"', '\'', '<', '>'], c ∉ (escapeText text).toList := by
    rw [htext]
    exact (safe_escape text.toList).unmarked
  have hscan := scan?_eq text.toList
  refine ⟨?_, ?_, htext text, hsplit, hunmarked, hback text, fun hsame => ?_⟩
  · rw [hscan, ← isPlain_iff_notMem]
    split <;> simp [*]
  · rintro ⟨c, hc, hmark⟩
    rw [hscan, if_neg fun hplain => isPlain_iff_notMem.mp hplain c hc hmark]
    rfl
  · rw [← String.toList_inj, ← hback text, hsame, hback other]

/-- Characters of several bytes around characters of markup, and an ampersand that looks like the
start of an entity. -/
theorem escapeText_charwise_entity :
    (∃ c ∈ ['"', '\'', '<', '>'], c ∈ "é<ü>&lt;".toList) ∧
      (escapeText "é<ü>&lt;").toList = "é&lt;ü&gt;&amp;lt;".toList ∧
      unescape "é&lt;ü&gt;&amp;lt;".toList = "é<ü>&lt;".toList := by
  obtain ⟨-, -, htext, -, -, hback, -⟩ := escapeText_charwise "é<ü>&lt;" ""
  have hwritten : "é<ü>&lt;".toList.flatMap escapeChar = "é&lt;ü&gt;&amp;lt;".toList := by decide
  rw [htext, hwritten] at hback
  exact ⟨⟨'<', by decide, by decide⟩, htext.trans hwritten, hback⟩

/-- Texts with a comma between them are safe together exactly if each of them is. -/
theorem safe_comma : Safe (xs ++ ',' :: ys) ↔ Safe xs ∧ Safe ys := by
  induction xs with
  | nil =>
    have hcomma : entity? ',' = none := rfl
    simp [safe_cons, hcomma]
  | cons c xs ih =>
    rw [List.cons_append, safe_cons, safe_cons, ih, ← List.cons_append,
      startsEntity_comma, and_assoc]

/-- Texts between commas are safe together exactly if each is. -/
theorem safe_intercalate {texts : List String} :
    Safe (",".intercalate texts).toList ↔ ∀ text ∈ texts, Safe text.toList := by
  induction texts with
  | nil => simp
  | cons text texts ih =>
    cases texts with
    | nil => simp
    | cons next texts =>
      have hsplit : (",".intercalate (text :: next :: texts)).toList =
          text.toList ++ ',' :: (",".intercalate (next :: texts)).toList := by
        rw [String.intercalate_cons_cons, String.toList_append, String.toList_append,
          List.append_assoc]
        rfl
      rw [hsplit, safe_comma, ih, List.forall_mem_cons (l := next :: texts)]

/-! ### Numbers -/

/-- Plain text has no character with an entity. -/
theorem isPlain_iff : isPlain cs = true ↔ ∀ c ∈ cs, entity? c = none := by
  simp [isPlain]

/-- Digits are plain. -/
theorem isPlain_toDigits (n : Nat) : isPlain (Nat.toDigits 10 n) = true := by
  refine isPlain_iff.mpr fun c hc => ?_
  have hdigit := Nat.isDigit_of_mem_toDigits (by decide) (by decide) hc
  unfold entity?
  split
  all_goals first
    | rfl
    | exact absurd hdigit (by decide)

/-- A sign before plain text leaves it plain. -/
theorem isPlain_signed {negative : Prop} [Decidable negative] (h : isPlain cs = true) :
    isPlain (if negative then '-' :: cs else cs) = true := by
  split
  · rw [isPlain, List.all_cons]
    exact h
  · exact h

/-- Integers are written as plain text. -/
theorem isPlain_integerText (n : Int) : isPlain (Number.integerText n).toList = true := by
  rw [Number.integerText, String.toList_ofList]
  exact isPlain_signed (isPlain_toDigits n.natAbs)

/-- Digits with a point in between are plain. -/
theorem isPlain_placed (h : isPlain cs = true) (point : Int) :
    isPlain (Layout.placed cs point) = true := by
  have hzeros : ∀ n, isPlain (Layout.zeros n) = true := fun n =>
    isPlain_iff.mpr fun c hc => by rw [List.eq_of_mem_replicate hc]; rfl
  have happend : ∀ {xs ys : List Char}, isPlain xs = true → isPlain ys = true →
      isPlain (xs ++ ys) = true := fun hxs hys => by
    rw [isPlain, List.all_append, Bool.and_eq_true]
    exact ⟨hxs, hys⟩
  have hpart : ∀ {xs : List Char}, xs ⊆ cs → isPlain xs = true := fun hsubset =>
    isPlain_iff.mpr fun c hc => isPlain_iff.mp h c (hsubset hc)
  unfold Layout.placed
  split
  · exact happend (happend rfl (hzeros _)) h
  · split
    · exact happend h (hzeros _)
    · exact happend (happend (hpart (List.take_subset _ _)) rfl) (hpart (List.drop_subset _ _))

/-- A binary number is written as plain text. -/
theorem isPlain_writeBinary (negative : Bool) (mantissa : Nat) (exponent : Int) :
    isPlain (Layout.output.writeBinary negative mantissa exponent).toList = true := by
  have hwrite : ∀ d, isPlain (Layout.output.write d) = true := fun d => by
    refine isPlain_placed (isPlain_iff.mpr fun c hc => ?_) _
    have hc := (List.dropWhile_suffix _).subset (List.mem_reverse.mp hc)
    exact isPlain_iff.mp (isPlain_toDigits _) c (List.mem_reverse.mp hc)
  rw [Layout.writeBinary, String.toList_ofList]
  exact isPlain_signed (hwrite _)

/-- Doubles are written as plain text. -/
theorem isPlain_text (x : Float) : isPlain (Number.text x).toList = true := by
  unfold Number.text
  split
  · decide
  · split <;> decide
  · split
    · split
      · exact isPlain_integerText _
      · exact isPlain_writeBinary _ _ _
    · exact isPlain_writeBinary _ _ _

end Markup

namespace Value

open Markup

/-! ### Output that is safe as it is -/

mutual

/-- Nothing that the value shows is taken for markup, although nothing is escaped: a text that is
safe already, another scalar or `null`, a sequence of harmless items, or an empty record or map. -/
def Harmless : Value → Prop
  | .string text => Safe text.toList
  | .array _ items => AllHarmless items
  | .object _ fields => fields = []
  | .map _ entries => entries = []
  | .null | .bool _ | .int _ | .float _ => True

/-- All items of a sequence are harmless. -/
def AllHarmless : List Value → Prop
  | [] => True
  | item :: items => Harmless item ∧ AllHarmless items

end

/-- The name of a first field stands between quotes. -/
theorem not_safe_bracket_field (name text : String) (texts : List String) :
    ¬Safe (DataText.bracket "\x7b" "\x7d" (DataText.field name text :: texts)).toList := by
  intro hsafe
  refine hsafe.unmarked '"' List.mem_cons_self ?_
  have hquote : '"' ∈ (DataText.field name text).toList := by
    simp [DataText.field, DataText.quote]
  cases texts with
  | nil => simp [DataText.bracket, hquote]
  | cons next texts =>
    rw [DataText.bracket, String.intercalate_cons_cons]
    simp [hquote]

mutual

/-- The output of a value is safe exactly if the value is harmless. -/
theorem safe_output_iff : ∀ v : Value, Safe v.output.toList ↔ v.Harmless
  | .null => by simp [output, Harmless]
  | .bool b => by
    have hsafe : Safe (output (.bool b)).toList := by
      cases b <;> exact safe_of_isPlain (by decide)
    simp [hsafe, Harmless]
  | .int n => by simp [output, Harmless, safe_of_isPlain (isPlain_integerText n.toInt)]
  | .float x => by simp [output, Harmless, safe_of_isPlain (isPlain_text x)]
  | .string text => by rw [output, Harmless]
  | .array _ items => by rw [output, Harmless, safe_intercalate, safe_outputs_iff items]
  | .object _ [] => by
    have hempty : Safe (DataText.bracket "\x7b" "\x7d" []).toList := safe_of_isPlain (by decide)
    simp [output, dataFields, Harmless, hempty]
  | .object _ ((name, value) :: fields) => by
    simp [output, dataFields, Harmless, not_safe_bracket_field]
  | .map _ [] => by
    have hempty : Safe (DataText.bracket "\x7b" "\x7d" []).toList := safe_of_isPlain (by decide)
    simp [output, dataEntries, Harmless, hempty]
  | .map _ ((key, value) :: entries) => by
    simp [output, dataEntries, Harmless, not_safe_bracket_field]

/-- The outputs of the items are safe exactly if the items are harmless. -/
theorem safe_outputs_iff : ∀ items : List Value,
    (∀ text ∈ outputs items, Safe text.toList) ↔ AllHarmless items
  | [] => by simp [outputs, AllHarmless]
  | item :: items => by
    rw [outputs, AllHarmless, List.forall_mem_cons, safe_output_iff item, safe_outputs_iff items]

end

/-- A text is written with its entities. -/
theorem escapedOutput_string (text : String) :
    escapedOutput (.string text) = String.ofList (Markup.escape text.toList) :=
  escapeText_eq text

/-- What is no text, and is there at all, is written as it is. -/
theorem escapedOutput_of_text?_none {v : Value} (hnull : v ≠ .null) (htext : v.text? = none) :
    v.escapedOutput = v.output := by
  cases v with
  | null => exact absurd rfl hnull
  | string text => cases htext
  | bool | int | float | array | object | map => rfl

/-- What is written escaped is safe exactly for the texts and the harmless values. -/
theorem safe_escapedOutput_iff (v : Value) :
    Safe v.escapedOutput.toList ↔ v.text?.isSome ∨ v.Harmless := by
  cases v with
  | null => simp [escapedOutput, Builtin.escape, Arguments.get, output, text?, Harmless]
  | string text =>
    have hsafe : Safe (escapedOutput (.string text)).toList := by
      rw [escapedOutput_string, String.toList_ofList]
      exact safe_escape _
    simp [hsafe, text?]
  | bool | int | float | array | object | map =>
    refine (safe_output_iff _).trans ⟨.inr, fun h => h.resolve_left ?_⟩
    simp [text?]

end Value

namespace Source

variable {name : String}

/-! ### A template that is one tag -/

/-- A line that starts with two braces and a name, and ends with two braces, is a line of text, or
is taken for an else tag because the name starts like one. -/
theorem lineKind_cases (h : PlainName name) {line rest : List Char}
    (hline : line = opening ++ name.toList ++ rest ∨ line = opening ++ '~' :: name.toList ++ rest)
    (hends : closing <:+ line) :
    lineKind line = .text ∨ lineKind line = .branch ∧ "else".toList <+: name.toList ++ rest := by
  obtain ⟨c, cs, hcs⟩ := h.exists_cons
  have hne : ∀ {d more}, d ∈ ['~', '#', '^', '/'] → name.toList ++ rest ≠ d :: more := by
    intro d more hd hname
    rw [hcs] at hname
    obtain rfl := (List.cons.inj hname).1
    have hhead : name.toList.head? = some c := by rw [hcs]; rfl
    simp only [List.mem_cons, List.not_mem_nil, or_false] at hd
    rcases hd with rfl | rfl | rfl | rfl
    · exact h.notMem (by decide) (List.mem_of_head? hhead)
    · exact h.ne_sigil '#' (by simp) hhead
    · exact h.ne_sigil '^' (by simp) hhead
    · exact h.ne_slash hhead
  have htag : tagLine? line = some (name.toList ++ rest) := by
    have hsuffix := List.isSuffixOf_iff_suffix.mpr hends
    rcases hline with rfl | rfl
    · exact (if_pos hsuffix).trans (congrArg some (by split <;> simp_all))
    · exact if_pos hsuffix
  unfold lineKind
  rw [htag]
  split
  · next hname => exact absurd (Option.some.inj hname) (hne (by simp))
  · next hname => exact absurd (Option.some.inj hname) (hne (by simp))
  · next more hname => exact .inr ⟨rfl, more, (Option.some.inj hname).symm⟩
  · next hname => exact absurd (Option.some.inj hname) (hne (by simp))
  · next hname => exact absurd (Option.some.inj hname) (hne (by simp))
  · exact .inl rfl

/-- A line that is nothing but the tag of a name is a line of text, unless the name starts like an
else tag. -/
theorem lineKind_valueTag (h : PlainName name) (helse : ¬"else".toList <+: name.toList) :
    lineKind (valueTag name) = .text := by
  rcases lineKind_cases h (.inl rfl) ⟨_, rfl⟩ with htext | ⟨-, hprefix⟩
  · exact htext
  · exact absurd (Text.prefix_of_notMem (by decide) hprefix) helse

/-- A name that may stand in a tag. -/
theorem plainName_x : PlainName "x" := by
  refine ⟨⟨by decide, rfl, rfl, rfl, by decide, by decide, by decide⟩, ?_, by decide⟩
  rintro c hc ⟨⟩
  exact absurd hc (by decide)

/-- The tag of a name has no line breaks and no trim marks to carry out. -/
theorem fold_valueTag (h : PlainName name) (helse : ¬"else".toList <+: name.toList) :
    fold (String.ofList (valueTag name)) = String.ofList (valueTag name) := by
  have hnotMem : ∀ c, Term.isWordChar c = false → c ∉ opening → c ∉ closing →
      c ∉ valueTag name := by
    intro c hword hopening hclosing hmem
    simp [valueTag, hopening, hclosing, h.notMem hword] at hmem
  have hends : Text.trim (valueTag name) = valueTag name := by
    refine Text.trim_of_ends ?_ (isBlank_getLast?_closing _)
    rw [valueTag, List.append_assoc]
    exact isBlank_head?_opening _
  refine fold_of_line ?_ ?_ ?_ <;> rw [String.toList_ofList]
  · exact hnotMem _ (by decide) (by decide) (by decide)
  · exact hnotMem _ (by decide) (by decide) (by decide)
  · rw [hends]
    exact lineKind_valueTag h helse

/-- A template of one value tag is read as the field of its name. -/
theorem readFolded_valueTag (h : PlainName name) (helse : ¬"else".toList <+: name.toList)
    {isOperation : String → Bool} (hoperation : isOperation name = false) :
    readFolded (String.ofList (valueTag name)) {} isOperation = .ok (fieldExpr true name) := by
  have hlast : ([] : List Char).getLast? ≠ some '\x7b' := by simp
  have hread := read_valueTag h hoperation rfl hlast (rfl : Text.breakAt opening [] = none)
  rw [List.nil_append, List.append_nil, fieldBetween_nil] at hread
  rw [readFolded, fold_valueTag h helse, hread]

end Source

namespace Engine

open Source

/-- A template that writes one field renders it escaped, in every strategy: `null` as the empty
text, a text with its entities, and the output of every other value as it is. What is rendered is
safe inside markup for every text and every harmless value, and for no other one. -/
theorem escaped_field (engine : Engine) (h : engine.Interpolates) {name : String}
    (hname : PlainName name) (helse : ¬"else".toList <+: name.toList)
    (hoperation : engine.hasOperation name = false) :
    engine.Yields (String.ofList (valueTag name)) (fun data => (data.read [name]).escapedOutput) ∧
      Value.escapedOutput .null = "" ∧
      (∀ text, Value.escapedOutput (.string text) = String.ofList (Markup.escape text.toList)) ∧
      (∀ v : Value, v ≠ .null → v.text? = none → v.escapedOutput = v.output) ∧
      ∀ v : Value, Markup.Safe v.escapedOutput.toList ↔ v.text?.isSome ∨ v.Harmless := by
  have hread : engine.read (String.ofList (valueTag name)) {} = .ok (fieldExpr true name) := by
    rw [read, readFolded_valueTag hname helse hoperation]
    rfl
  exact ⟨(Writes.escape h ⟨[name]⟩).yields hread, rfl, Value.escapedOutput_string,
    fun v => Value.escapedOutput_of_text?_none, Value.safe_escapedOutput_iff⟩

/-- A text is rendered with its entities. -/
theorem escaped_field_text :
    let engine : Engine := {}
    let data : Value := .object (.outer 0) [("x", .string "<&")]
    PlainName "x" ∧ ∃ e T F', engine.read "\x7b\x7bx\x7d\x7d" {} = .ok e ∧
      engine.buildTemplate 0 .compiledAsync e {} = some (.ok T, {}) ∧
      T.render engine 1 data {} = some (.ok "&lt;&amp;", F') ∧ Markup.Safe "&lt;&amp;".toList := by
  intro engine data
  refine ⟨plainName_x, ?_⟩
  obtain ⟨⟨e, hread, hbuilds⟩, -, -, -, hsafe⟩ :=
    escaped_field engine ⟨rfl, rfl⟩ plainName_x (by decide) rfl
  obtain ⟨T, hbuild, hrenders⟩ := hbuilds .compiledAsync 0 {}
  obtain ⟨F', hrender⟩ := hrenders 0 data {}
  exact ⟨e, T, F', hread, hbuild, hrender, (hsafe (.string "<&")).mpr (.inl rfl)⟩

/-- The item of a sequence is not escaped. -/
theorem escaped_field_fails :
    let engine : Engine := {}
    let data : Value := .object (.outer 0) [("x", .array (.outer 1) [.string "<"])]
    ∀ strategy, ∃ e T F', engine.read "\x7b\x7bx\x7d\x7d" {} = .ok e ∧
      engine.buildTemplate 0 strategy e {} = some (.ok T, {}) ∧
      T.render engine 1 data {} = some (.ok "<", F') ∧ ¬Markup.Safe "<".toList := by
  intro engine data strategy
  have hunsafe : ¬Markup.Safe "<".toList := fun hsafe => hsafe.unmarked '<' (by simp) (by simp)
  obtain ⟨_ | _, _ | _⟩ := strategy <;> exact ⟨_, _, _, rfl, rfl, rfl, hunsafe⟩

end Engine

end Stencil
