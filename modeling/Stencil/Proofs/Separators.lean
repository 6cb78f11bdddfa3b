import Mathlib.Data.List.Chain
import Stencil.Proofs.Fallback

/-!
# Points and slashes in upward paths

A path that is read from the current context may have points and slashes between its segments, and a
block parameter is recognised before either. An upward read cuts its path at points alone: segments
with a slash between them are one name to it. So a path with a slash, once it starts with a block
parameter, is looked up in the scopes around it under a name that no block binds.

## Main results

* `Scope.lookup_written`: what an upward read makes of a path.
* `WrittenPath.pathExpr_text`: a path that starts with a block parameter is read upward, whatever
  separates its segments.
* `Scope.lookup_separators`: a path is looked up as with points when it has no slash, and in no
  other case.
-/

namespace Stencil

/-! ### Written paths -/

/-- A segment of a path. It is not empty, and nothing in it separates segments. -/
structure Segment where
  chars : List Char
  ne_nil : chars ≠ []
  single : ∀ c ∈ chars, Path.isSeparator c = false

namespace Segment

/-- The name of a segment. -/
def name (segment : Segment) : String :=
  String.ofList segment.chars

/-- A segment has no separators. -/
theorem notMem (segment : Segment) {c : Char} (hc : Path.isSeparator c = true) :
    c ∉ segment.chars := fun hmem => by
  rw [segment.single c hmem] at hc
  cases hc

end Segment

/-- What stands between two segments. -/
inductive Separator where
  | point
  | slash
  deriving DecidableEq

/-- The character of a separator. -/
def Separator.char : Separator → Char
  | point => '.'
  | slash => '/'

/-- The character of a separator separates. -/
theorem Separator.isSeparator_char (separator : Separator) :
    Path.isSeparator separator.char = true := by
  cases separator <;> rfl

/-- A path as it is written: steps upward, a segment, and further ones after separators. -/
structure WrittenPath where
  ups : Nat
  first : Segment
  rest : List (Separator × Segment)
  first_ne_this : first.chars ≠ ['t', 'h', 'i', 's']

/-- Further segments with the separators before them. -/
def written (rest : List (Separator × Segment)) : List Char :=
  rest.flatMap fun (separator, segment) => separator.char :: segment.chars

/-- The pieces between the points of segments that go on after `piece`. -/
def pointed (piece : List Char) : List (Separator × Segment) → List (List Char)
  | [] => [piece]
  | (.point, segment) :: rest => piece :: pointed segment.chars rest
  | (.slash, segment) :: rest => pointed (piece ++ '/' :: segment.chars) rest

namespace WrittenPath

/-- The characters of a path as it is written. -/
def chars (p : WrittenPath) : List Char :=
  p.first.chars ++ written p.rest

/-- A path as it is written. -/
def text (p : WrittenPath) : String :=
  String.ofList ((List.replicate p.ups ['.', '.', '/']).flatten ++ p.chars)

/-- The path with a point in the place of every slash. -/
def dotted (p : WrittenPath) : WrittenPath :=
  { p with rest := p.rest.map fun (_, segment) => (.point, segment) }

/-- The names that an upward read takes the path for: slashes do not separate them. -/
def names (p : WrittenPath) : List String :=
  (pointed p.first.chars p.rest).map String.ofList

end WrittenPath

/-! ### Cutting at points -/

namespace Text

/-- A piece ends at the separator after it. -/
theorem splitOn_append {sep : Char → Bool} {piece : List Char} (h : ∀ c ∈ piece, sep c = false)
    {c : Char} (hc : sep c = true) (cs : List Char) :
    splitOn sep (piece ++ c :: cs) = piece :: splitOn sep cs := by
  induction piece with
  | nil => rw [List.nil_append, splitOn, if_pos hc]
  | cons d piece ih =>
    rw [List.forall_mem_cons] at h
    rw [List.cons_append, splitOn, h.1, ih h.2]
    rfl

end Text

/-- Written segments are split at points into their pointed pieces. -/
theorem splitOn_written {piece : List Char} (h : '.' ∉ piece) (rest : List (Separator × Segment)) :
    Text.splitOn (· == '.') (piece ++ written rest) = pointed piece rest := by
  have hsep : ∀ {piece : List Char}, '.' ∉ piece → ∀ c ∈ piece, (c == '.') = false := by
    intro piece h c hc
    rw [beq_eq_false_iff_ne]
    rintro rfl
    exact h hc
  induction rest generalizing piece with
  | nil =>
    rw [written, List.flatMap_nil, List.append_nil]
    exact Text.splitOn_of_forall (hsep h)
  | cons head rest ih =>
    obtain ⟨separator, segment⟩ := head
    have hsegment : '.' ∉ segment.chars := segment.notMem rfl
    cases separator with
    | point =>
      have hcut := Text.splitOn_append (hsep h) (c := '.') rfl (segment.chars ++ written rest)
      rw [ih hsegment] at hcut
      exact hcut
    | slash =>
      have hpiece : '.' ∉ piece ++ '/' :: segment.chars := by simp [h, hsegment]
      have hcut := ih hpiece
      rw [List.append_assoc] at hcut
      exact hcut

/-! ### Steps in a path -/

namespace Scope

/-- No two separators meet, so no step stands in the path. -/
theorem dropUp_of_absent {cs : List Char} (h : ¬['.', '/'] <:+: cs) : dropUp cs = cs := by
  fun_induction dropUp cs with
  | case1 cs ih => exact absurd ⟨['.'], cs, rfl⟩ h
  | case2 c cs _ ih => rw [ih fun hstep => h (hstep.trans (List.infix_cons (List.infix_refl cs)))]
  | case3 => rfl

/-- Without steps that stay nothing is dropped. -/
theorem dropStay_of_absent {cs : List Char} (h : ¬['.', '/'] <:+: cs) : dropStay cs = cs := by
  fun_induction dropStay cs with
  | case1 cs ih => exact absurd ⟨[], cs, rfl⟩ h
  | case2 c cs _ ih => rw [ih fun hstep => h (hstep.trans (List.infix_cons (List.infix_refl cs)))]
  | case3 => rfl

/-- Steps up are dropped. -/
theorem dropUp_ups (ups : Nat) (cs : List Char) :
    dropUp ((List.replicate ups ['.', '.', '/']).flatten ++ cs) = dropUp cs := by
  induction ups with
  | zero => rfl
  | succ ups ih =>
    rw [List.replicate_succ, List.flatten_cons, List.append_assoc]
    exact ih

end Scope

/-- No two characters that separate segments meet. -/
def Sparse (cs : List Char) : Prop :=
  cs.IsChain fun c d => ¬(Path.isSeparator c = true ∧ Path.isSeparator d = true)

/-- A sparse text has no step that stays. -/
theorem Sparse.absent {cs : List Char} (h : Sparse cs) : ¬['.', '/'] <:+: cs := fun hstep => by
  have hpair : Sparse ['.', '/'] := List.IsChain.infix h hstep
  simp [Sparse, Path.isSeparator] at hpair

/-- A segment is sparse. -/
theorem sparse_segment (segment : Segment) : Sparse segment.chars := by
  have h := segment.single
  generalize segment.chars = cs at h
  induction cs with
  | nil => exact .nil
  | cons c cs ih =>
    rw [List.forall_mem_cons] at h
    refine List.isChain_cons.mpr ⟨fun d _ hboth => ?_, ih h.2⟩
    rw [h.1] at hboth
    cases hboth.1

/-- A separator stands between two segments, which are not empty. -/
theorem sparse_written (segment : Segment) (rest : List (Separator × Segment)) :
    Sparse (segment.chars ++ written rest) := by
  have hsingle : ∀ (segment : Segment) (cs : List Char), ∀ c ∈ segment.chars, ∀ d ∈ cs.head?,
      ¬(Path.isSeparator c = true ∧ Path.isSeparator d = true) := by
    intro segment cs c hc d _ hboth
    rw [segment.single c hc] at hboth
    cases hboth.1
  induction rest generalizing segment with
  | nil =>
    rw [written, List.flatMap_nil, List.append_nil]
    exact sparse_segment segment
  | cons head rest ih =>
    obtain ⟨separator, next⟩ := head
    refine List.isChain_append.mpr ⟨sparse_segment segment, ?_, fun c hc =>
      hsingle segment _ c (List.mem_of_mem_getLast? hc)⟩
    refine List.isChain_cons.mpr ⟨fun d hd hboth => ?_, ih next⟩
    obtain ⟨e, more, hnext⟩ := List.exists_cons_of_ne_nil next.ne_nil
    obtain rfl : e = d := by simpa [hnext] using hd
    rw [next.single e (by rw [hnext]; exact List.mem_cons_self)] at hboth
    cases hboth.2

/-- The first segment goes up to the first separator. -/
theorem takeWhile_written (segment : Segment) (rest : List (Separator × Segment)) :
    (segment.chars ++ written rest).takeWhile (fun c => !Path.isSeparator c) = segment.chars := by
  have hsegment : ∀ c ∈ segment.chars, (!Path.isSeparator c) = true := fun c hc => by
    rw [segment.single c hc]
    rfl
  cases rest with
  | nil =>
    rw [written, List.flatMap_nil, List.append_nil]
    exact List.takeWhile_eq_self_iff.mpr hsegment
  | cons head rest =>
    obtain ⟨separator, next⟩ := head
    have hseparator : (!Path.isSeparator separator.char) = false := by
      rw [separator.isSeparator_char]
      rfl
    show (segment.chars ++ separator.char :: (next.chars ++ written rest)).takeWhile _ = _
    rw [List.takeWhile_append_of_pos hsegment, List.takeWhile_cons, hseparator]
    simp

/-! ### Upward reads of written paths -/

namespace WrittenPath

variable (p : WrittenPath)

/-- The characters before the first separator are the first segment. -/
theorem takeWhile_chars : p.chars.takeWhile (fun c => !Path.isSeparator c) = p.first.chars :=
  takeWhile_written p.first p.rest

/-- The steps are dropped, and nothing else is. -/
theorem soughtName_text : Scope.soughtName p.text = p.chars := by
  have habsent : ¬['.', '/'] <:+: p.chars := (sparse_written p.first p.rest).absent
  unfold Scope.soughtName
  rw [text, String.toList_ofList, Scope.dropUp_ups, Scope.dropUp_of_absent habsent,
    Scope.dropStay_of_absent habsent]
  split
  · next cs hchars =>
    have hfirst := p.takeWhile_chars
    rw [hchars] at hfirst
    exact absurd hfirst.symm p.first_ne_this
  · rfl

/-- The path leads away from the context itself. -/
theorem chars_ne_here : ¬(p.chars = [] ∨ p.chars = ['t', 'h', 'i', 's'] ∨ p.chars = ['.']) := by
  have hfirst := p.takeWhile_chars
  rintro (h | h | h) <;> rw [h] at hfirst
  · exact p.first.ne_nil hfirst.symm
  · exact p.first_ne_this hfirst.symm
  · exact p.first.ne_nil hfirst.symm

end WrittenPath

/-- The value of the first name, and what the others lead to from there. -/
def Scope.lookupNames (s : Scope) : List String → Value
  | [] => .null
  | first :: rest => ((s.find? first).map (·.read rest)).getD .null

/-- An upward read follows the names between the points of its path. -/
theorem Scope.lookup_written (s : Scope) (p : WrittenPath) :
    s.lookup p.text = s.lookupNames p.names := by
  have hnames : (Text.splitOn (· == '.') p.chars).map String.ofList = p.names :=
    congrArg (List.map String.ofList) (splitOn_written (p.first.notMem rfl) p.rest)
  unfold lookup
  rw [p.soughtName_text, if_neg p.chars_ne_here, hnames]
  rfl

/-! ### Paths with and without slashes -/

/-- There is one piece more than there are points. -/
theorem length_pointed (piece : List Char) (rest : List (Separator × Segment)) :
    (pointed piece rest).length = rest.countP (·.1 = .point) + 1 := by
  induction rest generalizing piece with
  | nil => rfl
  | cons head rest ih =>
    obtain ⟨separator, segment⟩ := head
    cases separator <;> simp [pointed, ih]

/-- When the first piece is not empty, none is. -/
theorem pointed_ne_nil {piece : List Char} (h : piece ≠ []) (rest : List (Separator × Segment)) :
    [] ∉ pointed piece rest := by
  induction rest generalizing piece with
  | nil => simpa [pointed] using Ne.symm h
  | cons head rest ih =>
    obtain ⟨separator, segment⟩ := head
    cases separator with
    | point => simp [pointed, Ne.symm h, ih segment.ne_nil]
    | slash => exact ih (by simp)

namespace WrittenPath

variable (p : WrittenPath)

/-- Whether only points separate the segments. -/
def IsDotted : Prop :=
  ∀ part ∈ p.rest, part.1 = .point

/-- A dotted path is its own dotted form. -/
theorem dotted_eq (h : p.IsDotted) : p.dotted = p := by
  have hrest : p.rest.map (fun (_, segment) => (Separator.point, segment)) = p.rest := by
    conv_rhs => rw [← List.map_id p.rest]
    exact List.map_congr_left fun part hm => Prod.ext (h part hm).symm rfl
  rw [dotted, hrest]

/-- A slash makes one name out of two segments. -/
theorem isDotted_of_names_eq (h : p.names = p.dotted.names) : p.IsDotted := by
  have hlength := congrArg List.length h
  simp only [names, List.length_map, length_pointed, dotted, List.countP_map] at hlength
  have hall : p.rest.countP (fun part => part.1 = .point) = p.rest.length := by
    simpa [Function.comp_def] using hlength
  intro part hm
  simpa using List.countP_eq_length.mp hall part hm

/-- The names of a written path are not empty. -/
theorem names_ne_empty : "" ∉ p.names := by
  intro hm
  obtain ⟨piece, hpiece, hempty⟩ := List.mem_map.mp hm
  obtain rfl := String.ofList_eq_empty_iff.mp hempty
  exact pointed_ne_nil p.first.ne_nil p.rest hpiece

end WrittenPath

/-- The value that has `true` under some names, and nothing else. -/
def Value.nested : List String → Value
  | [] => .bool true
  | name :: names => .object .new [(name, nested names)]

/-- What is nested is truthy. -/
theorem Value.truthy_nested (names : List String) : (nested names).truthy = true := by
  cases names <;> rfl

/-- No other names lead to the value that is nested under some. -/
theorem Value.read_nested {names path : List String} (h : "" ∉ path)
    (hread : (nested names).read path = .bool true) : path = names := by
  induction path generalizing names with
  | nil =>
    cases names with
    | nil => rfl
    | cons name names => cases hread
  | cons segment path ih =>
    rw [List.mem_cons, not_or] at h
    have hsegment : ¬segment.isEmpty := by simpa using Ne.symm h.1
    rw [read, if_neg hsegment] at hread
    cases names with
    | nil =>
      simp only [nested, get?] at hread
      split at hread <;> cases hread
    | cons name names =>
      by_cases hname : name = segment
      · subst hname
        simp only [nested, get?, Keyed.find?, if_true] at hread
        rw [ih h.2 hread]
      · simp only [nested, get?, Keyed.find?, hname, if_false] at hread
        split at hread <;> cases hread

/-- What is nested under names is read by them. -/
theorem Value.read_nested_self {names : List String} (h : "" ∉ names) :
    (nested names).read names = .bool true := by
  induction names with
  | nil => rfl
  | cons name names ih =>
    rw [List.mem_cons, not_or] at h
    have hname : ¬name.isEmpty := by simpa using Ne.symm h.1
    rw [read, if_neg hname]
    simp only [nested, get?, Keyed.find?, if_true]
    exact ih h.2

/-- An upward read finds the nested value under its names alone. -/
theorem Scope.lookupNames_nested {names path : List String} (hne : path ≠ []) (h : "" ∉ path) :
    (root (.nested names)).lookupNames path = .bool true ↔ path = names := by
  obtain ⟨first, rest, rfl⟩ := List.exists_cons_of_ne_nil hne
  have hrest : "" ∉ rest := fun hm => h (List.mem_cons_of_mem first hm)
  rw [lookupNames, find?_root]
  cases names with
  | nil => simp [Value.nested, Value.get?]
  | cons name names =>
    by_cases hname : name = first
    · subst hname
      simp only [Value.nested, Value.get?, Keyed.find?, if_true, Option.bind_some,
        Value.filterTruthy, Value.truthy_nested, Option.map_some, Option.getD_some,
        List.cons.injEq, true_and]
      exact ⟨Value.read_nested hrest, fun heq => heq ▸ Value.read_nested_self hrest⟩
    · simp [Value.nested, Value.get?, Keyed.find?, hname, Ne.symm hname]

/-! ### Block parameters -/

namespace WrittenPath

variable (p : WrittenPath)

/-- The first segment of a path without steps up is its first name. -/
theorem firstSegment_text (h : p.ups = 0) : Source.firstSegment p.text = p.first.name := by
  rw [Source.firstSegment, text, h, String.toList_ofList]
  exact congrArg String.ofList p.takeWhile_chars

/-- A path that is written without steps up has nothing after `this`. -/
theorem afterThis?_text (h : p.ups = 0) : Source.afterThis? p.text = none := by
  have hfirst := p.takeWhile_chars
  unfold Source.afterThis?
  rw [text, h, String.toList_ofList, List.replicate_zero, List.flatten_nil, List.nil_append]
  split
  · next c rest hchars =>
    have hword : ∀ d ∈ ['t', 'h', 'i', 's'], (!Path.isSeparator d) = true :=
      List.all_eq_true.mp rfl
    rw [if_neg]
    intro hc
    refine p.first_ne_this (hfirst.symm.trans ?_)
    rw [hchars]
    show (['t', 'h', 'i', 's'] ++ c :: rest).takeWhile _ = _
    rw [List.takeWhile_append_of_pos hword, List.takeWhile_cons, hc]
    rfl
  · rfl

/-- A path that starts with a block parameter is read in all scopes, whatever separates its
segments. -/
theorem pathExpr_text {naming : Source.Naming} (hups : p.ups = 0)
    (hparam : p.first.name ∈ naming.params) (hplace : p.first.chars.head? ≠ some '@') :
    naming.pathExpr p.text = Source.lookupExpr p.text := by
  have hchars : p.text.toList = p.chars := by
    rw [text, hups, String.toList_ofList]
    rfl
  have hthis : ¬(p.text = "this" ∨ p.text = ".") := by
    rintro (h | h) <;> rw [h] at hchars
    · exact p.chars_ne_here (.inr (.inl hchars.symm))
    · exact p.chars_ne_here (.inr (.inr hchars.symm))
  have hat : Source.startsWith "@" p.text = false := by
    obtain ⟨c, cs, hfirst⟩ := List.exists_cons_of_ne_nil p.first.ne_nil
    have hc : '@' ≠ c := by
      rintro rfl
      exact hplace (by rw [hfirst]; rfl)
    rw [Source.startsWith, hchars, chars, hfirst]
    simp [List.isPrefixOf, hc]
  unfold Source.Naming.pathExpr
  rw [if_neg hthis, hat, p.afterThis?_text hups, p.firstSegment_text hups]
  simp [hparam]

end WrittenPath

/-- An upward read takes slashes for parts of names: a path is looked up in every scope as the path
with points between all of its segments, exactly when it has no slash. A path that starts with a
block parameter is read upward all the same, with slashes as with points. -/
theorem Scope.lookup_separators (p : WrittenPath) :
    ((∀ s : Scope, s.lookup p.text = s.lookup p.dotted.text) ↔ p.IsDotted) ∧
    ∀ naming : Source.Naming,
      p.ups = 0 → p.first.name ∈ naming.params → p.first.chars.head? ≠ some '@' →
      naming.pathExpr p.text = Source.lookupExpr p.text ∧
        naming.pathExpr p.dotted.text = Source.lookupExpr p.dotted.text := by
  refine ⟨⟨fun h => ?_, fun h s => by rw [p.dotted_eq h]⟩, fun naming hups hparam hplace =>
    ⟨p.pathExpr_text hups hparam hplace, p.dotted.pathExpr_text hups hparam hplace⟩⟩
  have hne : ∀ q : WrittenPath, q.names ≠ [] := fun q hnil => by
    have hlength := congrArg List.length hnil
    simp [WrittenPath.names, length_pointed] at hlength
  have hroot := h (root (.nested p.dotted.names))
  rw [lookup_written, lookup_written,
    (lookupNames_nested (hne p.dotted) p.dotted.names_ne_empty).mpr rfl] at hroot
  exact p.isDotted_of_names_eq ((lookupNames_nested (hne p) p.names_ne_empty).mp hroot)

/-- The name of a block parameter, with a slash. -/
def slashedField : WrittenPath where
  ups := 0
  first := ⟨['x'], by decide, by simp [Path.isSeparator]⟩
  rest := [(.slash, ⟨['n', 'a', 'm', 'e'], by decide, by simp [Path.isSeparator]⟩)]
  first_ne_this := by decide

/-- A slash separates otherwise than a point does, also below a block parameter. -/
theorem Scope.lookup_separators_slashed :
    (¬∀ s : Scope, s.lookup "x/name" = s.lookup "x.name") ∧
    (Source.Naming.mk {} (fun _ => false) ["x"]).pathExpr "x/name" =
      Source.lookupExpr "x/name" := by
  have h := lookup_separators slashedField
  refine ⟨fun hall => ?_, (h.2 ⟨{}, fun _ => false, ["x"]⟩ rfl (by decide) (by decide)).1⟩
  have hdotted := h.1.mp hall _ List.mem_cons_self
  cases hdotted

/-- A block parameter with a field: the path with a point reads the field, and the path with a slash
reads nothing. -/
theorem Scope.slash_reads_null :
    let s := (Scope.root .null).enter .null [("x", .object .new [("name", .string "a")])]
    s.lookup "x.name" = .string "a" ∧ s.lookup "x/name" = .null :=
  ⟨rfl, rfl⟩

end Stencil
