import Stencil.Path

/-!
# Two ways of reading a path with points

The parts of a value are read in two ways. One drops the empty segments of a path before it walks,
the other walks over them and stays at each. Both come to the same part, wherever empty segments
stand.

They differ in what they count. The last segment `length` counts what has no such part, and a walk
that stays at empty segments takes it for the last one only if none of them come after it. So a path
that ends in `length` and points leads to a count in one way and to nothing in the other.

## Main results

* `Value.read_filter_eq_iff`: when empty segments make no difference.
* `Path.segments_ofText`: the segments that a path with points is read by.
* `Value.readDotted_eq_resolve_iff`: when both ways come to the same value.
-/

namespace Stencil

namespace Text

/-- Separators that agree on a text split it in the same way. -/
theorem splitOn_congr {sep sep' : Char → Bool} {cs : List Char} (h : ∀ c ∈ cs, sep c = sep' c) :
    splitOn sep cs = splitOn sep' cs := by
  induction cs with
  | nil => rfl
  | cons c cs ih =>
    rw [List.forall_mem_cons] at h
    rw [splitOn, splitOn, h.1, ih h.2]

end Text

namespace Value

/-! ### Empty segments -/

/-- The names lead to something that could be counted, with only empty segments behind the name
that asks for its count. -/
def CountMissed (v : Value) (names : List String) (count : Value) : Prop :=
  ∃ before blanks, names = before ++ "length" :: blanks ∧
    (blanks ≠ [] ∧ ∀ name ∈ blanks, name = "") ∧ (v.read before).get? "length" = none ∧
      (v.read before).count = count ∧ count ≠ .null

/-- A name that leads on is walked. -/
theorem read_cons_of_some {v part : Value} {name : String} (hname : name ≠ "")
    (h : v.get? name = some part) (names : List String) :
    v.read (name :: names) = part.read names := by
  rw [read, if_neg (by simpa using hname), h]

/-- Where a name leads to nothing, at most its count is read. -/
theorem read_cons_of_none {v : Value} {name : String} (hname : name ≠ "")
    (h : v.get? name = none) (names : List String) :
    v.read (name :: names) = if name = "length" ∧ names = [] then v.count else .null := by
  rw [read, if_neg (by simpa using hname), h]

/-- A count cannot be counted. -/
theorem count_count (v : Value) : v.count.count = .null := by
  cases v <;> rfl

/-- No name is left exactly if all are empty. -/
theorem filter_eq_nil_iff {names : List String} :
    names.filter (!·.isEmpty) = [] ↔ ∀ name ∈ names, name = "" := by
  simp [List.filter_eq_nil_iff]

section CountMissed

variable {v count : Value} {names : List String}

/-- Without names no count is missed. -/
theorem not_countMissed_nil : ¬CountMissed v [] count := by
  rintro ⟨before, blanks, hnames, -⟩
  simp at hnames

/-- Empty names before it do not matter for a missed count. -/
theorem countMissed_cons_empty : CountMissed v ("" :: names) count ↔ CountMissed v names count := by
  constructor
  · rintro ⟨before, blanks, hnames, hrest⟩
    cases before with
    | nil => exact absurd (List.cons.inj hnames).1 (by decide)
    | cons name before =>
      obtain ⟨rfl, rfl⟩ := List.cons.inj hnames
      exact ⟨before, blanks, rfl, hrest⟩
  · rintro ⟨before, blanks, rfl, hrest⟩
    exact ⟨"" :: before, blanks, rfl, hrest⟩

/-- A count is missed behind a name that leads on exactly if it is missed in the part. -/
theorem countMissed_cons_of_some {part : Value} {name : String} (hname : name ≠ "")
    (h : v.get? name = some part) :
    CountMissed v (name :: names) count ↔ CountMissed part names count := by
  constructor
  · rintro ⟨before, blanks, hnames, hblanks, hnone, hcount⟩
    cases before with
    | nil =>
      obtain ⟨rfl, -⟩ := List.cons.inj hnames
      exact absurd (h.symm.trans hnone) nofun
    | cons name' before =>
      obtain ⟨rfl, rfl⟩ := List.cons.inj hnames
      rw [read_cons_of_some hname h] at hnone hcount
      exact ⟨before, blanks, rfl, hblanks, hnone, hcount⟩
  · rintro ⟨before, blanks, rfl, hrest⟩
    refine ⟨name :: before, blanks, rfl, ?_⟩
    rwa [read_cons_of_some hname h]

/-- A count is missed at a name that leads to nothing exactly if the name asks for it and only empty
segments follow. -/
theorem countMissed_cons_of_none {name : String} (hname : name ≠ "") (h : v.get? name = none) :
    CountMissed v (name :: names) count ↔
      name = "length" ∧ (names ≠ [] ∧ ∀ name ∈ names, name = "") ∧
        v.count = count ∧ count ≠ .null := by
  constructor
  · rintro ⟨before, blanks, hnames, hblanks, hnone, hcount, hnull⟩
    cases before with
    | nil =>
      obtain ⟨rfl, rfl⟩ := List.cons.inj hnames
      exact ⟨rfl, hblanks, hcount, hnull⟩
    | cons name' before =>
      -- The walk has ended before, at a count or at nothing.
      obtain ⟨rfl, rfl⟩ := List.cons.inj hnames
      rw [read_cons_of_none hname h] at hcount
      split at hcount
      · exact absurd (hcount.symm.trans (count_count v)) hnull
      · exact absurd hcount.symm hnull
  · rintro ⟨rfl, hnames, hcount⟩
    exact ⟨[], names, rfl, hnames, h, hcount⟩

/-- A missed count is read as nothing, and is found when the empty segments are dropped. -/
theorem CountMissed.read_eq (h : CountMissed v names count) :
    v.read names = .null ∧ v.read (names.filter (!·.isEmpty)) = count := by
  induction names generalizing v with
  | nil => exact absurd h not_countMissed_nil
  | cons name names ih =>
    by_cases hname : name = ""
    · subst hname
      exact ih (countMissed_cons_empty.mp h)
    · rw [List.filter_cons_of_pos (by simpa using hname)]
      cases hpart : v.get? name with
      | some part =>
        rw [read_cons_of_some hname hpart, read_cons_of_some hname hpart]
        exact ih ((countMissed_cons_of_some hname hpart).mp h)
      | none =>
        obtain ⟨rfl, ⟨hnames, hblank⟩, hcount, -⟩ := (countMissed_cons_of_none hname hpart).mp h
        rw [read_cons_of_none hname hpart, read_cons_of_none hname hpart,
          filter_eq_nil_iff.mpr hblank, if_neg (fun hand => hnames hand.2), if_pos ⟨rfl, rfl⟩]
        exact ⟨rfl, hcount⟩

/-- Otherwise empty segments make no difference. -/
theorem read_filter_of_not_countMissed (h : ∀ count, ¬CountMissed v names count) :
    v.read (names.filter (!·.isEmpty)) = v.read names := by
  induction names generalizing v with
  | nil => rfl
  | cons name names ih =>
    by_cases hname : name = ""
    · subst hname
      exact ih fun count => mt countMissed_cons_empty.mpr (h count)
    · rw [List.filter_cons_of_pos (by simpa using hname)]
      cases hpart : v.get? name with
      | some part =>
        rw [read_cons_of_some hname hpart, read_cons_of_some hname hpart]
        exact ih fun count => mt (countMissed_cons_of_some hname hpart).mpr (h count)
      | none =>
        have hmissed := mt (countMissed_cons_of_none hname hpart).mpr (h v.count)
        rw [read_cons_of_none hname hpart, read_cons_of_none hname hpart]
        by_cases hasked : name = "length" ∧ ∀ name ∈ names, name = ""
        · rw [if_pos ⟨hasked.1, filter_eq_nil_iff.mpr hasked.2⟩]
          by_cases hnames : names = []
          · rw [if_pos ⟨hasked.1, hnames⟩]
          · rw [if_neg (fun hand => hnames hand.2)]
            exact Classical.byContradiction fun hnull =>
              hmissed ⟨hasked.1, ⟨hnames, hasked.2⟩, rfl, hnull⟩
        · rw [if_neg fun hand => hasked ⟨hand.1, filter_eq_nil_iff.mp hand.2⟩, if_neg]
          rintro ⟨hname, rfl⟩
          exact hasked ⟨hname, nofun⟩

end CountMissed

/-- Empty segments make a difference only behind a name that asks for a count. -/
theorem read_filter_eq_iff {v : Value} {names : List String} :
    v.read (names.filter (!·.isEmpty)) = v.read names ↔ ∀ count, ¬CountMissed v names count := by
  refine ⟨fun h count hmissed => ?_, read_filter_of_not_countMissed⟩
  obtain ⟨hread, hfilter⟩ := hmissed.read_eq
  obtain ⟨-, -, -, -, -, -, hnull⟩ := hmissed
  exact hnull (hfilter.symm.trans (h.trans hread))

end Value

/-! ### Paths -/

namespace Path

variable {path : String} (hslash : '/' ∉ path.toList)
include hslash

/-- Without slashes, points alone separate segments. -/
theorem split_isSeparator : Text.split isSeparator path = Text.split (· == '.') path := by
  refine congrArg (List.map String.ofList) (Text.splitOn_congr fun c hc => ?_)
  have hne : c ≠ '/' := fun heq => hslash (heq ▸ hc)
  simp [isSeparator, hne]

/-- Where only points separate segments and none is the word `this`, just the empty segments of a
path are dropped. -/
theorem segments_ofText (hthis : "this" ∉ Text.split (· == '.') path) :
    (ofText path).segments = (Text.split (· == '.') path).filter (!·.isEmpty) := by
  rw [ofText, split_isSeparator hslash]
  refine List.filter_congr fun segment hsegment => ?_
  have hne : segment ≠ "this" := fun heq => hthis (heq ▸ hsegment)
  simp [hne]

end Path

namespace Value

/-- A dotted read walks the segments between the points. -/
theorem readDotted_eq (v : Value) (path : String) :
    v.readDotted path = v.read (Text.split (· == '.') path) := by
  rw [readDotted]
  split
  · next h =>
    obtain rfl : path = "" := by simpa using h
    rfl
  · rfl

/-- Both ways of reading a path with points lead to the same value, unless the path ends in the name
that asks for a count, with points behind it, and leads to something that is counted: its count is
found when the path is taken apart, and missed when it is walked point by point. -/
theorem readDotted_eq_resolve_iff (v : Value) {path : String} (hslash : '/' ∉ path.toList)
    (hthis : "this" ∉ Text.split (· == '.') path) :
    (v.readDotted path = (Path.ofText path).resolve v ↔
        ∀ count, ¬CountMissed v (Text.split (· == '.') path) count) ∧
      ∀ count, CountMissed v (Text.split (· == '.') path) count →
        v.readDotted path = .null ∧ (Path.ofText path).resolve v = count := by
  rw [readDotted_eq, Path.resolve, Path.segments_ofText hslash hthis]
  exact ⟨eq_comm.trans read_filter_eq_iff, fun count hmissed => hmissed.read_eq⟩

/-- Points between segments do no harm, and the one at the end makes the count be missed. -/
theorem readDotted_eq_resolve_iff_point :
    let v : Value := .object .new [("a", .array .new [.int 1, .int 2])]
    v.readDotted "a..length." = .null ∧ (Path.ofText "a..length.").resolve v = .int 2 := by
  intro v
  have hmissed : CountMissed v (Text.split (· == '.') "a..length.") (.int 2) :=
    ⟨["a", ""], [""], rfl, ⟨by decide, by decide⟩, rfl, rfl, nofun⟩
  exact (readDotted_eq_resolve_iff v (by decide) (by decide)).2 _ hmissed

/-- A sequence has a count, but none when a point follows. -/
theorem readDotted_length_point :
    let v : Value := .array .new [.int 1, .int 2]
    v.readDotted "length." = .null ∧ (Path.ofText "length.").resolve v = .int 2 :=
  ⟨rfl, rfl⟩

end Value

end Stencil
