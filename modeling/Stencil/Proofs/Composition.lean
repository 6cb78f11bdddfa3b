import Stencil.Proofs.Recursion

/-!
# Paths in two parts

A path may be walked in two parts: to a part of a value first, and on from there. Where nothing was
found there is nothing to go on to, and a count has no parts either, so that it makes no difference
where a path is cut. This is so although the name that asks for a count does it at the end of a walk
only, and what comes last differs between the whole path and its first part.

Empty segments are the exception. A walk stays at each of them, so that one behind a count leaves it
in place when the path is cut before it, and makes it be missed when the path is walked as a whole.

An upward read walks in two parts, too: it looks for the first name in the scopes around, and goes
on from what it has found. So it reads a path as the current context does, in whatever blocks, once
the context has something truthy under the first name.

## Main results

* `Value.read_append`: walking in two parts, when the second one has a name in it.
* `Value.read_append_iff`: where a path can be cut.
* `Path.reads_compose`: cuts before names that are not empty, and upward reads.
-/

namespace Stencil

namespace Value

variable {v count : Value} {front back names : List String}

/-! ### Walks that lead nowhere -/

/-- Counts have no parts. -/
theorem get?_count (v : Value) (name : String) : v.count.get? name = none := by
  cases v <;> rfl

/-- Where there are no parts and no count, a name leads to nothing. -/
theorem read_eq_null (hget : ∀ name, v.get? name = none) (hcount : v.count = .null)
    (hname : ∃ name ∈ names, name ≠ "") : v.read names = .null := by
  induction names with
  | nil => simp at hname
  | cons name names ih =>
    by_cases hempty : name = ""
    · subst hempty
      exact ih (by simpa using hname)
    · rw [read_cons_of_none hempty (hget name), hcount, ite_self]

/-- Empty segments alone stay where they are. -/
theorem read_of_blank (hblank : ∀ name ∈ names, name = "") (v : Value) : v.read names = v := by
  induction names with
  | nil => rfl
  | cons name names ih =>
    rw [List.forall_mem_cons] at hblank
    rw [hblank.1, read_cons_empty, ih hblank.2]

/-! ### Cutting a path -/

/-- A path can be walked in two parts when there is a name in the second one. -/
theorem read_append (v : Value) (front : List String) (hback : ∃ name ∈ back, name ≠ "") :
    v.read (front ++ back) = (v.read front).read back := by
  have hne : back ≠ [] := by
    rintro rfl
    simp at hback
  induction front generalizing v with
  | nil => rfl
  | cons name front ih =>
    rw [List.cons_append]
    by_cases hname : name = ""
    · subst hname
      exact ih v
    · cases hpart : v.get? name with
      | some part =>
        rw [read_cons_of_some hname hpart, read_cons_of_some hname hpart]
        exact ih part
      | none =>
        -- The whole walk ends at nothing here; the first part of it may end at a count.
        rw [read_cons_of_none hname hpart, read_cons_of_none hname hpart,
          if_neg fun hlast => hne (List.append_eq_nil_iff.mp hlast.2).2]
        split
        · exact (read_eq_null (get?_count v) (count_count v) hback).symm
        · exact (read_eq_null (fun _ => rfl) rfl hback).symm

/-- The names end with the one that asks for a count, and lead to something that is counted. -/
def CountFound (v : Value) (names : List String) (count : Value) : Prop :=
  ∃ before, names = before ++ ["length"] ∧ (v.read before).get? "length" = none ∧
    (v.read before).count = count ∧ count ≠ .null

namespace CountFound

/-- Where a count is found, it is read. -/
theorem read_eq (h : CountFound v front count) : v.read front = count := by
  obtain ⟨before, rfl, hnone, hcount, -⟩ := h
  have hlength : "length" ≠ "" := by decide
  rw [read_append v before ⟨"length", List.mem_singleton_self _, hlength⟩,
    read_cons_of_none hlength hnone, if_pos ⟨rfl, rfl⟩, hcount]

/-- Whatever comes behind the names makes the count be missed. -/
theorem read_append_eq (h : CountFound v front count) (hback : back ≠ []) :
    v.read (front ++ back) = .null := by
  obtain ⟨before, rfl, hnone, -, -⟩ := h
  have hlength : "length" ≠ "" := by decide
  rw [List.append_assoc, List.singleton_append,
    read_append v before ⟨"length", List.mem_cons_self, hlength⟩,
    read_cons_of_none hlength hnone, if_neg fun hlast => hback hlast.2]

end CountFound

/-- Behind names that find no count, empty segments make no difference. -/
theorem read_append_of_blank (hfound : ∀ count, ¬CountFound v front count)
    (hblank : ∀ name ∈ back, name = "") : v.read (front ++ back) = v.read front := by
  induction front generalizing v with
  | nil => exact read_of_blank hblank v
  | cons name front ih =>
    rw [List.cons_append]
    by_cases hname : name = ""
    · subst hname
      refine ih fun count => ?_
      rintro ⟨before, rfl, hrest⟩
      exact hfound count ⟨"" :: before, rfl, hrest⟩
    · cases hpart : v.get? name with
      | some part =>
        rw [read_cons_of_some hname hpart, read_cons_of_some hname hpart]
        refine ih fun count => ?_
        rintro ⟨before, rfl, hrest⟩
        refine hfound count ⟨name :: before, rfl, ?_⟩
        rwa [read_cons_of_some hname hpart]
      | none =>
        rw [read_cons_of_none hname hpart, read_cons_of_none hname hpart]
        by_cases hlast : name = "length" ∧ front = []
        · obtain ⟨rfl, rfl⟩ := hlast
          have hnull : v.count = .null := Classical.byContradiction fun hnull =>
            hfound v.count ⟨[], rfl, hpart, rfl, hnull⟩
          rw [hnull, ite_self, ite_self]
        · rw [if_neg hlast, if_neg]
          rintro ⟨hname, hnil⟩
          exact hlast ⟨hname, (List.append_eq_nil_iff.mp hnil).1⟩

/-- A path can be cut everywhere, except between a count and empty segments at the end. -/
theorem read_append_iff :
    v.read (front ++ back) = (v.read front).read back ↔
      ∀ count, CountFound v front count → (∀ name ∈ back, name = "") → back = [] := by
  constructor
  · intro heq count hfound hblank
    refine Classical.byContradiction fun hback => ?_
    rw [read_of_blank hblank, hfound.read_eq, hfound.read_append_eq hback] at heq
    obtain ⟨-, -, -, -, hnull⟩ := hfound
    exact hnull heq.symm
  · intro h
    by_cases hblank : ∀ name ∈ back, name = ""
    · rw [read_of_blank hblank]
      by_cases hback : back = []
      · rw [hback, List.append_nil]
      · exact read_append_of_blank (fun count hfound => hback (h count hfound hblank)) hblank
    · exact read_append v front (by simpa using hblank)

end Value

/-! ### Upward reads -/

/-- Both reads take a path apart alike when it has no slashes, no empty segments, and none that is
the word `this`. -/
theorem IsPointed.of_segments {path : String} (hslash : '/' ∉ path.toList)
    (hempty : "" ∉ Text.split (· == '.') path) (hthis : "this" ∉ Text.split (· == '.') path) :
    IsPointed path where
  noSlash := hslash
  start := by
    obtain ⟨rest, hrest⟩ := Source.exists_split_firstSegment hslash
    intro hstart
    exact hempty (by rw [hrest, hstart]; exact List.mem_cons_self)
  noThis := hthis
  counted := by
    intro names hsuffix hblank
    refine List.eq_nil_iff_forall_not_mem.mpr fun name hname => hempty ?_
    rw [← hblank name hname]
    exact hsuffix.mem (List.mem_cons_of_mem _ hname)

/-- A path is walked in two parts as it is walked at once, if the second part has no empty segments,
whatever is in the first one. So an upward read of a dotted name leads where the read of the context
does, in every scope whose context has something truthy under the first segment, unless one of the
segments is empty or the word `this`. -/
theorem Path.reads_compose :
    (∀ (v : Value) (front back : List String), "" ∉ back →
      v.read (front ++ back) = (v.read front).read back) ∧
    ∀ (s : Scope) (path first : String) (rest : List String) (found : Value),
      Text.split (· == '.') path = first :: rest → '/' ∉ path.toList → "" ∉ first :: rest →
      "this" ∉ first :: rest → s.context.get? first = some found → found.truthy = true →
      s.lookup path = (ofText path).resolve s.context := by
  constructor
  · intro v front back hback
    refine Value.read_append_iff.mpr fun count _ hblank => ?_
    exact List.eq_nil_iff_forall_not_mem.mpr fun name hname => hback (hblank name hname ▸ hname)
  · intro s path first rest found hsplit hslash hempty hthis hfound htruthy
    have hpointed : IsPointed path :=
      .of_segments hslash (by rwa [hsplit]) (by rwa [hsplit])
    obtain ⟨others, hothers⟩ := hpointed.exists_split
    obtain ⟨rfl, -⟩ := List.cons.inj (hsplit.symm.trans hothers)
    exact hpointed.lookup_eq_resolve (by rw [hfound]; exact htruthy)

/-- A count at the end of either part, and a field whose name the block around binds as well. -/
theorem Path.reads_compose_count :
    let v : Value := .object .new [("a", .array .new [.int 1, .int 2])]
    let s : Scope := (Scope.root .null).enter v [("a", .string "bound")]
    v.read (["a"] ++ ["length"]) = (v.read ["a"]).read ["length"] ∧
      v.read (["a", "length"] ++ ["length"]) = (v.read ["a", "length"]).read ["length"] ∧
      s.lookup "a.length" = (ofText "a.length").resolve v ∧ s.lookup "a.length" = .int 2 := by
  intro v s
  have h := reads_compose
  refine ⟨h.1 v ["a"] ["length"] (by decide), h.1 v ["a", "length"] ["length"] (by decide),
    h.2 s "a.length" "a" ["length"] (.array .new [.int 1, .int 2]) rfl (by decide) (by decide)
      (by decide) rfl rfl, rfl⟩

end Stencil
