import Stencil.Text.Escape

/-!
# Writing and reading entities

Escaping goes over the bytes of a text and not over its characters. The bytes of markup are found
all the same only where its characters stand, since all bytes of a longer character have their top
bit set. Hence the pass cuts the text between characters only, and at every moment the text before
it falls into a part that has been written escaped and a part without markup that is still to be
copied.

Entities are read back from left to right. An ampersand of the text is written as an entity itself,
so that what follows it is never taken for the rest of one.

## Main results

* `Scan.Stands.exists_run`: the pass keeps what it has written and what it has to copy.
* `scan?_eq`: what the pass makes of a text.
* `unescape_escape`: the entities of an escaped text are read back as its characters.
-/

namespace Stencil.Markup

open Text (byteSize byteSize_append)

variable {c : Char} {cs done copied : List Char}

/-! ### Bytes of markup -/

/-- Characters that have no entity are those that are no marks. -/
theorem entity?_eq_none_iff_notMem : entity? c = none ↔ c ∉ marks := by
  unfold entity? marks
  split <;> simp_all

/-- Plain text is text without marks. -/
theorem isPlain_iff_notMem : isPlain cs = true ↔ ∀ c ∈ cs, c ∉ marks := by
  simp [isPlain, entity?_eq_none_iff_notMem]

/-- A character of markup is one byte, which has its entity. -/
theorem exists_byte_of_mem (h : c ∈ marks) :
    ∃ byte entity, String.utf8EncodeChar c = [byte] ∧ entityOfByte? byte = some entity ∧
      entity? c = some entity := by
  simp only [marks, List.mem_cons, List.not_mem_nil, or_false] at h
  rcases h with rfl | rfl | rfl | rfl | rfl <;> exact ⟨_, _, rfl, rfl, rfl⟩

/-- A byte that has an entity is the code of a character of markup. -/
theorem exists_mem_of_byte {byte : UInt8} {entity : List Char}
    (h : entityOfByte? byte = some entity) : ∃ c ∈ marks, byte.toNat = c.toNat := by
  unfold entityOfByte? at h
  split at h
  · exact ⟨'"', by decide, rfl⟩
  · exact ⟨'&', by decide, rfl⟩
  · exact ⟨'\'', by decide, rfl⟩
  · exact ⟨'<', by decide, rfl⟩
  · exact ⟨'>', by decide, rfl⟩
  · cases h

/-- Marks take one byte. -/
theorem toNat_lt_of_mem (h : c ∈ marks) : c.toNat < 128 := by
  simp only [marks, List.mem_cons, List.not_mem_nil, or_false] at h
  rcases h with rfl | rfl | rfl | rfl | rfl <;> decide

/-- The bytes of a character are its code, or all of them have their top bit set. -/
theorem toNat_of_mem_encode {byte : UInt8} (h : byte ∈ String.utf8EncodeChar c) :
    byte.toNat = c.toNat ∨ 128 ≤ byte.toNat := by
  unfold String.utf8EncodeChar at h
  simp only at h
  split at h
  · next hsmall =>
    refine .inl ?_
    rw [List.mem_singleton] at h
    rw [h, UInt8.toNat_ofNat']
    exact Nat.mod_eq_of_lt (Nat.lt_of_le_of_lt hsmall (by decide))
  · refine .inr ?_
    split at h
    · simp only [List.mem_cons, List.not_mem_nil, or_false] at h
      rcases h with rfl | rfl <;> simp only [UInt8.toNat_ofNat'] <;> omega
    · split at h
      · simp only [List.mem_cons, List.not_mem_nil, or_false] at h
        rcases h with rfl | rfl | rfl <;> simp only [UInt8.toNat_ofNat'] <;> omega
      · simp only [List.mem_cons, List.not_mem_nil, or_false] at h
        rcases h with rfl | rfl | rfl | rfl <;> simp only [UInt8.toNat_ofNat'] <;> omega

/-- The bytes of any other character have no entity. -/
theorem entityOfByte?_eq_none (h : c ∉ marks) {byte : UInt8}
    (hbyte : byte ∈ String.utf8EncodeChar c) : entityOfByte? byte = none := by
  cases hentity : entityOfByte? byte with
  | none => rfl
  | some entity =>
    obtain ⟨d, hd, hcode⟩ := exists_mem_of_byte hentity
    rcases toNat_of_mem_encode hbyte with hsame | hlarge
    · have hchar : d = c := Char.toNat_inj.mp (hcode.symm.trans hsame)
      exact absurd (hchar ▸ hd) h
    · have hsmall := toNat_lt_of_mem hd
      omega

/-- A text has as many bytes as its size says. -/
theorem length_bytes (cs : List Char) : (bytes cs).length = byteSize cs := by
  induction cs with
  | nil => rfl
  | cons c cs ih =>
    rw [bytes, List.flatMap_cons, List.length_append, String.length_utf8EncodeChar, byteSize]
    exact congrArg (c.utf8Size + ·) ih

/-! ### The pass -/

/-- Where a pass stands: behind a part of the text that has been written escaped, and a part without
markup that is still to be copied. -/
structure Scan.Stands (scan : Scan) (done copied : List Char) : Prop where
  written : scan.written = escape done
  used : scan.used = byteSize done
  unmarked : ∀ c ∈ copied, c ∉ marks

/-- Bytes without an entity are passed over. -/
theorem Scan.run_of_unmarked (cs : List Char) (scan : Scan) (place : Nat) {bytes : List UInt8}
    (h : ∀ byte ∈ bytes, entityOfByte? byte = none) (more : List UInt8) :
    scan.run cs place (bytes ++ more) = scan.run cs (place + bytes.length) more := by
  induction bytes generalizing place with
  | nil => rfl
  | cons byte bytes ih =>
    obtain ⟨hbyte, hbytes⟩ := List.forall_mem_cons.mp h
    have hlength : place + (byte :: bytes).length = place + 1 + bytes.length := by
      rw [List.length_cons]
      omega
    rw [List.cons_append, Scan.run, Scan.step, hbyte, Option.bind_some, ih _ hbytes, hlength]

/-- A character of markup has what is to be copied put out, and its entity behind it; any other one
is to be copied, too. -/
theorem Scan.Stands.exists_step {scan : Scan} (h : scan.Stands done copied) (c : Char)
    (rest : List Char) :
    ∃ (scan' : Scan) (done' copied' : List Char), scan'.Stands done' copied' ∧
      done' ++ copied' = done ++ copied ++ [c] ∧
      ∀ more, scan.run (done ++ copied ++ c :: rest) (byteSize (done ++ copied))
          (String.utf8EncodeChar c ++ more) =
        scan'.run (done ++ copied ++ c :: rest) (byteSize (done' ++ copied')) more := by
  by_cases hc : c ∈ marks
  · obtain ⟨byte, entity, hbyte, hentity, hchar⟩ := exists_byte_of_mem hc
    have hsize : c.utf8Size = 1 := by
      rw [← String.length_utf8EncodeChar, hbyte, List.length_singleton]
    have hplace : byteSize (done ++ copied ++ [c]) = byteSize (done ++ copied) + 1 := by
      rw [byteSize_append, byteSize, byteSize, hsize]
    have hwritten : escape (done ++ copied ++ [c]) = scan.written ++ copied ++ entity := by
      rw [escape_append, escape_append, escape_of_isPlain (isPlain_iff_notMem.mpr h.unmarked),
        h.written, escape_cons, escapeChar, hchar, escape_nil, List.append_nil, Option.getD_some]
    refine ⟨⟨scan.written ++ copied ++ entity, byteSize (done ++ copied) + 1⟩,
      done ++ copied ++ [c], [], ⟨hwritten.symm, hplace.symm, by simp⟩, List.append_nil _, ?_⟩
    intro more
    rw [hbyte, List.singleton_append, Scan.run, Scan.step, hentity, h.used]
    simp only [Span.slice?_append, Option.map_some, Option.bind_some, List.append_nil, hplace]
  · refine ⟨scan, done, copied ++ [c], ⟨h.written, h.used, ?_⟩, (List.append_assoc ..).symm, ?_⟩
    · intro d hd
      rcases List.mem_append.mp hd with hd | hd
      · exact h.unmarked d hd
      · exact List.mem_singleton.mp hd ▸ hc
    · intro more
      have hbytes := Scan.run_of_unmarked (done ++ copied ++ c :: rest) scan
        (byteSize (done ++ copied)) (fun _ => entityOfByte?_eq_none hc) more
      have hplace : byteSize (done ++ (copied ++ [c])) =
          byteSize (done ++ copied) + c.utf8Size := by
        rw [← List.append_assoc, byteSize_append (done ++ copied)]
        rfl
      rw [hbytes, String.length_utf8EncodeChar, hplace]

/-- The pass goes on to the end of the text. -/
theorem Scan.Stands.exists_run {scan : Scan} (h : scan.Stands done copied) (rest : List Char) :
    ∃ (scan' : Scan) (done' copied' : List Char), scan'.Stands done' copied' ∧
      done' ++ copied' = done ++ copied ++ rest ∧
      scan.run (done ++ copied ++ rest) (byteSize (done ++ copied)) (bytes rest) = some scan' := by
  induction rest generalizing scan done copied with
  | nil => exact ⟨scan, done, copied, h, (List.append_nil _).symm, rfl⟩
  | cons c rest ih =>
    obtain ⟨scan₁, done₁, copied₁, h₁, htext, hstep⟩ := h.exists_step c rest
    obtain ⟨scan', done', copied', h', htext', hrun⟩ := ih h₁
    have hwhole : done₁ ++ copied₁ ++ rest = done ++ copied ++ c :: rest := by simp [htext]
    refine ⟨scan', done', copied', h', htext'.trans hwhole, ?_⟩
    rw [bytes, List.flatMap_cons, hstep, ← hwhole]
    exact hrun

/-! ### Texts -/

/-- The pass starts at the first character of markup. -/
theorem firstMark?_cases (cs : List Char) :
    (firstMark? cs = none ∧ ∀ c ∈ cs, c ∉ marks) ∨
      ∃ plain rest, cs = plain ++ rest ∧ (∀ c ∈ plain, c ∉ marks) ∧ (∃ c ∈ rest, c ∈ marks) ∧
        firstMark? cs = some (byteSize plain) := by
  induction cs with
  | nil => exact .inl ⟨rfl, by simp⟩
  | cons c cs ih =>
    rw [firstMark?]
    by_cases hc : c ∈ marks
    · exact .inr ⟨[], c :: cs, rfl, by simp, ⟨c, List.mem_cons_self, hc⟩, if_pos hc⟩
    · rw [if_neg hc]
      rcases ih with ⟨hfirst, hcs⟩ | ⟨plain, rest, rfl, hplain, hrest, hfirst⟩
      · exact .inl ⟨by rw [hfirst]; rfl, List.forall_mem_cons.mpr ⟨hc, hcs⟩⟩
      · exact .inr ⟨c :: plain, rest, rfl, List.forall_mem_cons.mpr ⟨hc, hplain⟩, hrest,
          by rw [hfirst]; rfl⟩

/-- What the pass makes of a text: a text without markup is left as it is, and every other one is
written escaped. -/
theorem scan?_eq (cs : List Char) :
    scan? cs = some (if isPlain cs then .same else .written (escape cs)) := by
  rcases firstMark?_cases cs with ⟨hfirst, hcs⟩ | ⟨plain, rest, rfl, hplain, ⟨c, hc, hmark⟩, hfirst⟩
  · rw [scan?, hfirst, if_pos (isPlain_iff_notMem.mpr hcs)]
  · have hbytes : (bytes (plain ++ rest)).drop (byteSize plain) = bytes rest := by
      rw [bytes, List.flatMap_append, ← length_bytes]
      exact List.drop_left
    have hstart : Scan.Stands {} [] plain := ⟨rfl, rfl, hplain⟩
    obtain ⟨scan, done, copied, hstands, htext, hrun⟩ := hstart.exists_run rest
    rw [List.nil_append] at htext hrun
    have hcopied := Span.slice?_append done copied []
    rw [List.append_nil, htext, ← hstands.used] at hcopied
    have hwritten : scan.written ++ copied = escape (plain ++ rest) := by
      rw [← htext, escape_append, hstands.written,
        escape_of_isPlain (isPlain_iff_notMem.mpr hstands.unmarked)]
    have hmarked : ¬isPlain (plain ++ rest) = true := fun h =>
      isPlain_iff_notMem.mp h c (List.mem_append_right plain hc) hmark
    rw [scan?, hfirst, if_neg hmarked]
    simp only [hbytes, hrun, hcopied, hwritten, Option.bind_eq_bind, Option.bind_some]
    rfl

/-- A text is escaped character by character. -/
theorem escapeText_eq (text : String) : escapeText text = String.ofList (escape text.toList) := by
  rw [escapeText, scan?_eq]
  split
  · next cs hcs =>
    split at hcs
    · cases hcs
    · cases hcs
      rfl
  · next hnot =>
    split at hnot
    · next hplain => rw [escape_of_isPlain hplain, String.ofList_toList]
    · exact absurd rfl (hnot _)

/-! ### Reading entities back -/

/-- The text with its entities read back as the characters that they stand for, from left to
right. -/
def unescape : List Char → List Char
  | '&' :: 'q' :: 'u' :: 'o' :: 't' :: ';' :: cs => '"' :: unescape cs
  | '&' :: 'a' :: 'm' :: 'p' :: ';' :: cs => '&' :: unescape cs
  | '&' :: '#' :: '3' :: '9' :: ';' :: cs => '\'' :: unescape cs
  | '&' :: 'l' :: 't' :: ';' :: cs => '<' :: unescape cs
  | '&' :: 'g' :: 't' :: ';' :: cs => '>' :: unescape cs
  | c :: cs => c :: unescape cs
  | [] => []

/-- What is no ampersand is decoded as it is. -/
theorem unescape_cons (h : c ≠ '&') (cs : List Char) : unescape (c :: cs) = c :: unescape cs := by
  rw [unescape] <;> · rintro _ rfl; exact absurd rfl h

/-- An entity is decoded as its character. -/
theorem unescape_entity {entity : List Char} (h : entity? c = some entity) (cs : List Char) :
    unescape (entity ++ cs) = c :: unescape cs := by
  have hc : c ∈ marks := Decidable.byContradiction fun hc => by
    rw [entity?_eq_none_iff_notMem.mpr hc] at h
    cases h
  simp only [marks, List.mem_cons, List.not_mem_nil, or_false] at hc
  rcases hc with rfl | rfl | rfl | rfl | rfl <;> cases h <;> rfl

/-- The entities of an escaped text are read back as its characters. -/
theorem unescape_escape (cs : List Char) : unescape (escape cs) = cs := by
  induction cs with
  | nil => rfl
  | cons c cs ih =>
    rw [escape_cons, escapeChar]
    cases hc : entity? c with
    | none =>
      have hamp : c ≠ '&' := by
        rintro rfl
        cases hc
      rw [Option.getD_none, List.singleton_append, unescape_cons hamp, ih]
    | some entity => rw [Option.getD_some, unescape_entity hc, ih]

end Stencil.Markup
