import Stencil.Data.Document
import Stencil.Proofs.Equality

/-!
# Values that are handed over as documents

A value without floating-point numbers is handed over as a document and read back without a change,
except that its maps have become records. A record is made of the entries of a map by writing them
one after another under the names of their keys, so that a repeated name keeps its first place and
takes its last value. So whatever holds no map comes back as it was.

What is read back consists of new containers. No equality can tell: what a document can spell holds
nothing that should be a number and is none, and equality looks at marks nowhere else.

## Main results

* `Keyed.keys_ofList_eq`, `Keyed.find?_ofList`: what writing entries one after another leads to.
* `Value.value_document`: what is read back is what the data text of the value stands for.
* `Value.plain_eq_recorded`: this is the value with records in place of its maps.
* `Value.equal_value_document`: equality treats the two alike.
-/

namespace Stencil

/-! ### Writing entries one after another -/

namespace Keyed

variable {α β : Type}

/-- Entries are added one after the other. -/
theorem extend_cons (entries : Keyed α) (entry : String × α) (more : List (String × α)) :
    extend entries (entry :: more) = extend (insert entry.1 entry.2 entries) more := rfl

/-- To insert an entry repeats no name. -/
theorem nodup_keys_insert {entries : Keyed α} (h : (keys entries).Nodup) (key : String)
    (value : α) : (keys (insert key value entries)).Nodup := by
  rw [keys_insert]
  split
  · exact h
  · next hnew =>
    rw [contains, ← mem_keys_iff] at hnew
    exact List.nodup_append.mpr ⟨h, List.nodup_singleton key, by
      rintro a ha b hb rfl
      exact hnew (List.mem_singleton.mp hb ▸ ha)⟩

/-- To add entries repeats no name. -/
theorem nodup_keys_extend {entries : Keyed α} (h : (keys entries).Nodup)
    (more : List (String × α)) : (keys (extend entries more)).Nodup := by
  induction more generalizing entries with
  | nil => exact h
  | cons entry more ih => exact ih (nodup_keys_insert h entry.1 entry.2)

/-- No key is there twice, whatever is written. -/
theorem nodup_keys_ofList (entries : List (String × α)) : (keys (ofList entries)).Nodup := by
  have hnil : (keys ([] : Keyed α)).Nodup := List.nodup_nil
  exact nodup_keys_extend hnil entries

/-- An entry under a new name comes last. -/
theorem insert_of_notMem {key : String} {entries : Keyed α} (h : key ∉ keys entries) (value : α) :
    insert key value entries = entries ++ [(key, value)] := by
  have hnew : contains key entries = false := by
    rw [contains, Bool.eq_false_iff, ne_eq, ← mem_keys_iff]
    exact h
  have hinsert := insertNew_eq key value entries
  simpa [insertNew, hnew] using hinsert

/-- Entries under new names come last, in their order. -/
theorem extend_of_nodup {entries more : Keyed α} (h : (keys (entries ++ more)).Nodup) :
    extend entries more = entries ++ more := by
  induction more generalizing entries with
  | nil => rw [List.append_nil]; rfl
  | cons entry more ih =>
    have hkeys : keys (entries ++ entry :: more) = keys entries ++ entry.1 :: keys more := by
      simp [keys]
    have hnew : entry.1 ∉ keys entries := by
      rw [hkeys] at h
      exact fun hmem => (List.disjoint_of_nodup_append h) hmem (List.mem_cons_self ..)
    rw [extend_cons, insert_of_notMem hnew, ih (by simpa using h), List.append_assoc]
    rfl

/-- Nothing changes when all keys are distinct. -/
theorem ofList_of_nodup {entries : Keyed α} (h : (keys entries).Nodup) : ofList entries = entries :=
  extend_of_nodup (h : (keys ([] ++ entries)).Nodup)

/-- Values are treated alike before and after they are collected under their names. -/
theorem ofList_mapValues (f : α → β) (entries : List (String × α)) :
    ofList (mapValues f entries) = mapValues f (ofList entries) :=
  extend_mapValues f entries []

/-- The last of the entries that are collected is inserted last. -/
theorem ofList_append_singleton (entries : List (String × α)) (entry : String × α) :
    ofList (entries ++ [entry]) = insert entry.1 entry.2 (ofList entries) := by
  rw [ofList, extend, List.foldl_append]
  rfl

/-- The keys are in the order in which they were first written. -/
theorem keys_ofList_eq (entries : List (String × α)) :
    keys (ofList entries) = (keys entries).reverse.dedup.reverse := by
  induction entries using List.reverseRecOn with
  | nil => rfl
  | append_singleton entries entry ih =>
    have hmem : entry.1 ∈ keys (ofList entries) ↔ entry.1 ∈ (keys entries).reverse := by
      rw [ih, List.mem_reverse, List.mem_dedup]
    have hkeys : keys (entries ++ [entry]) = keys entries ++ [entry.1] := by simp [keys]
    rw [ofList_append_singleton, keys_insert, contains, hkeys, List.reverse_append,
      List.reverse_singleton, List.singleton_append]
    split
    · next h => rw [ih, List.dedup_cons_of_mem (hmem.mp (mem_keys_iff.mpr h))]
    · next h =>
      rw [ih, List.dedup_cons_of_notMem (mt hmem.mpr (mt mem_keys_iff.mp h)), List.reverse_cons]

/-- The value under a key is the one that was written last. -/
theorem find?_ofList (key : String) (entries : List (String × α)) :
    find? key (ofList entries) = find? key entries.reverse := by
  induction entries using List.reverseRecOn with
  | nil => rfl
  | append_singleton entries entry ih =>
    rw [ofList_append_singleton, List.reverse_append, List.reverse_singleton,
      List.singleton_append, find?]
    split
    · next h => rw [h, find?_insert_self]
    · next h => rw [find?_insert_ne (Ne.symm h), ih]

/-- Whatever is collected has been among the entries. -/
theorem mem_of_mem_ofList {entry : String × α} {entries : List (String × α)}
    (h : entry ∈ ofList entries) : entry ∈ entries := by
  have hfind := (find?_eq_some_iff (nodup_keys_ofList entries)).mpr h
  rw [find?_ofList] at hfind
  exact List.mem_reverse.mp (mem_of_find? hfind)

end Keyed

namespace Value

/-! ### Documents -/

/-- The document of a sequence has the documents of its items. -/
theorem documentItems_eq_map (items : List Value) : documentItems items = items.map document := by
  induction items with
  | nil => rfl
  | cons item items ih => rw [documentItems, ih, List.map_cons]

/-- The document of a record has the documents of its fields. -/
theorem documentFields_eq_mapValues (fields : Keyed Value) :
    documentFields fields = Keyed.mapValues document fields := by
  induction fields with
  | nil => rfl
  | cons field fields ih => rw [documentFields, ih, Keyed.mapValues_cons]

/-- The entries of a map under the names that its keys give. -/
def named (entries : List (Value × Value)) : List (String × Value) :=
  entries.map fun entry => (keyText entry.1, entry.2)

/-- The document of a map has the documents of its values, under the names that their keys give. -/
theorem documentEntries_eq (entries : List (Value × Value)) :
    documentEntries entries = Keyed.mapValues document (named entries) := by
  induction entries with
  | nil => rfl
  | cons entry entries ih => rw [documentEntries, ih]; rfl

/-- The items that are read back are those of the document. -/
theorem valueItems_eq_map (items : List Document) :
    Document.valueItems items = items.map Document.value := by
  induction items with
  | nil => rfl
  | cons item items ih => rw [Document.valueItems, ih, List.map_cons]

/-- The fields that are read back are those of the document. -/
theorem valueFields_eq_mapValues (fields : Keyed Document) :
    Document.valueFields fields = Keyed.mapValues Document.value fields := by
  induction fields with
  | nil => rfl
  | cons field fields ih => rw [Document.valueFields, ih, Keyed.mapValues_cons]

/-- The items of a sequence stand for plain items. -/
theorem plainItems_eq_map (items : List Value) : plainItems items = items.map plain := by
  induction items with
  | nil => rfl
  | cons item items ih => rw [plainItems, ih, List.map_cons]

/-- The fields of a record stand for plain fields. -/
theorem plainFields_eq_mapValues (fields : Keyed Value) :
    plainFields fields = Keyed.mapValues plain fields := by
  induction fields with
  | nil => rfl
  | cons field fields ih => rw [plainFields, ih, Keyed.mapValues_cons]

/-- The entries of a map stand for plain fields, under the names that their keys give. -/
theorem plainEntries_eq (entries : List (Value × Value)) :
    plainEntries entries = Keyed.mapValues plain (named entries) := by
  induction entries with
  | nil => rfl
  | cons entry entries ih => rw [plainEntries, ih]; rfl

/-- Fields that are handed over one after another are read back as fields that are written one after
another. -/
theorem value_object {fields : List (String × Value)}
    (h : ∀ field ∈ fields, field.2.document.value = field.2.plain.unmarked) :
    (Document.object (Keyed.ofList (Keyed.mapValues document fields))).value =
      .object .new (Keyed.mapValues unmarked (Keyed.ofList (Keyed.mapValues plain fields))) := by
  have hvalues : Keyed.mapValues (fun v => v.document.value) fields =
      Keyed.mapValues (fun v => v.plain.unmarked) fields :=
    List.map_congr_left fun field hmem => congrArg (field.1, ·) (h field hmem)
  rw [Document.value, valueFields_eq_mapValues, Keyed.ofList_mapValues,
    Keyed.ofList_of_nodup (Keyed.nodup_keys_ofList _), ← Keyed.ofList_mapValues,
    ← Keyed.ofList_mapValues, Keyed.mapValues_mapValues, Keyed.mapValues_mapValues, hvalues]

/-- What is read back is what the data text of the value stands for, without its marks. -/
theorem value_document (v : Value) : v.document.value = v.plain.unmarked := by
  induction v using induction_on with
  | null | bool | int | string => rfl
  | float x =>
    rw [document, plain]
    cases Number.toWord? x with
    | some n => rfl
    | none => dsimp only; split <;> rfl
  | array mark items ih =>
    rw [document, documentItems_eq_map, Document.value, valueItems_eq_map, plain,
      plainItems_eq_map, unmarked_array, List.map_map, List.map_map]
    exact congrArg _ (List.map_congr_left ih)
  | object mark fields ih =>
    rw [document, documentFields_eq_mapValues, value_object ih, plain, plainFields_eq_mapValues,
      unmarked_object]
  | map mark entries ih =>
    have hnamed : ∀ field ∈ named entries, field.2.document.value = field.2.plain.unmarked := by
      intro field hmem
      obtain ⟨entry, hentry, rfl⟩ := List.mem_map.mp hmem
      exact (ih entry hentry).2
    rw [document, documentEntries_eq, value_object hnamed, plain, plainEntries_eq, unmarked_object]

/-- A finite number is a number. -/
theorem isNaN_of_isFinite {x : Float} (h : x.isFinite) : x.isNaN = false := by
  change x.toModel.unpack.isFinite = true at h
  change x.toModel.unpack.isNaN = false
  generalize x.toModel.unpack = parts at h ⊢
  cases parts with
  | notANumber => cases h
  | infinity | zero | finite => rfl

/-- What a data text stands for holds nothing that should be a number and is none. -/
theorem naNFree_plain (v : Value) : NaNFree v.plain := by
  induction v using induction_on with
  | null | bool | string => exact (throughout_scalar rfl).mpr nofun
  | int n => exact allFloats_int n
  | float x =>
    rw [plain]
    cases Number.toWord? x with
    | some n => exact allFloats_int n
    | none =>
      dsimp only
      split
      · next h => exact allFloats_float.mpr (isNaN_of_isFinite h)
      · exact (throughout_scalar rfl).mpr nofun
  | array mark items ih =>
    rw [plain, plainItems_eq_map]
    exact allFloats_array.mpr (List.forall_mem_map.mpr ih)
  | object mark fields ih =>
    rw [plain, plainFields_eq_mapValues]
    refine allFloats_object.mpr fun field hmem => ?_
    obtain ⟨field, hfield, rfl⟩ := List.mem_map.mp (Keyed.mem_of_mem_ofList hmem)
    exact ih field hfield
  | map mark entries ih =>
    rw [plain, plainEntries_eq]
    refine allFloats_object.mpr fun field hmem => ?_
    obtain ⟨field, hfield, rfl⟩ := List.mem_map.mp (Keyed.mem_of_mem_ofList hmem)
    obtain ⟨entry, hentry, rfl⟩ := List.mem_map.mp hfield
    exact (ih entry hentry).2

/-- No equality tells what is read back from what the data text of the value stands for. -/
theorem equal_value_document (v w : Value) :
    equal v.document.value w = equal v.plain w ∧ equal w v.document.value = equal w v.plain := by
  have hmarkless := markless_of_naNFree (naNFree_plain v)
  rw [value_document]
  exact ⟨((hmarkless false false).left w).symm, ((hmarkless false false).right w).symm⟩

/-! ### Records in place of maps -/

mutual

/-- The value with a record in place of every map: its names are those that the keys give, a
repeated one in its first place and with its last value. -/
def recorded : Value → Value
  | .array mark items => .array mark (recordedItems items)
  | .object mark fields => .object mark (recordedFields fields)
  | .map mark entries => .object mark (Keyed.ofList (recordedEntries entries))
  | v => v

/-- The items of a sequence with records in place of all maps. -/
def recordedItems : List Value → List Value
  | [] => []
  | item :: items => recorded item :: recordedItems items

/-- The fields of a record with records in place of all maps. -/
def recordedFields : List (String × Value) → List (String × Value)
  | [] => []
  | (name, value) :: fields => (name, recorded value) :: recordedFields fields

/-- The entries of a map, under the names of their keys, with records in place of all maps. -/
def recordedEntries : List (Value × Value) → List (String × Value)
  | [] => []
  | (key, value) :: entries => (keyText key, recorded value) :: recordedEntries entries

end

/-- The items of a sequence have records in place of their maps. -/
theorem recordedItems_eq_map (items : List Value) : recordedItems items = items.map recorded := by
  induction items with
  | nil => rfl
  | cons item items ih => rw [recordedItems, ih, List.map_cons]

/-- The fields of a record have records in place of their maps. -/
theorem recordedFields_eq_mapValues (fields : Keyed Value) :
    recordedFields fields = Keyed.mapValues recorded fields := by
  induction fields with
  | nil => rfl
  | cons field fields ih => rw [recordedFields, ih, Keyed.mapValues_cons]

/-- The entries of a map become fields with records in place of their maps. -/
theorem recordedEntries_eq (entries : List (Value × Value)) :
    recordedEntries entries = Keyed.mapValues recorded (named entries) := by
  induction entries with
  | nil => rfl
  | cons entry entries ih => rw [recordedEntries, ih]; rfl

/-- Without floating-point numbers, the data text of a value stands for the value with records in
place of its maps. -/
theorem plain_eq_recorded {v : Value} (hwell : WellFormed v) (hfloat : FloatFree v) :
    v.plain = v.recorded := by
  induction v using induction_on with
  | null | bool | int | string => rfl
  | float x => exact (allFloats_float.mp hfloat).elim
  | array mark items ih =>
    rw [plain, plainItems_eq_map, recorded, recordedItems_eq_map]
    exact congrArg _ (List.map_congr_left fun item hmem =>
      ih item hmem (wellFormed_array.mp hwell item hmem) (allFloats_array.mp hfloat item hmem))
  | object mark fields ih =>
    obtain ⟨hkeys, hfields⟩ := wellFormed_object.mp hwell
    have hvalues : Keyed.mapValues plain fields = Keyed.mapValues recorded fields :=
      List.map_congr_left fun field hmem => congrArg (field.1, ·)
        (ih field hmem (hfields field hmem) (allFloats_object.mp hfloat field hmem))
    rw [plain, plainFields_eq_mapValues, Keyed.ofList_mapValues, Keyed.ofList_of_nodup hkeys,
      hvalues, recorded, recordedFields_eq_mapValues]
  | map mark entries ih =>
    have hvalues : Keyed.mapValues plain (named entries) =
        Keyed.mapValues recorded (named entries) := by
      refine List.map_congr_left fun field hmem => ?_
      obtain ⟨entry, hentry, rfl⟩ := List.mem_map.mp hmem
      exact congrArg (keyText entry.1, ·) ((ih entry hentry).2
        (wellFormed_map.mp hwell entry hentry).2 (allFloats_map.mp hfloat entry hentry).2)
    rw [plain, plainEntries_eq, hvalues, recorded, recordedEntries_eq]

/-- A value without maps stays as it is. -/
theorem recorded_eq_self {v : Value} (h : MapFree v) : v.recorded = v := by
  induction v using induction_on with
  | null | bool | int | float | string => rfl
  | array mark items ih =>
    rw [recorded, recordedItems_eq_map]
    have hitems : items.map recorded = items.map id :=
      List.map_congr_left fun item hmem => ih item hmem (mapFree_array.mp h item hmem)
    rw [hitems, List.map_id]
  | object mark fields ih =>
    rw [recorded, recordedFields_eq_mapValues]
    have hfields : Keyed.mapValues recorded fields = Keyed.mapValues id fields :=
      List.map_congr_left fun field hmem =>
        congrArg (field.1, ·) (ih field hmem (mapFree_object.mp h field hmem))
    rw [hfields, Keyed.mapValues_id]
  | map mark entries => exact (not_mapFree_map h).elim

end Value

end Stencil
