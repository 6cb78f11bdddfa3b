import Stencil.Eval.Block
import Stencil.Proofs.Parts

/-!
# Values up to their marks

Two evaluations that agree may still have made their containers at different moments, so that the
marks of these differ. What is seen of a value is the value with its marks as they are seen: all of
them, so that what looks alike is equal, or none of them, or some. Everything that an evaluation
reads from a value, other than its equality with another one, can be read as well from what is seen
of it.

## Main definitions

* `Sight`: how the marks of containers are seen.
* `Value.seen`, `Value.unmarked`: what is seen of a value, and what is seen of it without marks.

## Main results

* `unmarked_marked`: marking new containers changes nothing but marks.
* `read_seen`, `items_seen`, `output_seen`: reads, loops and texts depend on what is seen alone.
* `Scope.lookup_seen`: so do upward reads.
-/

namespace Stencil

/-! ### What is seen of a value -/

/-- How the mark of a container is seen, when the container holds what is no number and when it does
not. A new container looks new. -/
structure Sight where
  mark : Bool → Mark → Mark
  mark_new : ∀ holdsNaN, mark holdsNaN .new = .new

namespace Sight

attribute [simp] mark_new

/-- All marks are seen. -/
def full : Sight where
  mark _ mark := mark
  mark_new _ := rfl

/-- No marks are seen. -/
def bare : Sight where
  mark _ _ := .new
  mark_new _ := rfl

end Sight

namespace Value

mutual

/-- Whether the value is, or holds at some depth, what should be a number and is none. -/
def holdsNaN : Value → Bool
  | .float x => x.isNaN
  | .array _ items => itemsHoldNaN items
  | .object _ fields => fieldsHoldNaN fields
  | .map _ entries => entriesHoldNaN entries
  | _ => false

/-- Whether one of the items holds what is no number. -/
def itemsHoldNaN : List Value → Bool
  | [] => false
  | item :: items => holdsNaN item || itemsHoldNaN items

/-- Whether one of the fields holds what is no number. -/
def fieldsHoldNaN : List (String × Value) → Bool
  | [] => false
  | (_, value) :: fields => holdsNaN value || fieldsHoldNaN fields

/-- Whether one of the entries holds what is no number. -/
def entriesHoldNaN : List (Value × Value) → Bool
  | [] => false
  | (key, value) :: entries => holdsNaN key || holdsNaN value || entriesHoldNaN entries

end

/-- A sequence holds what is no number if one of its items does. -/
@[simp] theorem holdsNaN_array (mark : Mark) (items : List Value) :
    (Value.array mark items).holdsNaN = items.any holdsNaN := by
  have hitems : itemsHoldNaN items = items.any holdsNaN := by
    induction items with
    | nil => rfl
    | cons item items ih => rw [itemsHoldNaN, ih, List.any_cons]
  rw [holdsNaN, hitems]

/-- A record holds what is no number if one of its fields does. -/
@[simp] theorem holdsNaN_object (mark : Mark) (fields : List (String × Value)) :
    (Value.object mark fields).holdsNaN = fields.any fun field => field.2.holdsNaN := by
  have hfields : fieldsHoldNaN fields = fields.any fun field => field.2.holdsNaN := by
    induction fields with
    | nil => rfl
    | cons field fields ih => rw [fieldsHoldNaN, ih, List.any_cons]
  rw [holdsNaN, hfields]

/-- A map holds what is no number if a key or a value in it does. -/
@[simp] theorem holdsNaN_map (mark : Mark) (entries : List (Value × Value)) :
    (Value.map mark entries).holdsNaN =
      entries.any fun entry => entry.1.holdsNaN || entry.2.holdsNaN := by
  have hentries : entriesHoldNaN entries =
      entries.any fun entry => entry.1.holdsNaN || entry.2.holdsNaN := by
    induction entries with
    | nil => rfl
    | cons entry entries ih => rw [entriesHoldNaN, ih, List.any_cons]
  rw [holdsNaN, hentries]

mutual

/-- What is seen of a value. -/
def seen (marks : Sight) : Value → Value
  | .array mark items =>
    .array (marks.mark (items.any holdsNaN) mark) (seenItems marks items)
  | .object mark fields =>
    .object (marks.mark (fields.any fun field => field.2.holdsNaN) mark) (seenFields marks fields)
  | .map mark entries =>
    .map (marks.mark (entries.any fun entry => entry.1.holdsNaN || entry.2.holdsNaN) mark)
      (seenEntries marks entries)
  | v => v

/-- What is seen of the items of a sequence. -/
def seenItems (marks : Sight) : List Value → List Value
  | [] => []
  | item :: items => seen marks item :: seenItems marks items

/-- What is seen of the fields of a record. -/
def seenFields (marks : Sight) : List (String × Value) → List (String × Value)
  | [] => []
  | (name, value) :: fields => (name, seen marks value) :: seenFields marks fields

/-- What is seen of the entries of a map. -/
def seenEntries (marks : Sight) : List (Value × Value) → List (Value × Value)
  | [] => []
  | (key, value) :: entries => (seen marks key, seen marks value) :: seenEntries marks entries

end

/-- The value with all marks taken away. -/
def unmarked (v : Value) : Value :=
  v.seen .bare

section Containers

variable (marks : Sight) (mark : Mark)

/-- What is seen of a sequence is a sequence of what is seen of its items. -/
@[simp] theorem seen_array (items : List Value) :
    (Value.array mark items).seen marks =
      .array (marks.mark (items.any holdsNaN) mark) (items.map (seen marks)) := by
  have hitems : seenItems marks items = items.map (seen marks) := by
    induction items with
    | nil => rfl
    | cons item items ih => rw [seenItems, ih, List.map_cons]
  rw [seen, hitems]

/-- What is seen of a record is a record of what is seen of its fields. -/
@[simp] theorem seen_object (fields : List (String × Value)) :
    (Value.object mark fields).seen marks =
      .object (marks.mark (fields.any fun field => field.2.holdsNaN) mark)
        (Keyed.mapValues (seen marks) fields) := by
  have hfields : seenFields marks fields = Keyed.mapValues (seen marks) fields := by
    induction fields with
    | nil => rfl
    | cons field fields ih => rw [seenFields, ih, Keyed.mapValues_cons]
  rw [seen, hfields]

/-- What is seen of a map is a map of what is seen of its keys and values. -/
@[simp] theorem seen_map (entries : List (Value × Value)) :
    (Value.map mark entries).seen marks =
      .map (marks.mark (entries.any fun entry => entry.1.holdsNaN || entry.2.holdsNaN) mark)
        (entries.map (Prod.map (seen marks) (seen marks))) := by
  have hentries : seenEntries marks entries = entries.map (Prod.map (seen marks) (seen marks)) := by
    induction entries with
    | nil => rfl
    | cons entry entries ih => rw [seenEntries, ih, List.map_cons]; rfl
  rw [seen, hentries]

end Containers

@[simp] theorem seen_null (marks : Sight) : seen marks .null = .null := rfl

@[simp] theorem seen_bool (marks : Sight) (b : Bool) : seen marks (.bool b) = .bool b := rfl

@[simp] theorem seen_int (marks : Sight) (n : Int64) : seen marks (.int n) = .int n := rfl

@[simp] theorem seen_float (marks : Sight) (x : Float) : seen marks (.float x) = .float x := rfl

@[simp] theorem seen_string (marks : Sight) (text : String) :
    seen marks (.string text) = .string text := rfl

@[simp] theorem seen_ofNat (marks : Sight) (n : Nat) : seen marks (ofNat n) = ofNat n := rfl

/-- Where all marks are seen, the value itself is. -/
@[simp] theorem seen_full : seen .full = id := by
  funext v
  induction v using induction_on with
  | null | bool | int | float | string => rfl
  | array mark items ih =>
    rw [seen_array, List.map_congr_left ih, List.map_id]
    rfl
  | object mark fields ih =>
    have hfields : Keyed.mapValues (seen .full) fields = Keyed.mapValues id fields :=
      List.map_congr_left fun field hmem => congrArg (field.1, ·) (ih field hmem)
    rw [seen_object, hfields, Keyed.mapValues_id]
    rfl
  | map mark entries ih =>
    have hentries : entries.map (Prod.map (seen .full) (seen .full)) = entries.map id :=
      List.map_congr_left fun entry hmem => Prod.ext (ih entry hmem).1 (ih entry hmem).2
    rw [seen_map, hentries, List.map_id]
    rfl

/-- Without any marks, what is seen of a value is the value without its marks. -/
@[simp] theorem seen_bare : seen .bare = unmarked := rfl

/-- The items of a sequence lose their marks with it. -/
@[simp] theorem unmarked_array (mark : Mark) (items : List Value) :
    (Value.array mark items).unmarked = .array .new (items.map unmarked) :=
  seen_array .bare mark items

/-- The fields of a record lose their marks with it. -/
@[simp] theorem unmarked_object (mark : Mark) (fields : List (String × Value)) :
    (Value.object mark fields).unmarked = .object .new (Keyed.mapValues unmarked fields) :=
  seen_object .bare mark fields

/-- The keys and values of a map lose their marks with it. -/
@[simp] theorem unmarked_map (mark : Mark) (entries : List (Value × Value)) :
    (Value.map mark entries).unmarked = .map .new (entries.map (Prod.map unmarked unmarked)) :=
  seen_map .bare mark entries

mutual

/-- Marking new containers changes nothing but marks. -/
theorem unmarked_marked (run : Nat) : ∀ (v : Value) (number : Nat),
    (marked run v number).1.unmarked = v.unmarked
  | .array .new items, number => by
    simpa [marked] using unmarkedItems_marked run items (number + 1)
  | .object .new fields, number => by
    simpa [marked] using unmarkedFields_marked run fields (number + 1)
  | .map .new entries, number => by
    simpa [marked] using unmarkedEntries_marked run entries (number + 1)
  | .array (.outer _) _, _ | .array (.made _ _) _, _ | .object (.outer _) _, _
  | .object (.made _ _) _, _ | .map (.outer _) _, _ | .map (.made _ _) _, _ => by simp [marked]
  | .null, _ | .bool _, _ | .int _, _ | .float _, _ | .string _, _ => by simp [marked]

/-- The items that have been marked are the same without marks. -/
theorem unmarkedItems_marked (run : Nat) : ∀ (items : List Value) (number : Nat),
    (markedItems run items number).1.map unmarked = items.map unmarked
  | [], _ => by simp [markedItems]
  | item :: items, number => by
    simp only [markedItems, List.map_cons, unmarked_marked run item,
      unmarkedItems_marked run items]

/-- The fields that have been marked are the same without marks. -/
theorem unmarkedFields_marked (run : Nat) : ∀ (fields : List (String × Value)) (number : Nat),
    Keyed.mapValues unmarked (markedFields run fields number).1 = Keyed.mapValues unmarked fields
  | [], _ => by simp [markedFields]
  | (name, value) :: fields, number => by
    simp only [markedFields, Keyed.mapValues_cons, unmarked_marked run value,
      unmarkedFields_marked run fields]

/-- The entries that have been marked are the same without marks. -/
theorem unmarkedEntries_marked (run : Nat) : ∀ (entries : List (Value × Value)) (number : Nat),
    (markedEntries run entries number).1.map (Prod.map unmarked unmarked) =
      entries.map (Prod.map unmarked unmarked)
  | [], _ => by simp [markedEntries]
  | (key, value) :: entries, number => by
    simp only [markedEntries, List.map_cons, Prod.map, unmarked_marked run key,
      unmarked_marked run value, unmarkedEntries_marked run entries]

end

variable {marks : Sight}

mutual

/-- The texts of a value are those of what is seen of it. -/
theorem texts_seen : ∀ v : Value,
    (v.seen marks).output = v.output ∧ (v.seen marks).data = v.data
  | .array _ items => by
    simp [output, data, texts_seenItems items]
  | .object _ fields => by
    simp [output, data, texts_seenFields fields]
  | .map _ entries => by
    simp [output, data, texts_seenEntries entries]
  | .null | .bool _ | .int _ | .float _ | .string _ => by simp

/-- What is seen of items has their texts. -/
theorem texts_seenItems : ∀ items : List Value,
    outputs (items.map (seen marks)) = outputs items ∧
      dataItems (items.map (seen marks)) = dataItems items
  | [] => by simp
  | item :: items => by
    simp [outputs, dataItems, texts_seen item, texts_seenItems items]

/-- What is seen of fields has their texts. -/
theorem texts_seenFields : ∀ fields : List (String × Value),
    dataFields (Keyed.mapValues (seen marks) fields) = dataFields fields
  | [] => by simp
  | (name, value) :: fields => by
    simp [dataFields, texts_seen value, texts_seenFields fields]

/-- What is seen of entries has their texts. -/
theorem texts_seenEntries : ∀ entries : List (Value × Value),
    dataEntries (entries.map (Prod.map (seen marks) (seen marks))) = dataEntries entries
  | [] => by simp
  | (key, value) :: entries => by
    simp [dataEntries, texts_seen key, texts_seen value, texts_seenEntries entries]

end

/-- Two values look alike. -/
def Alike (marks : Sight) (v w : Value) : Prop :=
  v.seen marks = w.seen marks

/-- A value looks like itself. -/
@[refl, simp] theorem Alike.refl (v : Value) : Alike marks v v := rfl

/-- Values look like each other. -/
theorem Alike.symm {v w : Value} (h : Alike marks v w) : Alike marks w v := Eq.symm h

/-- Where all marks are seen, only what is equal looks alike. -/
@[simp] theorem alike_full {v w : Value} : Alike .full v w ↔ v = w := by
  simp [Alike]

/-- Truth does not depend on marks. -/
@[simp] theorem truthy_seen (v : Value) : (v.seen marks).truthy = v.truthy := by
  cases v <;> simp [truthy]

/-- Whether a value is `null` does not depend on marks. -/
@[simp] theorem isNull_seen (v : Value) : (v.seen marks).isNull = v.isNull := by
  cases v <;> simp [isNull]

/-- The output text of a value is that of what is seen of it. -/
@[simp] theorem output_seen (v : Value) : (v.seen marks).output = v.output :=
  (texts_seen v).1

/-- The text of a key does not depend on marks. -/
@[simp] theorem keyText_seen (v : Value) : (v.seen marks).keyText = v.keyText :=
  output_seen v

/-- The word of a value does not depend on marks. -/
@[simp] theorem word?_seen (v : Value) : (v.seen marks).word? = v.word? := by
  cases v <;> simp [word?]

/-- What a key answers to does not depend on marks. -/
@[simp] theorem answersTo_seen (name : String) (v : Value) :
    (v.seen marks).answersTo name = v.answersTo name := by
  cases v <;> simp [answersTo]

/-- The items of a sequence are seen as the sequence is. -/
theorem items?_seen (v : Value) :
    (v.seen marks).items? = v.items?.map (List.map (seen marks)) := by
  cases v <;> simp [items?]

/-- The part under a segment is seen as the value is. -/
theorem get?_seen (v : Value) (segment : String) :
    (v.seen marks).get? segment = (v.get? segment).map (seen marks) := by
  cases v with
  | array _ items =>
    simp only [seen_array, get?]
    cases Number.indexOfText? segment.toList <;> simp
  | object _ fields => simp only [seen_object, get?, Keyed.find?_mapValues]
  | map _ entries =>
    simp only [seen_map, get?, List.find?_map, Option.map_map, Function.comp_def, Prod.map_fst,
      Prod.map_snd, answersTo_seen]
  | null | bool | int | float | string => rfl

/-- How much a value holds does not depend on marks. -/
@[simp] theorem count_seen (v : Value) : (v.seen marks).count = v.count := by
  cases v <;> simp [count]

/-- A count has no marks. -/
@[simp] theorem seen_count (v : Value) : v.count.seen marks = v.count := by
  cases v <;> simp [count]

/-- What a path leads to is seen as the value is. -/
theorem read_seen (v : Value) (segments : List String) :
    (v.seen marks).read segments = (v.read segments).seen marks := by
  induction segments generalizing v with
  | nil => rfl
  | cons segment rest ih =>
    simp only [read, get?_seen]
    split
    · exact ih v
    · cases v.get? segment with
      | some part => exact ih part
      | none =>
        simp only [Option.map_none, count_seen]
        split <;> simp

/-- A value is dropped for not being truthy whatever its marks are. -/
theorem filterTruthy_seen (v : Value) :
    (v.seen marks).filterTruthy = v.filterTruthy.map (seen marks) := by
  simp only [filterTruthy, truthy_seen]
  split <;> rfl

/-- Only a boolean looks like it. -/
theorem alike_bool {b : Bool} {w : Value} : Alike marks (.bool b) w ↔ w = .bool b := by
  cases w <;> simp [Alike, eq_comm]

/-- Values that look alike are truthy alike. -/
theorem Alike.truthy {v w : Value} (h : Alike marks v w) : v.truthy = w.truthy := by
  rw [← truthy_seen v, h, truthy_seen]

/-- Of values that look alike both are `null` or neither. -/
theorem Alike.isNull {v w : Value} (h : Alike marks v w) : v.isNull = w.isNull := by
  rw [← isNull_seen v, h, isNull_seen]

/-- Values that look alike have one output. -/
theorem Alike.output {v w : Value} (h : Alike marks v w) : v.output = w.output := by
  rw [← output_seen v, h, output_seen]

/-- Values that look alike have one text as keys. -/
theorem Alike.keyText {v w : Value} (h : Alike marks v w) : v.keyText = w.keyText :=
  h.output

end Value

/-! ### Places, frames and scopes -/

namespace Position

/-- What is seen of a place. -/
def seen (marks : Sight) (p : Position) : Position :=
  { p with index := p.index.seen marks }

variable {marks : Sight}

/-- With all marks, everything of a value is seen. -/
@[simp] theorem seen_full : seen .full = id := by
  funext p
  simp [seen]

/-- Which round is the first does not depend on marks. -/
@[simp] theorem isFirst_seen (p : Position) : (p.seen marks).isFirst = p.isFirst := by
  simp [isFirst, seen]

/-- Which round is the last does not depend on marks. -/
@[simp] theorem isLast_seen (p : Position) : (p.seen marks).isLast = p.isLast := by
  simp [isLast, seen]

@[simp] theorem lengthValue_seen (p : Position) :
    (p.seen marks).lengthValue = p.lengthValue := rfl

end Position

/-- What is read of a place depends on what is seen of it. -/
theorem PositionRead.read_seen {marks : Sight} (r : PositionRead) (p : Option Position) :
    r.read (p.map (Position.seen marks)) = (r.read p).seen marks := by
  cases p with
  | none => simp [read]
  | some p =>
    cases r
    · rfl
    · simp [read]
    · simp [read]

/-- What is seen of a frame. -/
def Frame.seen (marks : Sight) (f : Frame) : Frame :=
  { bindings := Keyed.mapValues (Value.seen marks) f.bindings
    position := f.position.map (Position.seen marks)
    context := f.context.seen marks }

/-- What a frame binds is found whatever the marks are. -/
theorem Frame.find?_seen {marks : Sight} (f : Frame) (name : String) :
    (f.seen marks).find? name = (f.find? name).map (Value.seen marks) := by
  have hlength : ∀ p : Position, p.lengthValue.seen marks = p.lengthValue := by
    rintro ⟨index, _ | length⟩ <;> simp [Position.lengthValue]
  simp only [find?, seen, Keyed.find?_mapValues]
  cases Keyed.find? name f.bindings with
  | some v => rfl
  | none =>
    cases f.position with
    | none => rfl
    | some p =>
      simp only [Option.map_none, Option.none_or, Option.map_some, Option.bind_some,
        Position.lengthValue_seen]
      split
      · rfl
      · split
        · rw [Option.map_some, hlength]
        · rfl

/-- What is reached in a frame is reached whatever the marks are. -/
theorem Frame.reach?_seen {marks : Sight} (f : Frame) (name : String) :
    (f.seen marks).reach? name = (f.reach? name).map (Value.seen marks) := by
  have hcontext : (f.seen marks).context = f.context.seen marks := rfl
  simp only [reach?, find?_seen, hcontext, Value.get?_seen]
  cases f.find? name <;> rfl

namespace Scope

/-- What is seen of a scope. -/
def seen (marks : Sight) (s : Scope) : Scope :=
  { context := s.context.seen marks
    frames := s.frames.map (Frame.seen marks)
    position := s.position.map (Position.seen marks) }

/-- Two scopes look alike. -/
def Alike (marks : Sight) (s t : Scope) : Prop :=
  s.seen marks = t.seen marks

variable {marks : Sight} {s t : Scope}

/-- A scope looks like itself. -/
@[refl, simp] theorem Alike.refl (s : Scope) : Alike marks s s := rfl

/-- With all marks, everything of a scope is seen. -/
@[simp] theorem seen_full : seen .full = id := by
  have hframe : Frame.seen .full = id := by
    funext f
    simp [Frame.seen]
  funext s
  simp [seen, hframe]

/-- Where all marks are seen, only equal scopes look alike. -/
theorem alike_full : Alike .full s t ↔ s = t := by
  simp [Alike]

/-- Scopes that look alike have contexts that do. -/
theorem Alike.context (h : Alike marks s t) : s.context.Alike marks t.context :=
  congrArg Scope.context h

/-- Scopes that look alike have places that do. -/
theorem Alike.position (h : Alike marks s t) :
    s.position.map (Position.seen marks) = t.position.map (Position.seen marks) :=
  congrArg Scope.position h

/-- What is seen of a scope that is entered is entered in what is seen around it. -/
theorem enter_seen (s : Scope) (context : Value) (bindings : Keyed Value)
    (position : Option Position) :
    (s.enter context bindings position).seen marks =
      (s.seen marks).enter (context.seen marks) (Keyed.mapValues (Value.seen marks) bindings)
        (position.map (Position.seen marks)) := rfl

/-- What is seen of a scope with a new context has what is seen of the context. -/
theorem rebase_seen (s : Scope) (context : Value) (position : Option Position) :
    (s.rebase context position).seen marks =
      (s.seen marks).rebase (context.seen marks) (position.map (Position.seen marks)) := rfl

/-- Scopes that look alike do so inside of a block that is entered alike. -/
theorem Alike.enter {v w : Value} {bindings bindings' : Keyed Value}
    {position position' : Option Position} (h : Alike marks s t) (hcontext : v.Alike marks w)
    (hbindings : Keyed.mapValues (Value.seen marks) bindings =
      Keyed.mapValues (Value.seen marks) bindings')
    (hposition : position.map (Position.seen marks) = position'.map (Position.seen marks)) :
    Alike marks (s.enter v bindings position) (t.enter w bindings' position') := by
  unfold Alike
  rw [enter_seen, enter_seen, h, hcontext, hbindings, hposition]

/-- Scopes that look alike do so after their contexts have been replaced alike. -/
theorem Alike.rebase {v w : Value} {position position' : Option Position} (h : Alike marks s t)
    (hcontext : v.Alike marks w)
    (hposition : position.map (Position.seen marks) = position'.map (Position.seen marks)) :
    Alike marks (s.rebase v position) (t.rebase w position') := by
  unfold Alike
  rw [rebase_seen, rebase_seen, h, hcontext, hposition]

/-- What an upward read finds depends on what is seen of the scope. -/
theorem find?_seen (s : Scope) (name : String) :
    (s.seen marks).find? name = (s.find? name).map (Value.seen marks) := by
  simp only [find?, seen, Value.get?_seen]
  have hframes : ∀ frames : List Frame,
      (frames.map (Frame.seen marks)).findSome? (·.reach? name) =
        (frames.findSome? (·.reach? name)).map (Value.seen marks) := by
    intro frames
    induction frames with
    | nil => rfl
    | cons f frames ih =>
      simp only [List.map_cons, List.findSome?_cons, Frame.reach?_seen]
      cases f.reach? name with
      | some v => rfl
      | none => exact ih
  rw [hframes]
  cases s.context.get? name with
  | none => rfl
  | some v =>
    simp only [Option.map_some, Option.bind_some, Value.filterTruthy_seen]
    cases v.filterTruthy <;> rfl

/-- What a path leads to is found whatever the marks are. -/
theorem lookup_seen (s : Scope) (path : String) :
    (s.seen marks).lookup path = (s.lookup path).seen marks := by
  simp only [lookup]
  split
  · rfl
  · split
    · simp
    · next first rest _ =>
      rw [find?_seen]
      cases s.find? first with
      | none => simp
      | some v => exact Value.read_seen v rest

end Scope

/-! ### Loops and contexts -/

variable {marks : Sight}

/-- A record that has just been made holds what is seen of its fields. -/
@[simp] theorem Value.seen_object_new (fields : Keyed Value) :
    (Value.object .new fields).seen marks =
      .object .new (Keyed.mapValues (Value.seen marks) fields) := by
  simp

/-- What a loop runs over depends on what is seen of its value. -/
theorem Value.items_seen (v : Value) :
    (v.seen marks).items = v.items.map (Prod.map (Position.seen marks) (Value.seen marks)) := by
  cases v with
  | array _ vs => apply List.ext_getElem <;> simp [Value.items, Position.seen]
  | string text => apply List.ext_getElem <;> simp [Value.items, Position.seen]
  | object _ fields =>
    simp [Value.items, Keyed.mapValues, Function.comp_def, Position.seen]
  | map _ entries => simp [Value.items, Function.comp_def, Position.seen]
  | null | bool | int | float => rfl

/-- The context of a block depends on what is seen of its parts. -/
theorem newContext_seen (named : Keyed Value) (value : Option Value) :
    newContext (Keyed.mapValues (Value.seen marks) named) (value.map (Value.seen marks)) =
      ((newContext named value).1.seen marks, (newContext named value).2) := by
  cases named with
  | nil =>
    cases value with
    | none => simp [newContext]
    | some value => rfl
  | cons entry named =>
    rcases value with _ | (_ | _ | _ | _ | _ | _ | ⟨_, fields⟩ | _) <;>
      simp [newContext, ← Keyed.extend_mapValues]

/-- The context of a called template depends on what is seen of its parts. -/
theorem calledContext_seen (named : Keyed Value) (caller : Value) :
    calledContext (Keyed.mapValues (Value.seen marks) named) (caller.seen marks) =
      (calledContext named caller).seen marks := by
  simp only [calledContext, Keyed.find?_mapValues, Keyed.isEmpty_mapValues]
  cases Keyed.find? "" named with
  | some context => rfl
  | none =>
    simp only [Option.map_none]
    split
    · rfl
    · exact (Value.seen_object_new named).symm

end Stencil
