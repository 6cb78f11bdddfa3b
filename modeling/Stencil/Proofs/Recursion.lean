import Stencil.Proofs.Dotted
import Stencil.Proofs.Lowering
import Stencil.Proofs.Scoping
import Stencil.Proofs.Separators

/-!
# Reading through all scopes

A template may be read so that all of its names are looked up in the scopes around a block, too.
Outside of all blocks there is nothing around, so that such a template renders as it does when names
are read from the context, in every strategy and in every argument. There are two exceptions. The
upward read of a name passes over a field that is not truthy, since it would go on to the blocks
around, and so finds nothing. And the operations of blocks can be called like helpers: there are
scopes in their arguments then, which nothing in the template shows.

The two ways also take paths apart differently. Slashes and the word `this` mean nothing special to
an upward read, which does not leave out empty segments either: it looks for a field with an empty
name where a path starts with one, and a count with a point after it is none. Such paths are not
compared.

## Main results

* `IsPointed.lookup_eq_resolve`: in every scope, both reads of a path lead to the same value when
  the context has something truthy under its first segment.
* `ReadAlike.lookup_eq`: with nothing around, both reads of a path lead to the same value.
* `Spells.lowered`: the expression of a template outside of blocks, and what it is lowered to.
* `Engine.recurse_conservative`: a template outside of blocks renders alike in both ways.
* `Engine.recurse_conservative_fails`: the exceptions.
-/

namespace Stencil

open Source

/-! ### Paths that both reads take apart alike -/

/-- Only points separate the segments of a path, and both reads take it apart alike: its first
segment is not empty, none is the word `this`, and no point follows a count at its end. -/
structure IsPointed (path : String) : Prop where
  noSlash : '/' ∉ path.toList
  start : firstSegment path ≠ ""
  noThis : "this" ∉ Text.split (· == '.') path
  counted : ∀ names, "length" :: names <:+ Text.split (· == '.') path →
    (∀ name ∈ names, name = "") → names = []

namespace Text

/-- The first piece of a text ends at the first separator. -/
theorem head?_splitOn (sep : Char → Bool) (cs : List Char) :
    (splitOn sep cs).head? = some (cs.takeWhile fun c => !sep c) := by
  induction cs with
  | nil => rfl
  | cons c cs ih =>
    unfold splitOn
    cases hc : sep c with
    | true => simp [hc]
    | false =>
      simp only [Bool.false_eq_true, if_false]
      split
      · next hnil => exact absurd hnil (splitOn_ne_nil sep cs)
      · next piece pieces hpieces =>
        rw [hpieces] at ih
        simpa [hc] using ih

end Text

/-- A path without slashes starts with its first segment. -/
theorem Source.exists_split_firstSegment {path : String} (hslash : '/' ∉ path.toList) :
    ∃ rest, Text.split (· == '.') path = firstSegment path :: rest := by
  have hhead := Text.head?_splitOn Path.isSeparator path.toList
  obtain ⟨piece, pieces, hpieces⟩ :=
    List.exists_cons_of_ne_nil (Text.splitOn_ne_nil Path.isSeparator path.toList)
  rw [hpieces, List.head?_cons, Option.some.injEq] at hhead
  rw [← Path.split_isSeparator hslash, Text.split, hpieces, firstSegment, ← hhead]
  exact ⟨_, rfl⟩

namespace IsPointed

variable {path : String}

/-- No count is missed in a path that both reads take apart alike. -/
theorem not_countMissed (h : IsPointed path) (v count : Value) :
    ¬Value.CountMissed v (Text.split (· == '.') path) count := by
  rintro ⟨before, blanks, hnames, ⟨hblanks, hblank⟩, -⟩
  exact hblanks (h.counted blanks ⟨before, hnames.symm⟩ hblank)

/-- A read of the context may stay at empty segments as well. -/
theorem resolve_eq (h : IsPointed path) (v : Value) :
    (Path.ofText path).resolve v = v.read (Text.split (· == '.') path) := by
  rw [Path.resolve, Path.segments_ofText h.noSlash h.noThis,
    Value.read_filter_of_not_countMissed (h.not_countMissed v)]

/-- A pointed path begins with its first segment. -/
theorem exists_split (h : IsPointed path) : ∃ rest,
    Text.split (· == '.') path = firstSegment path :: rest :=
  exists_split_firstSegment h.noSlash

/-- The first segment of a pointed path is not the word `this`. -/
theorem firstSegment_ne_this (h : IsPointed path) : firstSegment path ≠ "this" := by
  obtain ⟨rest, hrest⟩ := h.exists_split
  intro hthis
  exact h.noThis (by rw [hrest, hthis]; exact List.mem_cons_self)

/-- There are no steps in the path. -/
theorem soughtName_eq (h : IsPointed path) : Scope.soughtName path = path.toList := by
  have habsent : ¬['.', '/'] <:+: path.toList := fun hstep =>
    h.noSlash (hstep.subset (by simp))
  unfold Scope.soughtName
  rw [Scope.dropUp_of_absent habsent, Scope.dropStay_of_absent habsent]
  split
  · next cs hpath =>
    have hthis : firstSegment path = "this" := by
      rw [firstSegment, hpath]
      rfl
    exact absurd hthis h.firstSegment_ne_this
  · rfl

/-- The path leads away from the context itself. -/
theorem ne_here (h : IsPointed path) :
    ¬(path.toList = [] ∨ path.toList = ['t', 'h', 'i', 's'] ∨ path.toList = ['.']) := by
  have hempty := h.start
  have hthis := h.firstSegment_ne_this
  rw [firstSegment] at hempty hthis
  rintro (hpath | hpath | hpath) <;> rw [hpath] at hempty hthis
  · exact hempty rfl
  · exact hthis rfl
  · exact hempty rfl

/-- An upward read follows the segments of the path. -/
theorem lookup_eq (h : IsPointed path) (s : Scope) :
    s.lookup path = s.lookupNames (Text.split (· == '.') path) := by
  unfold Scope.lookup
  rw [h.soughtName_eq, if_neg h.ne_here]
  rfl

/-- An upward read leads where the read of the context does, if that has something truthy under the
first segment. -/
theorem lookup_eq_resolve (h : IsPointed path) {s : Scope}
    (hfirst : (s.context.get? (firstSegment path)).any Value.truthy = true) :
    s.lookup path = (Path.ofText path).resolve s.context := by
  obtain ⟨rest, hrest⟩ := h.exists_split
  obtain ⟨found, hfound, htruthy⟩ := (Option.any_eq_true _ _).mp hfirst
  have hfind : s.find? (firstSegment path) = some found := by
    simp [Scope.find?, hfound, Value.filterTruthy, htruthy]
  calc s.lookup path
    _ = s.lookupNames (firstSegment path :: rest) := by rw [h.lookup_eq, hrest]
    _ = found.read rest := by rw [Scope.lookupNames, hfind]; rfl
    _ = s.context.read (firstSegment path :: rest) :=
      (Value.read_cons_of_some h.start hfound rest).symm
    _ = (Path.ofText path).resolve s.context := by rw [h.resolve_eq, hrest]

end IsPointed

/-- What is null is the null value. -/
theorem Value.eq_null {v : Value} (h : v.isNull = true) : v = .null := by
  cases v <;> first | rfl | cases h

/-- The two reads of a path lead to the same value of some data: it starts with a field that is
truthy, or leads nowhere. -/
structure ReadAlike (data : Value) (path : String) : Prop where
  pointed : IsPointed path
  reads : (data.get? (firstSegment path)).any Value.truthy = true ∨
    ((Path.ofText path).resolve data).isNull = true

namespace ReadAlike

variable {data : Value} {path : String}

/-- With nothing around, an upward read leads where the read of the context does. -/
theorem lookup_eq (h : ReadAlike data path) :
    (Scope.root data).lookup path = (Path.ofText path).resolve data := by
  by_cases hfirst : (data.get? (firstSegment path)).any Value.truthy = true
  · exact h.pointed.lookup_eq_resolve hfirst
  · have hnull := Value.eq_null (h.reads.resolve_left hfirst)
    obtain ⟨rest, hrest⟩ := h.pointed.exists_split
    have hfind : (Scope.root data).find? (firstSegment path) = none := by
      rw [Scope.find?_root]
      cases hfield : data.get? (firstSegment path) with
      | none => rfl
      | some v => simpa [hfield, Value.filterTruthy] using hfirst
    rw [h.pointed.lookup_eq, hrest, Scope.lookupNames, hfind, hnull]
    rfl

/-- What is marked anew has the same fields. -/
theorem of_alike (h : ReadAlike data path) {v : Value} (hv : v.Alike .bare data) :
    ReadAlike v path where
  pointed := h.pointed
  reads := by
    have htruthy : ∀ w : Value, (w.get? (firstSegment path)).any Value.truthy =
        ((w.seen .bare).get? (firstSegment path)).any Value.truthy := by
      intro w
      rw [Value.get?_seen]
      cases w.get? (firstSegment path) with
      | none => rfl
      | some u => exact (Value.truthy_seen u).symm
    have hnull : ∀ w : Value, ((Path.ofText path).resolve w).isNull =
        ((Path.ofText path).resolve (w.seen .bare)).isNull := by
      intro w
      unfold Path.resolve
      rw [Value.read_seen, Value.isNull_seen]
    have hseen : v.seen .bare = data.seen .bare := hv
    rw [htruthy, hnull, hseen, ← htruthy, ← hnull]
    exact h.reads

/-- At the root all reads of a value like the data are reads here. -/
theorem readsHere {v : Value} (hv : v.Alike .bare data) :
    (Scope.root v).ReadsHere (ReadAlike data) :=
  fun _ h => (h.of_alike hv).lookup_eq

end ReadAlike

/-! ### Names of called operations -/

/-- What templates call without naming it: names are looked up by an upward read, and to join texts,
to escape, and to choose between a name and an operation are no blocks. -/
structure Operations.Usual (operations : Operations) : Prop where
  lookup : Keyed.find? "rvar" operations = some .lookup
  cat : operations.CallsNoBlock "cat"
  escape : operations.CallsNoBlock "escape"
  default : operations.CallsNoBlock "default"

/-- A name of an operation that is no block calls no block. -/
theorem Operations.callsNoBlock {operations : Operations} {name : String} {op : Operation}
    (hop : Keyed.find? name operations = some op) (hblock : op.isBlock = false) :
    operations.CallsNoBlock name := by
  intro op' hop'
  rw [hop] at hop'
  cases hop'
  exact hblock

/-- Every engine starts out this way. -/
theorem Operations.usual_builtin : Operations.builtin.Usual :=
  ⟨rfl, callsNoBlock rfl rfl, callsNoBlock rfl rfl, callsNoBlock rfl rfl⟩

namespace Source

mutual

/-- The names of the operations that a term calls. -/
def termCalls : Term → List String
  | .literal _ | .path _ => []
  | .group (.plain (.path name) :: args) => name :: argCalls args
  | .group (.plain term :: _) => termCalls term
  | .group _ => []

/-- The operations that a parameter calls. -/
def paramCalls : Param → List String
  | .plain term => termCalls term
  | .named _ term => termCalls term
  | .block _ => []

/-- The names of the operations that parameters call. -/
def argCalls : List Param → List String
  | [] => []
  | param :: params => paramCalls param ++ argCalls params

end

/-- The names of the operations that the tag of a written value calls. -/
def Tag.calls : Tag → List String
  | .value _ [.plain term] => termCalls term
  | .value _ (.plain (.path name) :: args) => name :: argCalls args
  | _ => []

/-- A token outside of all blocks: a text, a comment, or a written value that calls no block. Each
of its paths is read in one way only, or leads to the same value in both ways. -/
structure Sign.Unnested (operations : Operations) (isOperation : String → Bool) (data : Value)
    (sign : Sign) : Prop where
  written : (∃ text, sign = .text text) ∨ sign = .tag .comment ∨
    ∃ escaped params, sign = .tag (.value escaped params)
  calls : ∀ tag, sign = .tag tag → ∀ name ∈ tag.calls, operations.CallsNoBlock name
  paths : ∀ path ∈ sign.paths isOperation, IsHere path ∨ IsUpward path ∨ ReadAlike data path

/-! ### What is lowered -/

section

variable {operations : Operations} {plain : String → Prop}

open Stencil.Expr (Lowered)

/-- Lowered parts are added to lowered parts. -/
theorem lowered_addPart {e e' : Expr} {es es' : List Expr} (h : Lowered operations plain e e')
    (hs : List.Forall₂ (Lowered operations plain) es es') :
    List.Forall₂ (Lowered operations plain) (addPart e es) (addPart e' es') := by
  unfold addPart
  split
  · next a b rest =>
    obtain rfl := (h.literal_iff (.string a)).mp rfl
    cases hs with
    | cons hb hrest =>
      obtain rfl := (hb.literal_iff (.string b)).mp rfl
      exact .cons (.refl _) hrest
  · next hne =>
    split
    · next a b rest =>
      obtain rfl := (h.literal_iff (.string a)).mpr rfl
      cases hs with
      | cons hb hrest =>
        obtain rfl := (hb.literal_iff (.string b)).mpr rfl
        exact absurd rfl (hne a b _ rfl)
    · exact .cons h hs

/-- Bodies are lowered with their parts. -/
theorem lowered_concat (hcat : operations.CallsNoBlock "cat") {es es' : List Expr}
    (h : List.Forall₂ (Lowered operations plain) es es') :
    Lowered operations plain (concat es) (concat es') := by
  have hfolded : List.Forall₂ (Lowered operations plain) (es.foldr addPart [])
      (es'.foldr addPart []) := by
    induction h with
    | nil => exact .nil
    | cons he _ ih => exact lowered_addPart he ih
  unfold concat
  generalize es.foldr addPart [] = parts at hfolded ⊢
  generalize es'.foldr addPart [] = parts' at hfolded ⊢
  cases hfolded with
  | nil => exact .refl _
  | cons h hs =>
    cases hs with
    | nil => exact h
    | cons h' hs => exact .call hcat (.cons h (.cons h' hs))

variable {noEscape : Bool} {isOperation : String → Bool}

/-- The naming outside of all blocks. -/
def outside (noEscape recurse : Bool) (isOperation : String → Bool) : Naming :=
  { options := { noEscape, recurse }, isOperation }

/-- A path is not read here when it is neither the context nor a position, and has nothing after
`this`. -/
theorem not_isHere {path : String} (hthis : ¬(path = "this" ∨ path = "."))
    (hat : ¬startsWith "@" path = true) (hafter : afterThis? path = none) : ¬IsHere path := by
  have hword : ∀ {word : List Char} {c : Char}, word = ['t', 'h', 'i', 's', c] →
      Path.isSeparator c = true → ¬word <+: path.toList := by
    rintro _ c rfl hc ⟨rest, hrest⟩
    unfold afterThis? at hafter
    rw [← hrest] at hafter
    simp [hc] at hafter
  rintro (h | h | h | h | h)
  · exact hthis (.inl h)
  · exact hthis (.inr h)
  · exact hat (startsWith_iff.mpr h)
  · exact hword rfl rfl h
  · exact hword rfl rfl h

/-- Where a path is looked up through all scopes only because all paths are, it is lowered to the
read of the context. -/
theorem lowered_pathExpr (usual : operations.Usual) {path : String}
    (h : IsHere path ∨ IsUpward path ∨ plain path) :
    Lowered operations plain ((outside noEscape true isOperation).pathExpr path)
      ((outside noEscape false isOperation).pathExpr path) := by
  unfold Naming.pathExpr
  split
  · exact .refl _
  · split
    · exact .refl _
    · split
      · exact .refl _
      · next hthis hat _ hafter =>
        have hplain := h.resolve_left (not_isHere hthis hat hafter)
        have hbase : Lowered operations plain (lookupExpr path)
            (if startsWith "../" path || startsWith "./" path then lookupExpr path
              else .path (Path.ofText path)) := by
          split
          · exact .refl _
          · next hup => exact .read usual.lookup (hplain.resolve_left (mt isUpward_iff.mpr hup))
        simp only [outside, List.contains_nil, Bool.or_false, Bool.or_true, if_true]
        split
        · exact .call usual.default (.cons hbase (.cons (.refl _) .nil))
        · exact hbase

mutual

/-- The expression of a term is lowered. -/
theorem lowered_termExpr (usual : operations.Usual) (term : Term)
    (hcalls : ∀ name ∈ termCalls term, operations.CallsNoBlock name)
    (hpaths : ∀ path ∈ termPaths term, IsHere path ∨ IsUpward path ∨ plain path) :
    Lowered operations plain (termExpr (outside noEscape true isOperation) term)
      (termExpr (outside noEscape false isOperation) term) := by
  match term with
  | .literal v => exact .refl _
  | .path text => exact lowered_pathExpr usual (hpaths text (List.mem_singleton.mpr rfl))
  | .group (.plain (.path name) :: args) =>
    rw [termCalls, List.forall_mem_cons] at hcalls
    exact .call hcalls.1 (lowered_argExprs usual args hcalls.2 hpaths)
  | .group (.plain (.literal v) :: args) => exact .refl _
  | .group (.plain (.group params) :: args) =>
    exact lowered_termExpr usual (.group params) hcalls hpaths
  | .group [] | .group (.named _ _ :: _) | .group (.block _ :: _) => exact .refl _

/-- The expression of an argument is lowered. -/
theorem lowered_argExpr (usual : operations.Usual) (param : Param)
    (hcalls : ∀ name ∈ paramCalls param, operations.CallsNoBlock name)
    (hpaths : ∀ path ∈ paramPaths param, IsHere path ∨ IsUpward path ∨ plain path) :
    Lowered operations plain (argExpr (outside noEscape true isOperation) param)
      (argExpr (outside noEscape false isOperation) param) := by
  match param with
  | .plain term => exact lowered_termExpr usual term hcalls hpaths
  | .named name term => exact .named name (lowered_termExpr usual term hcalls hpaths)
  | .block names => exact .refl _

/-- The expressions of arguments are lowered. -/
theorem lowered_argExprs (usual : operations.Usual) (params : List Param)
    (hcalls : ∀ name ∈ argCalls params, operations.CallsNoBlock name)
    (hpaths : ∀ path ∈ argPaths params, IsHere path ∨ IsUpward path ∨ plain path) :
    List.Forall₂ (Lowered operations plain)
      (argExprs (outside noEscape true isOperation) params)
      (argExprs (outside noEscape false isOperation) params) := by
  match params with
  | [] => exact .nil
  | param :: params =>
    rw [argCalls, List.forall_mem_append] at hcalls
    rw [argPaths, List.forall_mem_append] at hpaths
    exact .cons (lowered_argExpr usual param hcalls.1 hpaths.1)
      (lowered_argExprs usual params hcalls.2 hpaths.2)

end

/-- What is written of a lowered expression is lowered. -/
theorem lowered_written (usual : operations.Usual) (escaped : Bool) {e e' : Expr}
    (h : Lowered operations plain e e') :
    Lowered operations plain (written (outside noEscape true isOperation) escaped e)
      (written (outside noEscape false isOperation) escaped e') := by
  unfold written outside
  split
  · exact .call usual.escape (.cons h .nil)
  · exact h

/-- A written value is lowered when its tag calls no block. -/
theorem lowered_ofValue (usual : operations.Usual) {escaped : Bool} {params : List Param}
    {node : Node} (hnode : Node.ofValue escaped params = .ok node)
    (hcalls : ∀ name ∈ (Tag.value escaped params).calls, operations.CallsNoBlock name)
    (hpaths : ∀ path ∈ (Tag.value escaped params).paths isOperation,
      IsHere path ∨ IsUpward path ∨ plain path) :
    Lowered operations plain (nodeExpr (outside noEscape true isOperation) node)
      (nodeExpr (outside noEscape false isOperation) node) := by
  unfold Node.ofValue at hnode
  split at hnode
  · obtain rfl := Except.ok.inj hnode
    exact .refl _
  · next term hterm =>
    obtain rfl := Except.ok.inj hnode
    have htag : (Tag.value escaped [.plain term]).paths isOperation = termPaths term := by
      unfold Tag.paths
      split <;> simp_all
    rw [htag] at hpaths
    exact lowered_written usual escaped (lowered_termExpr usual term hcalls hpaths)
  · next name args hbreak hargs =>
    obtain rfl := Except.ok.inj hnode
    have htag : (Tag.value escaped (.plain (.path name) :: args)).paths isOperation =
        argPaths args := by
      unfold Tag.paths
      split <;> simp_all
    have hnames : (Tag.value escaped (.plain (.path name) :: args)).calls =
        name :: argCalls args := by
      unfold Tag.calls
      split <;> simp_all
    rw [htag] at hpaths
    rw [hnames, List.forall_mem_cons] at hcalls
    exact lowered_written usual escaped
      (.call hcalls.1 (lowered_argExprs usual args hcalls.2 hpaths))
  · cases hnode
  · cases hnode

/-- Outside of all blocks, a template is lowered token by token. -/
theorem Spells.lowered (usual : operations.Usual) {data : Value} {signs : List Sign}
    {nodes : List Node} (h : Spells signs nodes)
    (hsigns : ∀ sign ∈ signs, sign.Unnested operations isOperation data) :
    List.Forall₂ (Lowered operations (ReadAlike data))
      (nodeExprs (outside noEscape true isOperation) nodes)
      (nodeExprs (outside noEscape false isOperation) nodes) := by
  match h with
  | .nil => exact .nil
  | .text s rest =>
    rw [List.forall_mem_cons] at hsigns
    exact .cons (.refl _) (rest.lowered usual hsigns.2)
  | .value hnode rest =>
    rw [List.forall_mem_cons] at hsigns
    exact .cons (lowered_ofValue usual hnode (hsigns.1.calls _ rfl) hsigns.1.paths)
      (rest.lowered usual hsigns.2)
  | .comment rest =>
    rw [List.forall_mem_cons] at hsigns
    exact rest.lowered usual hsigns.2
  | .template hnode rest =>
    rw [List.forall_mem_cons] at hsigns
    rcases hsigns.1.written with ⟨_, hsign⟩ | hsign | ⟨_, _, hsign⟩ <;> cases hsign
  | .block inner rest =>
    rw [List.forall_mem_cons] at hsigns
    rcases hsigns.1.written with ⟨_, hsign⟩ | hsign | ⟨_, _, hsign⟩ <;> cases hsign

/-- With all options a text is refused for the same reason, or has the same nodes. -/
theorem read_cases (source : String) (isOperation : String → Bool) :
    (∃ err, ∀ options, read source options isOperation = .error err) ∨
      ∃ tokens nodes, Token.ofText source = .ok tokens ∧ Node.ofTokens tokens = .ok nodes ∧
        ∀ options, read source options isOperation =
          .ok (concat (nodeExprs { options, isOperation } nodes)) := by
  cases ht : Token.ofText source with
  | error fault =>
    refine .inl ⟨{ fault with source }, fun options => ?_⟩
    simp only [read, ht, bind, Except.bind]
  | ok tokens =>
    cases hn : Node.ofTokens tokens with
    | error fault =>
      refine .inl ⟨{ fault with source }, fun options => ?_⟩
      simp only [read, ht, bind, Except.bind, hn]
    | ok nodes => exact .inr ⟨tokens, nodes, rfl, hn, fun _ => read_eq_ok.mpr ⟨_, _, ht, hn, rfl⟩⟩

end

/-- The words of a sum. -/
theorem readAll?_sum : Param.readAll? "add a.b 1".toList =
    some [.plain (.path "add"), .plain (.path "a.b"), .plain (.literal (.int 1))] := by
  have hnumber : Param.readAll? ['1'] = some [.plain (.literal (.int 1))] := rfl
  have hpath : Param.readAll? ['a', '.', 'b', ' ', '1'] =
      some [.plain (.path "a.b"), .plain (.literal (.int 1))] :=
    Param.readAll?_cons (w := ['.', 'b']) rfl (by decide) (fun _ => rfl)
      (Param.readAll?_gap hnumber)
  have hlist : "add a.b 1".toList = ['a', 'd', 'd', ' ', 'a', '.', 'b', ' ', '1'] := rfl
  rw [hlist]
  exact Param.readAll?_cons (w := ['d', 'd']) rfl (by decide) (fun _ => rfl)
    (Param.readAll?_gap hpath)

/-- The words of a loop that is called like a helper. -/
theorem readAll?_each : Param.readAll? "each xs a".toList =
    some [.plain (.path "each"), .plain (.path "xs"), .plain (.path "a")] := by
  have hpaths : Param.readAll? ['x', 's', ' ', 'a'] =
      some [.plain (.path "xs"), .plain (.path "a")] :=
    Param.readAll?_cons (w := ['s']) rfl (by decide) (fun _ => rfl) (Param.readAll?_gap rfl)
  have hlist : "each xs a".toList = ['e', 'a', 'c', 'h', ' ', 'x', 's', ' ', 'a'] := rfl
  rw [hlist]
  exact Param.readAll?_cons (w := ['a', 'c', 'h']) rfl (by decide) (fun _ => rfl)
    (Param.readAll?_gap hpaths)

end Source

namespace Engine

/-- Builds the template of a text. -/
def compile (engine : Engine) (depth : Nat) (strategy : Strategy) (text : String)
    (options : Options) : EvalM Template := do
  engine.buildTemplate depth strategy (← EvalM.ofExcept (engine.read text options))

/-- To look all names up through all scopes changes nothing outside of blocks. A template of texts,
comments and written values, none of which calls a block, is built and rendered with the same text
or error, and with the same effects, in every strategy and whatever is done between the two, as long
as each of its paths is read in one way only or leads to the same value in both ways. -/
theorem recurse_conservative (engine : Engine) (usual : engine.operations.Usual) {text : String}
    {data : Value}
    (htext : ∀ tokens, Token.ofText (fold text) = .ok tokens → ∀ token ∈ tokens,
      token.sign.Unnested engine.operations engine.hasOperation data)
    (noEscape : Bool) (strategy : Strategy) (depth depth' : Nat) (between : EvalM Unit) :
    (do
      let T ← engine.compile depth strategy text { noEscape, recurse := true }
      between
      T.render engine depth' data) =
    (do
      let T ← engine.compile depth strategy text { noEscape, recurse := false }
      between
      T.render engine depth' data) := by
  rcases read_cases (fold text) engine.hasOperation with
    ⟨err, herr⟩ | ⟨tokens, nodes, ht, hn, hread⟩
  · simp only [compile, read, readFolded, herr]
  · have hlowered : Expr.Lowered engine.operations (ReadAlike data)
        (concat (nodeExprs (outside noEscape true engine.hasOperation) nodes))
        (concat (nodeExprs (outside noEscape false engine.hasOperation) nodes)) := by
      refine lowered_concat usual.cat ((Spells.of_ofTokens hn).lowered usual ?_)
      intro sign hsign
      obtain ⟨token, htoken, rfl⟩ := List.mem_map.mp hsign
      exact htext tokens ht token htoken
    have hcompile : ∀ recurse, engine.compile depth strategy text { noEscape, recurse } =
        engine.buildTemplate depth strategy
          (concat (nodeExprs (outside noEscape recurse engine.hasOperation) nodes)) := by
      intro recurse
      simp only [compile, read, readFolded, hread]
      rfl
    simp only [hcompile]
    exact hlowered.compile_render (fun _ => ReadAlike.readsHere) depth depth' strategy between

/-- A sum with a field of a field. -/
theorem recurse_conservative_sum :
    let engine : Engine := {}
    let data : Value := .object (.outer 0) [("a", .object (.outer 1) [("b", .int 1)])]
    let render (recurse : Bool) (strategy : Strategy) : EvalM String := do
      let T ← engine.compile 0 strategy (rawTag "add a.b 1") { recurse }
      EvalM.logLines ["built"]
      T.render engine 1 data
    ∀ strategy, render true strategy = render false strategy ∧
      ∃ F, render true strategy {} = some (.ok "2", F) := by
  intro engine data render strategy
  have hfold : fold (rawTag "add a.b 1") = rawTag "add a.b 1" := by decide +kernel
  obtain ⟨span, htokens⟩ := ofText_rawWords (by decide) (by decide) readAll?_sum
  have hlength : "length" ∉ Text.split (· == '.') "a.b" := by decide
  have hpointed : IsPointed "a.b" :=
    ⟨by decide, by decide, by decide, fun _ hcount =>
      absurd (hcount.subset List.mem_cons_self) hlength⟩
  have hreads : ReadAlike data "a.b" := ⟨hpointed, .inl rfl⟩
  have hequal : render true strategy = render false strategy := by
    refine recurse_conservative engine Operations.usual_builtin (fun tokens ht token htoken => ?_)
      false strategy 0 1 (EvalM.logLines ["built"])
    rw [hfold, htokens] at ht
    obtain rfl := Except.ok.inj ht
    obtain rfl := List.mem_singleton.mp htoken
    refine ⟨.inr (.inr ⟨_, _, rfl⟩), ?_, ?_⟩
    · rintro _ ⟨⟩ name hname
      obtain rfl := List.mem_singleton.mp hname
      exact Operations.callsNoBlock rfl rfl
    · intro path hpath
      obtain rfl := List.mem_singleton.mp hpath
      exact .inr (.inr hreads)
  have hread : engine.read (rawTag "add a.b 1") {} =
      .ok (.call "add" [.path ⟨["a", "b"]⟩, .literal (.int 1)]) := by
    rw [read, readFolded, hfold, read_eq_ok.mpr ⟨_, _, htokens, rfl, rfl⟩]
    rfl
  refine ⟨hequal, ?_⟩
  rw [hequal]
  simp only [render, compile, hread]
  obtain ⟨_ | _, _ | _⟩ := strategy <;> exact ⟨_, rfl⟩

/-- A field that is not truthy is passed over, and the body of a loop that is called like a helper
has a scope around it. Apart from these, the two reads differ in how they take paths apart. -/
theorem recurse_conservative_fails :
    let engine : Engine := {}
    let data (a : Int64) : Value :=
      .object (.outer 0) [("a", .int a), ("xs", .array (.outer 1) [.object (.outer 2) []])]
    let nested : Value :=
      .object (.outer 0) [("a", .object (.outer 1) [("b", .int 1)]), ("s", .string "x")]
    let render (recurse : Bool) (strategy : Strategy) (text : String) (data : Value) :
        EvalM String := do
      let T ← engine.compile 0 strategy text { recurse }
      T.render engine 1 data
    ∀ strategy,
      ((∃ F, render false strategy (rawTag "a") (data 0) {} = some (.ok "0", F)) ∧
        ∃ F, render true strategy (rawTag "a") (data 0) {} = some (.ok "", F)) ∧
      ((∃ F, render false strategy (rawTag "each xs a") (data 1) {} = some (.ok "", F)) ∧
        ∃ F, render true strategy (rawTag "each xs a") (data 1) {} = some (.ok "1", F)) ∧
      ∀ path ∈ ["a/b", "a.this.b", ".a.b", "s.length."],
        (Path.ofText path).resolve nested = .int 1 ∧ (Scope.root nested).lookup path = .null := by
  intro engine data nested render strategy
  have hfold : fold (rawTag "each xs a") = rawTag "each xs a" := by decide +kernel
  obtain ⟨span, htokens⟩ := ofText_rawWords (by decide) (by decide) readAll?_each
  have hread : ∀ recurse, engine.read (rawTag "each xs a") { recurse } =
      .ok (.call "each" [nameExpr recurse "xs", nameExpr recurse "a"]) := by
    intro recurse
    rw [read, readFolded, hfold, read_eq_ok.mpr ⟨_, _, htokens, rfl, rfl⟩]
    cases recurse <;> rfl
  refine ⟨?_, ?_, ?_⟩
  · obtain ⟨_ | _, _ | _⟩ := strategy <;> exact ⟨⟨_, rfl⟩, _, rfl⟩
  · simp only [render, compile, hread]
    obtain ⟨_ | _, _ | _⟩ := strategy <;> exact ⟨⟨_, rfl⟩, _, rfl⟩
  · simp only [List.forall_mem_cons]
    exact ⟨⟨rfl, rfl⟩, ⟨rfl, rfl⟩, ⟨rfl, rfl⟩, ⟨rfl, rfl⟩, List.forall_mem_nil _⟩

end Engine

end Stencil
