import Stencil.Source.Meaning

/-!
# The grammar of a template

The nodes of a template are gathered token by token, on a stack of open blocks. Here the same
reading is given as a grammar: which tokens spell a body, and which tokens follow the tag that opens
a block, up to the closing tag that it shares with the blocks chained to it. The two agree, so that
what a reader accepts can be shown by induction on a derivation, without its stack.

The grammar is over tokens without their places: where a tag stands matters for what an error points
at, and for nothing that is accepted.

## Main results

* `Spells.append`: bodies side by side are a body.
* `Spells.of_ofTokens`: the tokens of which a template is made spell its nodes.
* `Spells.ofTokens`: tokens that spell nodes make a template of these nodes.
* `read_eq_ok`: the expression of a text that can be read.
-/

namespace Stencil.Source

/-- A computation that ends in a value goes through a value of its first part. -/
theorem bind_eq_ok {ε α β : Type} {x : Except ε α} {f : α → Except ε β} {b : β} :
    x.bind f = .ok b ↔ ∃ a, x = .ok a ∧ f a = .ok b := by
  cases x <;> simp [Except.bind]

/-! ### Tokens without their places -/

/-- What a token is, wherever it stands. -/
inductive Sign where
  | text (text : String)
  | tag (tag : Tag)

/-- A token without its place. -/
def Token.sign : Token → Sign
  | text s => .text s
  | tag t _ => .tag t

/-- A token that reads as text is that text. -/
theorem map_sign_eq_text {tokens : List Token} {s : String} {signs : List Sign}
    (h : tokens.map Token.sign = .text s :: signs) :
    ∃ rest, tokens = .text s :: rest ∧ rest.map Token.sign = signs := by
  obtain ⟨token, rest, rfl, hs, hr⟩ := List.map_eq_cons_iff.mp h
  obtain ⟨s⟩ | ⟨tag, span⟩ := token <;> cases hs
  exact ⟨rest, rfl, hr⟩

/-- A token that reads as a tag is that tag somewhere. -/
theorem map_sign_eq_tag {tokens : List Token} {tag : Tag} {signs : List Sign}
    (h : tokens.map Token.sign = .tag tag :: signs) :
    ∃ span rest, tokens = .tag tag span :: rest ∧ rest.map Token.sign = signs := by
  obtain ⟨token, rest, rfl, hs, hr⟩ := List.map_eq_cons_iff.mp h
  obtain ⟨s⟩ | ⟨tag, span⟩ := token <;> cases hs
  exact ⟨span, rest, rfl, hr⟩

/-! ### The grammar -/

/-- The words of a tag that opens a block. -/
structure Opener where
  inverted : Bool
  head : String
  args : List Param

namespace Opener

/-- A conditional block says what it depends on. -/
def HasCondition (o : Opener) : Prop :=
  o.inverted = false → o.head = "if" ∨ o.head = "unless" → ∃ term args, o.args = .plain term :: args

/-- The blocks that may have an else branch. -/
def TakesBranch (o : Opener) : Prop :=
  o.inverted = false → o.head ≠ "with" ∧ o.head ≠ "inline"

/-- The parameters of the tag. -/
def params (o : Opener) : List Param :=
  .plain (.path o.head) :: o.args

/-- The block that the tag opens, with the closing tag of the block whose else branch it is. -/
def start (o : Opener) (span : Span) (closer : Option String) : OpenBlock where
  inverted := o.inverted
  head := o.head
  args := o.args
  span := span
  closer := closer.getD o.head
  chained := closer.isSome

/-- The node of the block, given its body and its else branch. -/
def node (o : Opener) (body : List Node) (branch : Option (List Node)) : Node :=
  .block o.inverted o.head o.args body branch

end Opener

mutual

/-- The nodes of a body that tokens spell. -/
inductive Spells : List Sign → List Node → Prop where
  | nil : Spells [] []
  | text {signs nodes} (s : String) (rest : Spells signs nodes) :
    Spells (.text s :: signs) (.text s :: nodes)
  | value {escaped params node signs nodes} (h : Node.ofValue escaped params = .ok node)
    (rest : Spells signs nodes) : Spells (.tag (.value escaped params) :: signs) (node :: nodes)
  | template {params node signs nodes} (h : Node.ofTemplate params = .ok node)
    (rest : Spells signs nodes) : Spells (.tag (.template params) :: signs) (node :: nodes)
  | comment {signs nodes} (rest : Spells signs nodes) : Spells (.tag .comment :: signs) nodes
  | block {o : Opener} {tail body branch signs nodes}
    (block : SpellsBlock o o.head tail body branch) (rest : Spells signs nodes) :
    Spells (.tag (.opening o.inverted o.params) :: (tail ++ signs)) (o.node body branch :: nodes)

/-- The body and the else branch that are spelled by the tokens after the tag that opens a block, up
to a closing tag with the given name. -/
inductive SpellsBlock : Opener → String → List Sign → List Node → Option (List Node) → Prop where
  | closed {o : Opener} {closer signs nodes} (condition : o.HasCondition)
    (body : Spells signs nodes) :
    SpellsBlock o closer (signs ++ [.tag (.closing closer)]) nodes none
  | branched {o : Opener} {closer signs nodes others branch} (condition : o.HasCondition)
    (takes : o.TakesBranch) (body : Spells signs nodes) (other : Spells others branch) :
    SpellsBlock o closer (signs ++ .tag (.branch []) :: (others ++ [.tag (.closing closer)])) nodes
      (some branch)
  | chained {o o' : Opener} {closer signs nodes tail inner branch} (condition : o.HasCondition)
    (takes : o.TakesBranch) (body : Spells signs nodes) (plain : o'.inverted = false)
    (chain : SpellsBlock o' closer tail inner branch) :
    SpellsBlock o closer (signs ++ .tag (.branch o'.params) :: tail) nodes
      (some [o'.node inner branch])

end

/-- Bodies side by side are a body. -/
theorem Spells.append {a b : List Sign} {ns ms : List Node} (ha : Spells a ns) (hb : Spells b ms) :
    Spells (a ++ b) (ns ++ ms) := by
  match ha with
  | .nil => exact hb
  | .text s rest => exact .text s (rest.append hb)
  | .value h rest => exact .value h (rest.append hb)
  | .template h rest => exact .template h (rest.append hb)
  | .comment rest => exact .comment (rest.append hb)
  | .block inner rest =>
    rw [List.cons_append, List.append_assoc]
    exact .block inner (rest.append hb)

/-- Only a block that may have an else branch has one. -/
theorem SpellsBlock.takesBranch {o : Opener} {closer : String} {signs : List Sign}
    {body : List Node} {branch : Option (List Node)} (h : SpellsBlock o closer signs body branch)
    (hb : branch.isSome) : o.TakesBranch := by
  cases h with
  | closed => simp at hb
  | branched _ takes => exact takes
  | chained _ takes => exact takes

/-! ### Open blocks -/

namespace OpenBlock

/-- The tag that opened the block. -/
def opener (b : OpenBlock) : Opener :=
  ⟨b.inverted, b.head, b.args⟩

/-- The body of a block may end, unless a condition is missing. -/
theorem endBody_eq_ok {b : OpenBlock} :
    b.endBody = .ok () ↔ (b.branch = none → b.opener.HasCondition) := by
  obtain ⟨inverted, head, args, span, closer, chained, body, branch⟩ := b
  simp only [endBody, isConditional, opener, Opener.HasCondition]
  cases branch with
  | some nodes => simp
  | none =>
    match args with
    | .plain term :: args => simp
    | [] | .named .. :: _ | .block .. :: _ => cases inverted <;> simp [not_or]

/-- The node of a block, which has a branch only if it may have one. -/
theorem toNode_eq_ok {b : OpenBlock} {node : Node} :
    b.toNode = .ok node ↔
      (b.branch.isSome → b.opener.TakesBranch) ∧ b.opener.node b.body b.branch = node := by
  obtain ⟨inverted, head, args, span, closer, chained, body, branch⟩ := b
  simp only [toNode, refusesBranch, opener, Opener.TakesBranch, Opener.node]
  cases branch with
  | none => simp
  | some nodes =>
    cases inverted <;> by_cases hw : head = "with" <;> by_cases hi : head = "inline" <;>
      simp [hw, hi]

/-- A tag opens a block when its words start with a name. -/
theorem ofParams_eq_ok {inverted : Bool} {params : List Param} {span : Span}
    {closer : Option String} {b : OpenBlock} :
    ofParams inverted params span closer = .ok b ↔
      ∃ o : Opener, o.inverted = inverted ∧ o.params = params ∧ o.start span closer = b := by
  constructor
  · intro h
    unfold ofParams at h
    split at h
    · next head args => exact ⟨⟨inverted, head, args⟩, rfl, rfl, Except.ok.inj h⟩
    · simp at h
  · rintro ⟨o, rfl, rfl, rfl⟩
    rfl

/-- The node of a block that no other block waits for. -/
theorem close_of_single {b : OpenBlock} (h : b.chained = false) (bs : List OpenBlock) :
    b.close bs = b.toNode.bind fun node => .ok (node, bs) := by
  cases bs <;> simp only [close, h] <;> cases b.toNode <;> rfl

/-- A block that is the else branch of another one closes it as well. -/
theorem close_of_chained {b : OpenBlock} (h : b.chained = true) (outer : OpenBlock)
    (bs : List OpenBlock) :
    b.close (outer :: bs) =
      b.toNode.bind fun node => { outer with branch := some [node] }.close bs := by
  simp only [close, h]
  cases b.toNode <;> rfl

/-- Adds nodes to the part of the block that is being gathered. -/
def addAll (b : OpenBlock) (nodes : List Node) : OpenBlock :=
  match b.branch with
  | some others => { b with branch := some (others ++ nodes) }
  | none => { b with body := b.body ++ nodes }

/-- Adding nodes leaves the tag of a block as it is. -/
theorem addAll_eq (b : OpenBlock) (nodes : List Node) :
    (b.addAll nodes).opener = b.opener ∧ (b.addAll nodes).closer = b.closer ∧
      (b.addAll nodes).chained = b.chained := by
  unfold addAll
  split <;> exact ⟨rfl, rfl, rfl⟩

/-- The tokens after the tag that opened a block spell what has been gathered of it. -/
def Holds (b : OpenBlock) (signs : List Sign) : Prop :=
  match b.branch with
  | none => Spells signs b.body
  | some nodes => b.opener.HasCondition ∧ ∃ before after,
      signs = before ++ .tag (.branch []) :: after ∧ Spells before b.body ∧ Spells after nodes

/-- What is spelled further on is gathered by the block. -/
theorem Holds.append {b : OpenBlock} {signs others : List Sign} {nodes : List Node}
    (h : b.Holds signs) (hs : Spells others nodes) : (b.addAll nodes).Holds (signs ++ others) := by
  unfold Holds addAll at *
  cases hb : b.branch with
  | none =>
    rw [hb] at h
    exact h.append hs
  | some branch =>
    rw [hb] at h
    obtain ⟨condition, before, after, rfl, body, other⟩ := h
    exact ⟨condition, before, after ++ others, by simp, body, other.append hs⟩

/-- A closing tag completes a block. -/
theorem Holds.ends {b : OpenBlock} {signs : List Sign} (h : b.Holds signs)
    (takes : b.branch.isSome → b.opener.TakesBranch)
    (condition : b.branch = none → b.opener.HasCondition) :
    SpellsBlock b.opener b.closer (signs ++ [.tag (.closing b.closer)]) b.body b.branch := by
  unfold Holds at h
  cases hb : b.branch with
  | none =>
    rw [hb] at h
    exact .closed (condition hb) h
  | some nodes =>
    rw [hb] at h
    obtain ⟨condition, before, after, rfl, body, other⟩ := h
    rw [List.append_assoc]
    exact .branched condition (takes (by rw [hb]; rfl)) body other

end OpenBlock

/-- Adds nodes to the innermost open block. -/
def Nesting.addAll (n : Nesting) (nodes : List Node) : Nesting :=
  match n.blocks with
  | [] => { n with nodes := n.nodes ++ nodes }
  | b :: bs => { n with blocks := b.addAll nodes :: bs }

/-- No nodes change nothing. -/
theorem Nesting.addAll_nil (n : Nesting) : n.addAll [] = n := by
  obtain ⟨nodes, _ | ⟨⟨_, _, _, _, _, _, _, _ | _⟩, bs⟩⟩ := n <;>
    simp [addAll, OpenBlock.addAll]

/-- Nodes are added one list after the other. -/
theorem Nesting.addAll_addAll (n : Nesting) (nodes others : List Node) :
    (n.addAll nodes).addAll others = n.addAll (nodes ++ others) := by
  obtain ⟨_, _ | ⟨⟨_, _, _, _, _, _, _, _ | _⟩, bs⟩⟩ := n <;>
    simp [addAll, OpenBlock.addAll]

/-- One node is added like a list of one. -/
theorem Nesting.add_eq_addAll (n : Nesting) (node : Node) : n.add node = n.addAll [node] := by
  obtain ⟨nodes, _ | ⟨b, bs⟩⟩ := n
  · rfl
  · obtain ⟨_, _, _, _, _, _, _, _ | _⟩ := b <;> rfl

namespace Nesting

/-- The node of a tag is added when nothing about it is malformed. -/
theorem addNode_eq_ok {n n' : Nesting} {span : Span} {node : Except Malformed Node} :
    n.addNode span node = .ok n' ↔ ∃ m, node = .ok m ∧ n.add m = n' := by
  cases node <;> simp [addNode]

/-- An else tag starts the branch of a block, or a block that is the branch. -/
theorem addBranch_eq_ok {n n' : Nesting} {params : List Param} {span : Span} :
    n.addBranch params span = .ok n' ↔ ∃ b bs, n.blocks = b :: bs ∧ b.branch = none ∧
      b.opener.HasCondition ∧
      (params = [] ∧ { n with blocks := { b with branch := some [] } :: bs } = n' ∨
        ∃ o : Opener, o.inverted = false ∧ o.params = params ∧
          { n with blocks := o.start span (some b.closer) :: b :: bs } = n') := by
  constructor
  · intro h
    obtain ⟨nodes, _ | ⟨b, bs⟩⟩ := n
    · simp [addBranch] at h
    · unfold addBranch at h
      dsimp only at h
      split at h
      · simp at h
      · next hb =>
        have hb : b.branch = none := by simpa using hb
        obtain ⟨⟨⟩, he, h⟩ := bind_eq_ok.mp h
        refine ⟨b, bs, rfl, hb, OpenBlock.endBody_eq_ok.mp he hb, ?_⟩
        split at h
        · next hp => exact .inl ⟨List.isEmpty_iff.mp hp, Except.ok.inj h⟩
        · obtain ⟨block, ho, h⟩ := bind_eq_ok.mp h
          obtain ⟨o, hi, hp, rfl⟩ := OpenBlock.ofParams_eq_ok.mp ho
          exact .inr ⟨o, hi, hp, Except.ok.inj h⟩
  · rintro ⟨b, bs, hn, hb, condition, h⟩
    have he := OpenBlock.endBody_eq_ok.mpr fun _ => condition
    rcases h with ⟨rfl, rfl⟩ | ⟨o, hi, rfl, rfl⟩
    · simp [addBranch, hn, hb, he, pure, Except.pure, bind, Except.bind]
    · have ho : OpenBlock.ofParams false o.params span (some b.closer) =
          .ok (o.start span (some b.closer)) := OpenBlock.ofParams_eq_ok.mpr ⟨o, hi, rfl, rfl⟩
      have hp : o.params ≠ [] := by simp [Opener.params]
      simp [addBranch, hn, hb, he, ho, hp, pure, Except.pure, bind, Except.bind]

/-- A closing tag ends the block whose name it carries. -/
theorem addClosing_eq_ok {n n' : Nesting} {name : String} {span : Span} :
    n.addClosing name span = .ok n' ↔ ∃ b bs node outer, n.blocks = b :: bs ∧
      (b.branch = none → b.opener.HasCondition) ∧ name = b.closer ∧
      b.close bs = .ok (node, outer) ∧ { n with blocks := outer }.add node = n' := by
  constructor
  · intro h
    obtain ⟨nodes, _ | ⟨b, bs⟩⟩ := n
    · simp [addClosing] at h
    · obtain ⟨⟨⟩, he, h⟩ := bind_eq_ok.mp h
      split at h
      · next hname =>
        obtain ⟨⟨node, outer⟩, hc, h⟩ := bind_eq_ok.mp h
        exact ⟨b, bs, node, outer, rfl, OpenBlock.endBody_eq_ok.mp he, hname, hc, Except.ok.inj h⟩
      · cases h
  · rintro ⟨b, bs, node, outer, hn, condition, rfl, hc, rfl⟩
    have he := OpenBlock.endBody_eq_ok.mpr condition
    simp [addClosing, hn, he, hc, pure, Except.pure, bind, Except.bind]

end Nesting

/-! ### From tokens to their grammar -/

mutual

/-- The tokens that the finished nodes and the open blocks have been gathered from. -/
inductive Gathered (nodes : List Node) : List OpenBlock → List Sign → Prop where
  | outside {signs} (h : Spells signs nodes) : Gathered nodes [] signs
  | inside {b bs before signs} (around : Opened nodes b bs before) (holds : b.Holds signs) :
    Gathered nodes (b :: bs) (before ++ signs)

/-- The tokens up to and with the tag that opened the innermost block. -/
inductive Opened (nodes : List Node) : OpenBlock → List OpenBlock → List Sign → Prop where
  | first {b bs before} (around : Gathered nodes bs before) (single : b.chained = false)
    (closer : b.closer = b.head) :
    Opened nodes b bs (before ++ [.tag (.opening b.inverted b.opener.params)])
  | chained {b b' bs before signs} (around : Opened nodes b' bs before) (first : b'.branch = none)
    (condition : b'.opener.HasCondition) (body : Spells signs b'.body) (linked : b.chained = true)
    (plain : b.inverted = false) (closer : b.closer = b'.closer) :
    Opened nodes b (b' :: bs) (before ++ (signs ++ [.tag (.branch b.opener.params)]))

end

/-- Where a block was opened does not depend on what is gathered of it. -/
theorem Opened.congr {nodes : List Node} {b b' : OpenBlock} {bs : List OpenBlock}
    {before : List Sign} (h : Opened nodes b bs before) (ho : b'.opener = b.opener)
    (hc : b'.closer = b.closer) (hl : b'.chained = b.chained) : Opened nodes b' bs before := by
  have ht : b'.inverted = b.inverted ∧ b'.head = b.head := by
    simp only [OpenBlock.opener, Opener.mk.injEq] at ho
    exact ⟨ho.1, ho.2.1⟩
  cases h with
  | first around single closer =>
    rw [← ho, ← ht.1]
    exact .first around (hl.trans single) (hc.trans (closer.trans ht.2.symm))
  | chained around first condition body linked plain closer =>
    rw [← ho]
    exact .chained around first condition body (hl.trans linked) (ht.1.trans plain)
      (hc.trans closer)

/-- Nodes are added where their tokens were read. -/
theorem Gathered.addAll {n : Nesting} {signs others : List Sign} {nodes : List Node}
    (h : Gathered n.nodes n.blocks signs) (hs : Spells others nodes) :
    Gathered (n.addAll nodes).nodes (n.addAll nodes).blocks (signs ++ others) := by
  obtain ⟨outer, bs⟩ := n
  cases h with
  | outside h => exact .outside (h.append hs)
  | @inside b bs before signs around holds =>
    obtain ⟨ho, hc, hl⟩ := b.addAll_eq nodes
    rw [List.append_assoc]
    exact .inside (around.congr ho hc hl) (holds.append hs)

/-- A block that is no else branch of another one ends alone. -/
theorem Gathered.closeSingle {nodes : List Node} {b : OpenBlock} {bs outer : List OpenBlock}
    {before tail : List Sign} {node : Node} (around : Gathered nodes bs before)
    (single : b.chained = false) (closer : b.closer = b.head)
    (ends : (b.branch.isSome → b.opener.TakesBranch) →
      SpellsBlock b.opener b.closer tail b.body b.branch)
    (hc : b.close bs = .ok (node, outer)) :
    Gathered ((Nesting.mk nodes outer).add node).nodes ((Nesting.mk nodes outer).add node).blocks
      (before ++ [.tag (.opening b.inverted b.opener.params)] ++ tail) := by
  rw [OpenBlock.close_of_single single] at hc
  obtain ⟨_, hn, hc⟩ := bind_eq_ok.mp hc
  obtain ⟨takes, rfl⟩ := OpenBlock.toNode_eq_ok.mp hn
  obtain ⟨rfl, rfl⟩ := Prod.mk.inj (Except.ok.inj hc)
  have spelled := Spells.block (closer ▸ ends takes : SpellsBlock b.opener b.head tail _ _) .nil
  rw [List.append_nil] at spelled
  rw [Nesting.add_eq_addAll, List.append_assoc]
  exact Gathered.addAll (n := ⟨nodes, _⟩) around spelled

/-- A block ends together with the blocks whose else branch it is. -/
theorem Opened.close {nodes : List Node} {b : OpenBlock} {bs outer : List OpenBlock}
    {before tail : List Sign} {node : Node} (h : Opened nodes b bs before)
    (ends : (b.branch.isSome → b.opener.TakesBranch) →
      SpellsBlock b.opener b.closer tail b.body b.branch)
    (hc : b.close bs = .ok (node, outer)) :
    Gathered ((Nesting.mk nodes outer).add node).nodes ((Nesting.mk nodes outer).add node).blocks
      (before ++ tail) := by
  induction bs generalizing b before tail with
  | nil =>
    cases h with
    | first around single closer => exact around.closeSingle single closer ends hc
  | cons b' bs ih =>
    cases h with
    | first around single closer => exact around.closeSingle single closer ends hc
    | @chained _ _ _ before signs around first condition body linked plain closer =>
      rw [OpenBlock.close_of_chained linked] at hc
      obtain ⟨inner, hi, hc⟩ := bind_eq_ok.mp hc
      obtain ⟨takes, rfl⟩ := OpenBlock.toNode_eq_ok.mp hi
      rw [List.append_assoc, List.append_assoc]
      refine ih (b := { b' with branch := some _ }) (around.congr rfl rfl rfl) (fun takes' => ?_) hc
      exact .chained condition (takes' rfl) body plain (closer ▸ ends takes)

/-- An else tag ends the body of the innermost block. -/
theorem Gathered.addBranch {n n' : Nesting} {params : List Param} {span : Span}
    {signs : List Sign} (h : Gathered n.nodes n.blocks signs)
    (hp : n.addBranch params span = .ok n') :
    Gathered n'.nodes n'.blocks (signs ++ [.tag (.branch params)]) := by
  obtain ⟨b, bs, hn, hb, condition, hp⟩ := Nesting.addBranch_eq_ok.mp hp
  rw [hn] at h
  cases h with
  | @inside _ _ before signs around holds =>
    have body : Spells signs b.body := by
      rw [OpenBlock.Holds, hb] at holds
      exact holds
    rw [List.append_assoc]
    rcases hp with ⟨rfl, rfl⟩ | ⟨o, hi, rfl, rfl⟩
    · exact .inside (around.congr rfl rfl rfl) ⟨condition, signs, [], rfl, body, .nil⟩
    · obtain ⟨inverted, head, args⟩ := o
      obtain rfl : inverted = false := hi
      rw [← List.append_nil (before ++ _)]
      exact .inside (.chained around hb condition body rfl rfl rfl) .nil

/-- A closing tag ends the innermost block. -/
theorem Gathered.addClosing {n n' : Nesting} {name : String} {span : Span} {signs : List Sign}
    (h : Gathered n.nodes n.blocks signs) (hp : n.addClosing name span = .ok n') :
    Gathered n'.nodes n'.blocks (signs ++ [.tag (.closing name)]) := by
  obtain ⟨b, bs, node, outer, hn, condition, rfl, hc, rfl⟩ := Nesting.addClosing_eq_ok.mp hp
  rw [hn] at h
  cases h with
  | @inside _ _ before signs around holds =>
    rw [List.append_assoc]
    exact around.close (fun takes => holds.ends takes condition) hc

/-- Taking in a token keeps what has been gathered in step with the tokens that were read. -/
theorem Gathered.push {n n' : Nesting} {token : Token} {signs : List Sign}
    (h : Gathered n.nodes n.blocks signs) (hp : n.push token = .ok n') :
    Gathered n'.nodes n'.blocks (signs ++ [token.sign]) := by
  match token with
  | .text text =>
    obtain rfl := Except.ok.inj hp
    rw [Nesting.add_eq_addAll]
    exact h.addAll (.text text .nil)
  | .tag (.value escaped params) span =>
    obtain ⟨node, hv, rfl⟩ := Nesting.addNode_eq_ok.mp hp
    rw [Nesting.add_eq_addAll]
    exact h.addAll (.value hv .nil)
  | .tag (.template params) span =>
    obtain ⟨node, hv, rfl⟩ := Nesting.addNode_eq_ok.mp hp
    rw [Nesting.add_eq_addAll]
    exact h.addAll (.template hv .nil)
  | .tag (.opening inverted params) span =>
    obtain ⟨b, hb, hp⟩ := bind_eq_ok.mp hp
    obtain ⟨o, rfl, rfl, rfl⟩ := OpenBlock.ofParams_eq_ok.mp hb
    obtain rfl := Except.ok.inj hp
    exact List.append_nil (signs ++ _) ▸ .inside (.first h rfl rfl) .nil
  | .tag (.branch params) span => exact h.addBranch hp
  | .tag (.closing name) span => exact h.addClosing hp
  | .tag .comment _ =>
    obtain rfl := Except.ok.inj hp
    exact n.addAll_nil ▸ h.addAll (.comment .nil)

/-- Whatever tokens are taken in, what has been gathered is in step with them. -/
theorem Gathered.take {n n' : Nesting} {tokens : List Token} {signs : List Sign}
    (h : Gathered n.nodes n.blocks signs) (ht : n.take tokens = .ok n') :
    Gathered n'.nodes n'.blocks (signs ++ tokens.map Token.sign) := by
  induction tokens generalizing n signs with
  | nil =>
    obtain rfl := Except.ok.inj ht
    simpa using h
  | cons token tokens ih =>
    obtain ⟨n₁, hp, ht⟩ := bind_eq_ok.mp ht
    simpa using ih (h.push hp) ht

/-- The tokens of which a template is made spell its nodes. -/
theorem Spells.of_ofTokens {tokens : List Token} {nodes : List Node}
    (h : Node.ofTokens tokens = .ok nodes) : Spells (tokens.map Token.sign) nodes := by
  obtain ⟨n, ht, hf⟩ := bind_eq_ok.mp h
  have gathered : Gathered n.nodes n.blocks (tokens.map Token.sign) :=
    Gathered.take (n := {}) (.outside .nil) ht
  obtain ⟨ns, _ | ⟨b, bs⟩⟩ := n
  · obtain rfl := Except.ok.inj hf
    cases gathered with
    | outside h => exact h
  · obtain ⟨⟨⟩, -, hf⟩ := bind_eq_ok.mp hf
    cases hf

/-! ### From the grammar to nodes -/

/-- Tokens are taken one after the other. -/
theorem Nesting.take_cons (n : Nesting) (token : Token) (tokens : List Token) :
    n.take (token :: tokens) = (n.push token).bind (take · tokens) :=
  rfl

/-- Nodes that follow in the body of an open block. -/
theorem Nesting.addAll_body {b : OpenBlock} (hb : b.branch = none) (nodes : List Node)
    (bs : List OpenBlock) (body : List Node) :
    addAll ⟨nodes, b :: bs⟩ body =
      ⟨nodes, { b with body := b.body ++ body, branch := none } :: bs⟩ := by
  simp only [addAll, OpenBlock.addAll, hb]

/-- The closing tag of a block that lacks nothing. -/
theorem Nesting.take_closing {b : OpenBlock} (condition : b.branch = none → b.opener.HasCondition)
    (nodes : List Node) (bs : List OpenBlock) (span : Span) :
    take ⟨nodes, b :: bs⟩ [.tag (.closing b.closer) span] =
      (b.close bs).bind fun (node, outer) => .ok (add ⟨nodes, outer⟩ node) := by
  have he := OpenBlock.endBody_eq_ok.mpr condition
  simp only [take, List.foldlM_cons, List.foldlM_nil, push, addClosing, he]
  cases b.close bs <;> rfl

/-- The else tag of a block that lacks nothing. -/
theorem Nesting.push_branch {b : OpenBlock} (hb : b.branch = none)
    (condition : b.opener.HasCondition) (nodes : List Node) (bs : List OpenBlock) (span : Span) :
    push ⟨nodes, b :: bs⟩ (.tag (.branch []) span) =
      .ok ⟨nodes, { b with branch := some [] } :: bs⟩ :=
  addBranch_eq_ok (n := ⟨nodes, b :: bs⟩).mpr ⟨b, bs, rfl, hb, condition, .inl ⟨rfl, rfl⟩⟩

/-- The else tag of a block that lacks nothing, with the words of a chained block. -/
theorem Nesting.push_chained {b : OpenBlock} (hb : b.branch = none)
    (condition : b.opener.HasCondition) (nodes : List Node) (bs : List OpenBlock) (span : Span)
    {o : Opener} (plain : o.inverted = false) :
    push ⟨nodes, b :: bs⟩ (.tag (.branch o.params) span) =
      .ok ⟨nodes, o.start span (some b.closer) :: b :: bs⟩ :=
  addBranch_eq_ok (n := ⟨nodes, b :: bs⟩).mpr
    ⟨b, bs, rfl, hb, condition, .inr ⟨o, plain, rfl, rfl⟩⟩

/-- A token whose node is added, before the tokens of further nodes. -/
theorem Nesting.take_node {n : Nesting} {token : Token} {node : Node} {tokens : List Token}
    {nodes : List Node} (hp : n.push token = .ok (n.add node))
    (ht : (n.add node).take tokens = .ok ((n.add node).addAll nodes)) :
    n.take (token :: tokens) = .ok (n.addAll (node :: nodes)) := by
  rw [take_cons, hp, Except.bind, ht, add_eq_addAll, addAll_addAll, List.singleton_append]

mutual

/-- Tokens that spell nodes add these nodes. -/
theorem Spells.take {signs : List Sign} {nodes : List Node} (h : Spells signs nodes)
    {tokens : List Token} (ht : tokens.map Token.sign = signs) (n : Nesting) :
    n.take tokens = .ok (n.addAll nodes) := by
  match h with
  | .nil =>
    obtain rfl := List.map_eq_nil_iff.mp ht
    rw [n.addAll_nil]
    rfl
  | .text s rest =>
    obtain ⟨others, rfl, hr⟩ := map_sign_eq_text ht
    exact Nesting.take_node rfl (rest.take hr _)
  | .value hv rest =>
    obtain ⟨span, others, rfl, hr⟩ := map_sign_eq_tag ht
    exact Nesting.take_node (Nesting.addNode_eq_ok.mpr ⟨_, hv, rfl⟩) (rest.take hr _)
  | .template hv rest =>
    obtain ⟨span, others, rfl, hr⟩ := map_sign_eq_tag ht
    exact Nesting.take_node (Nesting.addNode_eq_ok.mpr ⟨_, hv, rfl⟩) (rest.take hr _)
  | .comment rest =>
    obtain ⟨span, others, rfl, hr⟩ := map_sign_eq_tag ht
    exact rest.take hr n
  | @Spells.block o _ body branch _ _ inner rest =>
    obtain ⟨span, others, rfl, hr⟩ := map_sign_eq_tag ht
    obtain ⟨tail, others, rfl, hi, hr⟩ := List.map_eq_append_iff.mp hr
    have ho : n.push (.tag (.opening o.inverted o.params) span) =
        .ok { n with blocks := o.start span none :: n.blocks } := rfl
    have hnode : { o.start span none with body := body, branch }.toNode =
        .ok (o.node body branch) := OpenBlock.toNode_eq_ok.mpr ⟨inner.takesBranch, rfl⟩
    rw [Nesting.take_cons, ho, Except.bind, Nesting.take_append,
      inner.take hi n.nodes n.blocks rfl rfl rfl, OpenBlock.close_of_single rfl]
    simp only [Opener.start, List.nil_append] at hnode ⊢
    rw [hnode]
    have := rest.take hr (n.add (o.node body branch))
    rw [Nesting.add_eq_addAll, Nesting.addAll_addAll, List.singleton_append] at this
    exact this

/-- Tokens that spell the rest of a block close it. -/
theorem SpellsBlock.take {o : Opener} {closer : String} {signs : List Sign} {body : List Node}
    {branch : Option (List Node)} (h : SpellsBlock o closer signs body branch)
    {tokens : List Token} (ht : tokens.map Token.sign = signs) (nodes : List Node) {b : OpenBlock}
    (bs : List OpenBlock) (ho : b.opener = o) (hc : b.closer = closer) (hb : b.branch = none) :
    Nesting.take ⟨nodes, b :: bs⟩ tokens =
      ({ b with body := b.body ++ body, branch }.close bs).bind fun (node, outer) =>
        .ok (Nesting.add ⟨nodes, outer⟩ node) := by
  match h with
  | .closed condition inner =>
    subst ho hc
    obtain ⟨ts, us, rfl, hi, hu⟩ := List.map_eq_append_iff.mp ht
    obtain ⟨span, _, rfl, hr⟩ := map_sign_eq_tag hu
    obtain rfl := List.map_eq_nil_iff.mp hr
    rw [Nesting.take_append, inner.take hi, Nesting.addAll_body hb]
    exact Nesting.take_closing (b := { b with body := b.body ++ body, branch := none })
      (fun _ => condition) nodes bs span
  | @SpellsBlock.branched _ _ _ first _ second condition takes inner other =>
    subst ho hc
    obtain ⟨ts, us, rfl, hi, hu⟩ := List.map_eq_append_iff.mp ht
    obtain ⟨span, _, rfl, hr⟩ := map_sign_eq_tag hu
    obtain ⟨vs, ws, rfl, hv, hw⟩ := List.map_eq_append_iff.mp hr
    obtain ⟨span', _, rfl, hn⟩ := map_sign_eq_tag hw
    obtain rfl := List.map_eq_nil_iff.mp hn
    have hp := Nesting.push_branch (b := { b with body := b.body ++ first, branch := none }) rfl
      condition nodes bs span
    rw [Nesting.take_append, inner.take hi, Nesting.addAll_body hb, Except.bind,
      Nesting.take_cons, hp, Except.bind, Nesting.take_append, other.take hv]
    exact Nesting.take_closing (b := { b with body := b.body ++ first, branch := some second })
      (fun hn => nomatch hn) nodes bs span'
  | @SpellsBlock.chained _ o' _ _ first _ last second condition takes inner plain chain =>
    subst ho
    obtain ⟨ts, us, rfl, hi, hu⟩ := List.map_eq_append_iff.mp ht
    obtain ⟨span, _, rfl, hr⟩ := map_sign_eq_tag hu
    have hp := Nesting.push_chained (b := { b with body := b.body ++ first, branch := none }) rfl
      condition nodes bs span plain
    have hnode : { o'.start span (some b.closer) with body := last, branch := second }.toNode =
        .ok (o'.node last second) := OpenBlock.toNode_eq_ok.mpr ⟨chain.takesBranch, rfl⟩
    rw [Nesting.take_append, inner.take hi, Nesting.addAll_body hb, Except.bind,
      Nesting.take_cons, hp, Except.bind,
      chain.take hr nodes (b := o'.start span (some b.closer)) _ rfl hc rfl,
      OpenBlock.close_of_chained rfl]
    simp only [Opener.start, List.nil_append] at hnode ⊢
    rw [hnode]
    rfl

end

/-- Tokens that spell nodes make a template of these nodes. -/
theorem Spells.ofTokens {tokens : List Token} {nodes : List Node}
    (h : Spells (tokens.map Token.sign) nodes) : Node.ofTokens tokens = .ok nodes := by
  have := h.take rfl {}
  simp [Node.ofTokens, this, Nesting.addAll, Nesting.finish, bind, Except.bind]

/-- The expression of a text that can be read is the one of the nodes of its tokens. -/
theorem read_eq_ok {source : String} {options : Options} {isOperation : String → Bool} {e : Expr} :
    read source options isOperation = .ok e ↔
      ∃ tokens nodes, Token.ofText source = .ok tokens ∧ Node.ofTokens tokens = .ok nodes ∧
        concat (nodeExprs { options, isOperation } nodes) = e := by
  unfold read
  cases ht : Token.ofText source with
  | error fault => simp [bind, Except.bind]
  | ok tokens => cases hn : Node.ofTokens tokens <;> simp [bind, Except.bind, hn]

end Stencil.Source
