import Stencil.Proofs.Conduct

/-!
# Plans

What an evaluation does at one layer, as a plan: which part is evaluated next and in which scope,
when a template is looked up, called or defined, and how the layer goes on with what it gets. A plan
says nothing about how parts are evaluated and templates are called, so that a run of it can be
observed. A layer runs exactly as its plan does.

## Main results

* `Layer.run_eq_plan`: a layer runs as its plan.
* `Layer.uses_plan`: the plan of a layer evaluates parts of the layer and no others.
-/

namespace Stencil

/-- What is done at one layer, step by step. -/
inductive Plan (α : Type) where
  | done (v : Value)
  | fail (err : Error)
  /-- Evaluates a part, and goes on with its value. -/
  | part (a : α) (s : Scope) (next : Value → Plan α)
  /-- Marks the new containers of a value, and goes on with it. -/
  | settle (v : Value) (next : Value → Plan α)
  /-- Looks up a template, and goes on with it. -/
  | find (key : String) (next : TemplateEntry → Plan α)
  /-- Calls a template in the end. -/
  | call (body : TemplateBody) (s : Scope)
  /-- Calls a method in the end. -/
  | method (m : Method) (args : Arguments)
  /-- Defines a template in the end. -/
  | define (entry : EntryMaker) (key : String)

namespace Plan

variable {α : Type}

/-- Carries out a plan, given how templates are called and how parts are evaluated. -/
def run (callee : TemplateBody → Lazy) (eval : α → Lazy) : Plan α → EvalM Value
  | done v => pure v
  | fail err => throw err
  | part a s next => eval a s >>= fun v => (next v).run callee eval
  | settle v next => EvalM.settle v >>= fun v => (next v).run callee eval
  | find key next => EvalM.lookup key >>= fun entry => (next entry).run callee eval
  | call body s => callee body s
  | method m args => m.call args
  | define entry key => EvalM.define entry key >>= fun _ => pure (.string "")

/-- All parts that a plan evaluates have a property, and so has what makes the entries that it
defines. -/
def Uses (P : α → Prop) (Q : EntryMaker → Prop) : Plan α → Prop
  | part a _ next => P a ∧ ∀ v, (next v).Uses P Q
  | settle _ next => ∀ v, (next v).Uses P Q
  | find _ next => ∀ entry, (next entry).Uses P Q
  | define entry _ => Q entry
  | done _ | fail _ | call .. | method .. => True

/-! ### Forms -/

/-- Appends the texts of the parts to a text, from left to right. -/
def concat (s : Scope) (next : String → Plan α) (out : String) : List α → Plan α
  | [] => next out
  | a :: as => part a s fun v => concat s next (out ++ v.output) as

/-- The part after the first truthy condition, or else the last one. -/
def choose (s : Scope) : List α → Plan α
  | [] => done .null
  | [otherwise] => part otherwise s done
  | condition :: body :: rest =>
    part condition s fun v => if v.truthy then part body s done else choose s rest

/-- The second part when the first is not truthy, and the third otherwise. -/
def invert (s : Scope) : List α → Plan α
  | condition :: body :: rest =>
    part condition s fun v =>
      if v.truthy then
        match rest with
        | otherwise :: _ => part otherwise s done
        | [] => done .null
      else part body s done
  | _ => done .null

/-- The first part that is not `null`. -/
def coalesce (s : Scope) : List α → Plan α
  | [] => done .null
  | a :: as => part a s fun v => if v.isNull then coalesce s as else done v

/-- The first part whose truthiness is `stop`, or the last one. -/
def search (stop : Bool) (s : Scope) : List α → Plan α
  | [] => done .null
  | [a] => part a s done
  | a :: as => part a s fun v => if v.truthy = stop then done v else search stop s as

/-- Evaluates a form over its parts. -/
def form (f : Form) (parts : List α) (s : Scope) : Plan α :=
  match f with
  | .concat => concat s (fun out => done (.string out)) "" parts
  | .choose => choose s parts
  | .unless => invert s parts
  | .default => coalesce s parts
  | .all => search false s parts
  | .any => search true s parts

/-! ### Blocks and templates -/

/-- Evaluates a body in one scope after the other and appends the texts. -/
def rounds (body : α) (next : String → Plan α) (out : String) : List Scope → Plan α
  | [] => next out
  | s :: scopes => part body s fun v => rounds body next (out ++ v.output) scopes

/-- Evaluates a loop, each of whose rounds leaves a frame behind. -/
def loop (kind : LoopKind) (params : List String) (selector body branch : α) (s : Scope) :
    Plan α :=
  part selector s fun source =>
    if !source.truthy then part branch s done
    else if kind = .section ∧ source.items?.isNone then
      match source with
      | .bool true => part body s done
      | _ => part body (s.enter source) done
    else
      match source.items with
      | [] => part branch s done
      | items =>
        rounds body (fun text => done (.string text)) ""
          (items.map fun item =>
            LoopStyle.round { kind, params, framed := true, atOnce := false } s item.1 item.2)

/-- Evaluates named parts from left to right. -/
def named (s : Scope) (next : Keyed Value → Plan α) : List (String × α) → Plan α
  | [] => next []
  | (name, a) :: rest => part a s fun v => named s (fun vs => next ((name, v) :: vs)) rest

/-- Evaluates a part if there is one. -/
def optional (s : Scope) (next : Option Value → Plan α) : Option α → Plan α
  | some a => part a s fun v => next (some v)
  | none => next none

/-- Evaluates a body in a context of its own. -/
def context (params : List String) (parts : List (String × α)) (value : Option α) (body : α)
    (s : Scope) : Plan α :=
  named s (fun vs => optional s (fun v =>
    settle (newContext vs v).1 fun context =>
      if (newContext vs v).2 || !params.isEmpty then
        part body (s.enter context (params.zip [context])) done
      else part body (s.rebase context) done) value) parts

/-- Calls the template of a name. -/
def template (name : α) (parts : List (String × α)) (s : Scope) : Plan α :=
  part name s fun v => find v.keyText fun entry => named s (fun vs =>
    let enter (context : Value) :=
      call entry.body (if entry.capturesScope then s.enter context else s.rebase context)
    if vs.isEmpty then enter s.context else settle (calledContext vs s.context) enter) parts

/-- Evaluates the arguments of a method from left to right. -/
def arguments (s : Scope) (next : Arguments → Plan α) (args : Arguments) :
    List (Option String × α) → Plan α
  | [] => next args
  | (name, a) :: rest => part a s fun v => arguments s next (args.push name v) rest

end Plan

/-- What a layer does in a scope. -/
def Layer.plan {α : Type} (s : Scope) : Layer α → Plan α
  | value v => .done v
  | path p => .done (p.resolve s.context)
  | lookup p => .done (s.lookup p)
  | position r => .done (r.read s.position)
  | form f parts => .form f parts s
  | loop kind params selector body branch => .loop kind params selector body branch s
  | context params named v body => .context params named v body s
  | template name named => .template name named s
  | define name entry => .part name s fun v => .define entry v.keyText
  | method m args => .arguments s (.method m) {} args
  | refused err => .fail err

/-! ### Carrying out plans -/

namespace Plan

variable {α : Type} {callee : TemplateBody → Lazy} {eval : α → Lazy} {s : Scope}

/-- What is done leads to its value. -/
@[simp] theorem run_done (v : Value) : (done v).run callee eval = pure v := rfl

/-- A part is evaluated, and what comes next is carried out with its value. -/
@[simp] theorem run_part (a : α) (s : Scope) (next : Value → Plan α) :
    (part a s next).run callee eval = eval a s >>= fun v => (next v).run callee eval := rfl

/-- A value is settled before it is used. -/
@[simp] theorem run_settle (v : Value) (next : Value → Plan α) :
    (settle v next).run callee eval =
      EvalM.settle v >>= fun v => (next v).run callee eval := rfl

/-- A template is looked up before what comes next is carried out. -/
@[simp] theorem run_find (key : String) (next : TemplateEntry → Plan α) :
    (find key next).run callee eval =
      EvalM.lookup key >>= fun entry => (next entry).run callee eval := rfl

/-- A body is called in its scope. -/
@[simp] theorem run_call (body : TemplateBody) (s : Scope) :
    (call body s).run callee eval = callee body s := rfl

/-- A method is called with its arguments. -/
@[simp] theorem run_method (m : Method) (args : Arguments) :
    (method m args).run callee eval = m.call args := rfl

/-- A definition leaves the empty text behind. -/
@[simp] theorem run_define (entry : EntryMaker) (key : String) :
    (define entry key).run callee eval =
      EvalM.define entry key >>= fun _ => pure (.string "") := rfl

/-- Parts are concatenated from left to right. -/
theorem run_concat (next : String → Plan α) (out : String) (parts : List α) :
    (concat s next out parts).run callee eval =
      Form.evalConcat out (parts.map eval) s >>= fun out => (next out).run callee eval := by
  induction parts generalizing out with
  | nil => simp [concat, Form.evalConcat]
  | cons a as ih => simp [concat, Form.evalConcat, ih]

/-- The first condition that is truthy decides. -/
theorem run_choose (parts : List α) :
    (choose s parts).run callee eval = Form.evalChoose (parts.map eval) s := by
  induction parts using choose.induct with
  | case1 => rfl
  | case2 otherwise => simp [choose, Form.evalChoose]
  | case3 condition body rest ih =>
    simp only [choose, run_part, List.map_cons, Form.evalChoose]
    refine bind_congr fun v => ?_
    split
    · simp
    · exact ih

/-- An inverted condition decides between two parts. -/
theorem run_invert (parts : List α) :
    (invert s parts).run callee eval = Form.evalUnless (parts.map eval) s := by
  match parts with
  | [] | [_] => rfl
  | condition :: body :: rest =>
    simp only [invert, run_part, List.map_cons, Form.evalUnless]
    refine bind_congr fun v => ?_
    split
    · cases rest <;> simp
    · simp

/-- The first part that is not `null` is the value. -/
theorem run_coalesce (parts : List α) :
    (coalesce s parts).run callee eval = Form.evalDefault (parts.map eval) s := by
  induction parts with
  | nil => rfl
  | cons a as ih =>
    simp only [coalesce, run_part, List.map_cons, Form.evalDefault]
    refine bind_congr fun v => ?_
    split
    · exact ih
    · rfl

/-- Parts are evaluated until one of them ends the search. -/
theorem run_search (stop : Bool) (parts : List α) :
    (search stop s parts).run callee eval = Form.evalUntil stop (parts.map eval) s := by
  induction parts with
  | nil => rfl
  | cons a as ih =>
    cases as with
    | nil => simp [search, Form.evalUntil]
    | cons b as =>
      simp only [search, run_part, List.map_cons, Form.evalUntil]
      refine bind_congr fun v => ?_
      split
      · rfl
      · exact ih

/-- The plan of an operation on its arguments is the operation. -/
theorem run_form (f : Form) (parts : List α) :
    (form f parts s).run callee eval = f.eval (parts.map eval) s := by
  match f with
  | .concat => exact run_concat _ _ _
  | .choose => exact run_choose _
  | .unless => exact run_invert _
  | .default => exact run_coalesce _
  | .all => exact run_search false _
  | .any => exact run_search true _

/-- The rounds of a loop are run one after the other. -/
theorem run_rounds (body : α) (next : String → Plan α) (out : String) (scopes : List Scope) :
    (rounds body next out scopes).run callee eval =
      roundsFrom (eval body) out scopes >>= fun out => (next out).run callee eval := by
  induction scopes generalizing out with
  | nil => simp [rounds, roundsFrom]
  | cons s scopes ih => simp [rounds, roundsFrom, ih]

/-- The plan of a loop is the loop, with a frame in every round. -/
theorem run_loop (kind : LoopKind) (params : List String) (selector body branch : α) :
    (loop kind params selector body branch s).run callee eval =
      LoopStyle.eval { kind, params, framed := true, atOnce := false } (eval selector) (eval body)
        (eval branch) s := by
  simp only [loop, run_part, LoopStyle.eval]
  refine bind_congr fun source => ?_
  split
  · simp
  · split
    · unfold wholeValue
      split <;> simp
    · rw [LoopStyle.run_eq]
      cases source.items with
      | nil => simp
      | cons item items => simp [run_rounds]

/-- Named parts are evaluated in order. -/
theorem run_named (next : Keyed Value → Plan α) (parts : List (String × α)) :
    (named s next parts).run callee eval =
      evalNamed (Keyed.mapValues eval parts) s >>= fun vs => (next vs).run callee eval := by
  induction parts generalizing next with
  | nil => simp [named, evalNamed]
  | cons entry rest ih => simp [named, evalNamed, ih]

/-- A part that need not be there is evaluated if it is. -/
theorem run_optional (next : Option Value → Plan α) (value : Option α) :
    (optional s next value).run callee eval =
      evalOptional (value.map eval) s >>= fun v => (next v).run callee eval := by
  cases value <;> simp [optional, evalOptional]

/-- The plan of a block with a context is the block, with a frame for its body. -/
theorem run_context (params : List String) (parts : List (String × α)) (value : Option α)
    (body : α) :
    (context params parts value body s).run callee eval =
      evalContext params true (Keyed.mapValues eval parts) (value.map eval) (eval body) s := by
  simp only [context, run_named, run_optional, run_settle, evalContext, Bool.and_true]
  refine bind_congr fun vs => bind_congr fun v => bind_congr fun context => ?_
  split <;> simp

/-- The plan of a call is the call. -/
theorem run_template (name : α) (parts : List (String × α)) :
    (template name parts s).run callee eval =
      evalTemplate callee (eval name) (Keyed.mapValues eval parts) s := by
  simp only [template, run_part, run_find, run_named, evalTemplate, EvalM.lookup, bind_assoc]
  refine bind_congr fun v => bind_congr fun R => bind_congr fun entry => bind_congr fun vs => ?_
  split <;> simp

/-- Arguments are evaluated in order, the named ones among the others. -/
theorem run_arguments (next : Arguments → Plan α) (args : Arguments)
    (parts : List (Option String × α)) :
    (arguments s next args parts).run callee eval =
      evalBuiltArguments (Keyed.mapValues eval parts) args s >>= fun args =>
        (next args).run callee eval := by
  induction parts generalizing args with
  | nil => simp [arguments, evalBuiltArguments]
  | cons arg rest ih => simp [arguments, evalBuiltArguments, ih]

end Plan

/-- A layer runs as its plan. -/
theorem Layer.run_eq_plan {α : Type} (callee : TemplateBody → Lazy) (eval : α → Lazy)
    (l : Layer α) (s : Scope) : l.run callee eval s = (l.plan s).run callee eval := by
  cases l with
  | value | path | lookup | position | refused => rfl
  | form f parts => exact (Plan.run_form f parts).symm
  | loop kind params selector body branch => exact (Plan.run_loop kind params _ _ _).symm
  | context params named v body => exact (Plan.run_context params named v body).symm
  | template name named => exact (Plan.run_template name named).symm
  | define name entry =>
    simp [run, plan, evalDefinition, EvalM.define]
  | method m args => exact (Plan.run_arguments (.method m) {} args).symm

/-! ### The parts of a plan -/

namespace Plan

variable {α : Type} {P : α → Prop} {Q : EntryMaker → Prop} {s : Scope}

/-- A concatenation uses its parts. -/
theorem uses_concat (next : String → Plan α) (hnext : ∀ out, (next out).Uses P Q) {parts : List α}
    (h : ∀ a ∈ parts, P a) (out : String) : (concat s next out parts).Uses P Q := by
  induction parts generalizing out with
  | nil => exact hnext out
  | cons a as ih =>
    obtain ⟨ha, has⟩ := List.forall_mem_cons.mp h
    exact ⟨ha, fun v => ih has _⟩

/-- A choice uses its conditions and its branches. -/
theorem uses_choose {parts : List α} (h : ∀ a ∈ parts, P a) : (choose s parts).Uses P Q := by
  induction parts using choose.induct with
  | case1 => trivial
  | case2 otherwise => exact ⟨h otherwise List.mem_cons_self, fun _ => trivial⟩
  | case3 condition body rest ih =>
    obtain ⟨hcondition, hbody, hrest⟩ := by simpa only [List.forall_mem_cons] using h
    refine ⟨hcondition, fun v => ?_⟩
    dsimp only
    split
    · exact ⟨hbody, fun _ => trivial⟩
    · exact ih hrest

/-- An inverted choice uses its parts. -/
theorem uses_invert {parts : List α} (h : ∀ a ∈ parts, P a) : (invert s parts).Uses P Q := by
  match parts with
  | [] | [_] => trivial
  | condition :: body :: rest =>
    obtain ⟨hcondition, hbody, hrest⟩ := by simpa only [List.forall_mem_cons] using h
    refine ⟨hcondition, fun v => ?_⟩
    dsimp only
    split
    · cases rest with
      | nil => trivial
      | cons otherwise rest => exact ⟨hrest otherwise List.mem_cons_self, fun _ => trivial⟩
    · exact ⟨hbody, fun _ => trivial⟩

/-- A default uses its parts. -/
theorem uses_coalesce {parts : List α} (h : ∀ a ∈ parts, P a) : (coalesce s parts).Uses P Q := by
  induction parts with
  | nil => trivial
  | cons a as ih =>
    obtain ⟨ha, has⟩ := List.forall_mem_cons.mp h
    refine ⟨ha, fun v => ?_⟩
    dsimp only
    split
    · exact ih has
    · trivial

/-- A search uses its parts. -/
theorem uses_search (stop : Bool) {parts : List α} (h : ∀ a ∈ parts, P a) :
    (search stop s parts).Uses P Q := by
  induction parts with
  | nil => trivial
  | cons a as ih =>
    obtain ⟨ha, has⟩ := List.forall_mem_cons.mp h
    cases as with
    | nil => exact ⟨ha, fun _ => trivial⟩
    | cons b as =>
      refine ⟨ha, fun v => ?_⟩
      dsimp only
      split
      · trivial
      · exact ih has

/-- An operation on its arguments uses the arguments. -/
theorem uses_form (f : Form) {parts : List α} (h : ∀ a ∈ parts, P a) :
    (form f parts s).Uses P Q := by
  match f with
  | .concat => exact uses_concat (fun out => done (.string out)) (fun _ => trivial) h _
  | .choose => exact uses_choose h
  | .unless => exact uses_invert h
  | .default => exact uses_coalesce h
  | .all => exact uses_search false h
  | .any => exact uses_search true h

/-- The rounds of a loop use the body. -/
theorem uses_rounds {body : α} (hbody : P body) (next : String → Plan α)
    (hnext : ∀ out, (next out).Uses P Q) (out : String) (scopes : List Scope) :
    (rounds body next out scopes).Uses P Q := by
  induction scopes generalizing out with
  | nil => exact hnext out
  | cons s scopes ih => exact ⟨hbody, fun v => ih _⟩

/-- A loop uses its selector, its body and its branch. -/
theorem uses_loop (kind : LoopKind) (params : List String) {selector body branch : α}
    (hselector : P selector) (hbody : P body) (hbranch : P branch) :
    (loop kind params selector body branch s).Uses P Q := by
  refine ⟨hselector, fun source => ?_⟩
  dsimp only
  split
  · exact ⟨hbranch, fun _ => trivial⟩
  · split
    · split <;> exact ⟨hbody, fun _ => trivial⟩
    · split
      · exact ⟨hbranch, fun _ => trivial⟩
      · exact uses_rounds hbody (fun text => done (.string text)) (fun _ => trivial) _ _

/-- Named parts are used. -/
theorem uses_named {next : Keyed Value → Plan α} (hnext : ∀ vs, (next vs).Uses P Q)
    {parts : List (String × α)} (h : ∀ a ∈ parts.map Prod.snd, P a) :
    (named s next parts).Uses P Q := by
  induction parts generalizing next with
  | nil => exact hnext []
  | cons entry rest ih =>
    obtain ⟨hentry, hrest⟩ := by simpa only [List.map_cons, List.forall_mem_cons] using h
    exact ⟨hentry, fun v => ih (fun vs => hnext _) hrest⟩

/-- A block with a context uses its named parts, its value and its body. -/
theorem uses_context (params : List String) {parts : List (String × α)} {value : Option α}
    {body : α} (hparts : ∀ a ∈ parts.map Prod.snd, P a) (hvalue : ∀ a ∈ value, P a)
    (hbody : P body) : (context params parts value body s).Uses P Q := by
  refine uses_named (fun vs => ?_) hparts
  have hend : ∀ v, (settle (newContext vs v).1 fun context =>
      if (newContext vs v).2 || !params.isEmpty then
        part body (s.enter context (params.zip [context])) done
      else part body (s.rebase context) done).Uses P Q := by
    intro v context
    split <;> exact ⟨hbody, fun _ => trivial⟩
  cases value with
  | none => exact hend none
  | some a => exact ⟨hvalue a rfl, fun v => hend (some v)⟩

/-- A call uses its name and its named parts. -/
theorem uses_template {name : α} {parts : List (String × α)} (hname : P name)
    (hparts : ∀ a ∈ parts.map Prod.snd, P a) : (template name parts s).Uses P Q := by
  refine ⟨hname, fun v entry => uses_named (fun vs => ?_) hparts⟩
  dsimp only
  split
  · trivial
  · exact fun _ => trivial

/-- The arguments of a method are used. -/
theorem uses_arguments (next : Arguments → Plan α) (hnext : ∀ args, (next args).Uses P Q)
    {parts : List (Option String × α)} (h : ∀ a ∈ parts.map Prod.snd, P a) (args : Arguments) :
    (arguments s next args parts).Uses P Q := by
  induction parts generalizing args with
  | nil => exact hnext args
  | cons arg rest ih =>
    obtain ⟨harg, hrest⟩ := by simpa only [List.map_cons, List.forall_mem_cons] using h
    exact ⟨harg, fun v => ih hrest _⟩

end Plan

/-- The plan of a layer evaluates parts of the layer and defines what the layer defines. -/
theorem Layer.uses_plan {α : Type} {P : α → Prop} {Q : EntryMaker → Prop} {l : Layer α}
    (h : ∀ a ∈ l.parts, P a) (hentry : ∀ name entry, l = .define name entry → Q entry) (s : Scope) :
    (l.plan s).Uses P Q := by
  cases l with
  | value | path | lookup | position | refused => trivial
  | form f parts => exact Plan.uses_form f h
  | loop kind params selector body branch =>
    exact Plan.uses_loop kind params (h _ (by simp [parts])) (h _ (by simp [parts]))
      (h _ (by simp [parts]))
  | context params named v body =>
    refine Plan.uses_context params (fun a ha => h a ?_) (fun a ha => h a ?_)
      (h _ (by simp [parts]))
    · exact List.mem_append_left _ (List.mem_append_left _ ha)
    · exact List.mem_append_left _ (List.mem_append_right _ (by simpa using ha))
  | template name named =>
    exact Plan.uses_template (h _ List.mem_cons_self) fun a ha => h a (List.mem_cons_of_mem _ ha)
  | define name entry => exact ⟨h _ (by simp [parts]), fun _ => hentry name entry rfl⟩
  | method m args => exact Plan.uses_arguments (.method m) (fun _ => trivial) h _

end Stencil
