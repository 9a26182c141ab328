import Scriptlet.Evaluation.Session
import Scriptlet.Proofs.Evaluation.Frames
import Scriptlet.Proofs.Program.Mention

/-!
# Walking trees with other actions

The evaluator goes through a tree in one order and leaves to a few actions what happens to
variables, calls and tasks.  Here the actions are a parameter, and so are the runs that they
are: stateful ones, or any others that return and follow each other.  With the actions of the
evaluator the walk is the evaluator, and two walks agree as far as the actions do that the
tree mentions.
-/

namespace Scriptlet

/-- What is done at the places of a tree where more than the tree matters. -/
structure Actions (m : Type -> Type) where
  raise : {α : Type} -> RuntimeError -> m α
  readVar : VarId -> Pos -> m Value
  writeVar : VarId -> Value -> Pos -> m Unit
  call : FunId -> List Value -> Pos -> m (Option Value)
  startTask : Pos -> VarId -> FunId -> List Value -> m Unit
  awaitTask : Pos -> VarId -> m Unit
  /-- The end of a loop that has no rounds left. -/
  exhausted : {α : Type} -> m α

namespace Walk

variable {m : Type -> Type} [Monad m] (acts : Actions m)

def failAt {α : Type} (cause : RuntimeCause) (pos : Pos) : m α :=
  acts.raise { cause := cause, pos := pos }

def mismatch {α : Type} (place : TypedPlace) (expected found : ValueType) (pos : Pos) : m α :=
  failAt acts (.typeMismatch { place := place, expected := expected, found := found }) pos

def operator (pos : Pos) (result : Except OpError Value) : m Value :=
  match result with
  | .ok value => pure value
  | .error e => failAt acts (.ofOpError e) pos

def checkArgument (p : Program) (f : FunId) (param : Param) (value : Value) (pos : Pos) : m Unit :=
  if param.type.accepts value.type then
    pure ()
  else
    mismatch acts (.argument (p.variableAt param.var).name (p.function f).name) param.type
      value.type pos

variable (p : Program)

mutual

def expr : Expr -> m Value
  | .literal _ value => pure value
  | .const _ id => pure (p.constant id).value
  | .var pos id => acts.readVar id pos
  | .unary pos op operand => do
      let value ← expr operand
      operator acts pos (op.apply value)
  | .binary pos op left right => do
      let l ← expr left
      let r ← expr right
      operator acts pos (op.apply l r)
  | .call pos f args => do
      let values ← arguments f pos (p.function f).params args
      match ← acts.call f values pos with
      | some value => pure value
      | none => mismatch acts (.result (p.function f).name) .any .none pos

def arguments (f : FunId) (pos : Pos) : List Param -> List Expr -> m (List Value)
  | param :: params, arg :: args => do
      let value ← expr arg
      checkArgument acts p f param value pos
      let values ← arguments f pos params args
      return value :: values
  | _, _ => return []

end

def condition (place : TypedPlace) (cond : Expr) : m Bool := do
  match ← expr acts p cond with
  | .bool b => return b
  | value => mismatch acts place .bool value.type cond.pos

def loopWithin (cond : m Bool) (body : m Flow) : Nat -> m Flow
  | 0 => acts.exhausted
  | limit + 1 => do
      if ← cond then
        match ← body with
        | .next => loopWithin cond body limit
        | .returned value => return .returned value
      else
        return .next

def store (pos : Pos) (id : VarId) (value : Expr) : m Flow := do
  let v ← expr acts p value
  acts.writeVar id v pos
  return .next

variable (fuel : Nat)

mutual

def stmt : Stmt -> m Flow
  | .constDecl _ _ => return .next
  | .funDecl _ _ => return .next
  | .varDecl _ _ none => return .next
  | .varDecl pos id (some init) => store acts p pos id init
  | .block _ body => stmts body
  | .ifThen _ cond _ body => do
      if ← condition acts p .ifCondition cond then
        stmts body
      else
        return .next
  | .whileDo _ cond _ body =>
      loopWithin acts (condition acts p .whileCondition cond) (stmts body) fuel
  | .ret _ value => do
      let value ← expr acts p value
      return .returned value
  | .assign pos target value => store acts p pos target value
  | .call pos f args => do
      let values ← arguments acts p f pos (p.function f).params args
      let _ ← acts.call f values pos
      return .next
  | .async pos target f args => do
      let values ← arguments acts p f pos (p.function f).params args
      acts.startTask pos target f values
      return .next
  | .await pos target => do
      acts.awaitTask pos target
      return .next

def stmts : List Stmt -> m Flow
  | [] => return .next
  | s :: rest => do
      match ← stmt s with
      | .next => stmts rest
      | .returned value => return .returned value

end

def checkResult (f : Function) (pos : Pos) (result : Option Value) : m (Option Value) :=
  if yieldType result = f.result then
    pure result
  else
    mismatch acts (.returned f.name) f.result (yieldType result) pos

def checkArguments (f : FunId) (pos : Pos) : List Param -> List Value -> m Unit
  | param :: params, value :: values => do
      checkArgument acts p f param value pos
      checkArguments f pos params values
  | _, _ => return ()

end Walk

/-!
# The actions of the evaluator
-/

def Actions.plain {σ : Type} (p : Program) (invoke : Invoke σ) :
    Actions (Run RuntimeError (Machine σ)) where
  raise := Run.fail
  readVar := Eval.readVar p
  writeVar := Eval.writeVar p
  call := invoke
  startTask := Eval.startCall p invoke
  awaitTask := Eval.awaitTask p
  exhausted := Run.exhausted

section Plain

variable {σ : Type} (p : Program) (invoke : Invoke σ)

theorem walk_operator_plain (pos : Pos) (result : Except OpError Value) :
    Walk.operator (.plain p invoke) pos result = (Eval.operator pos result : Eval σ Value) := by
  cases result <;> rfl

mutual

theorem walk_expr_plain : forall e : Expr,
    Walk.expr (.plain p invoke) p e = Eval.expr p invoke e
  | .literal _ _ => rfl
  | .const _ _ => rfl
  | .var _ _ => rfl
  | .unary pos op operand => by
      simp only [Walk.expr, Eval.expr, walk_expr_plain operand, walk_operator_plain]
  | .binary pos op left right => by
      simp only [Walk.expr, Eval.expr, walk_expr_plain left, walk_expr_plain right,
        walk_operator_plain]
  | .call pos f args => by
      rw [Walk.expr, Eval.expr, walk_arguments_plain f pos _ args]
      rfl

theorem walk_arguments_plain (f : FunId) (pos : Pos) :
    forall (params : List Param) (args : List Expr),
      Walk.arguments (.plain p invoke) p f pos params args =
        Eval.arguments p invoke f pos params args
  | param :: params, arg :: args => by
      rw [Walk.arguments, Eval.arguments, walk_expr_plain arg, walk_arguments_plain f pos params args]
      rfl
  | [], [] => rfl
  | [], _ :: _ => rfl
  | _ :: _, [] => rfl

end

theorem walk_condition_plain (place : TypedPlace) (cond : Expr) :
    Walk.condition (.plain p invoke) p place cond = Eval.condition p invoke place cond := by
  rw [Walk.condition, Eval.condition, walk_expr_plain]
  rfl

theorem walk_loopWithin_plain (cond : Eval σ Bool) (body : Eval σ Flow) (limit : Nat) :
    Walk.loopWithin (.plain p invoke) cond body limit = Eval.loopWithin cond body limit := by
  induction limit with
  | zero => rfl
  | succ limit ih =>
      rw [Walk.loopWithin, ih]
      rfl

variable (fuel : Nat)

mutual

theorem walk_stmt_plain : forall s : Stmt,
    Walk.stmt (.plain p invoke) p fuel s = Eval.stmt p fuel invoke s
  | .constDecl _ _ => rfl
  | .funDecl _ _ => rfl
  | .varDecl _ _ none => rfl
  | .varDecl pos id (some init) => by
      rw [Walk.stmt, Eval.stmt, Walk.store, walk_expr_plain]
      rfl
  | .block _ body => walk_stmts_plain body
  | .ifThen _ cond _ body => by
      rw [Walk.stmt, Eval.stmt, walk_condition_plain, walk_stmts_plain body]
  | .whileDo _ cond _ body => by
      rw [Walk.stmt, Eval.stmt, walk_condition_plain, walk_stmts_plain body, walk_loopWithin_plain]
  | .ret _ value => by
      rw [Walk.stmt, Eval.stmt, walk_expr_plain]
  | .assign pos target value => by
      rw [Walk.stmt, Eval.stmt, Walk.store, walk_expr_plain]
      rfl
  | .call pos f args => by
      rw [Walk.stmt, Eval.stmt, walk_arguments_plain]
      rfl
  | .async pos target f args => by
      rw [Walk.stmt, Eval.stmt, walk_arguments_plain, Eval.startTask, bind_assoc]
      rfl
  | .await pos target => rfl

theorem walk_stmts_plain : forall body : List Stmt,
    Walk.stmts (.plain p invoke) p fuel body = Eval.stmts p fuel invoke body
  | [] => rfl
  | s :: rest => by
      rw [Walk.stmts, walk_stmt_plain s, walk_stmts_plain rest]
      rfl

end
end Plain

/-!
# Laws of walks
-/

/-- Something that is said of runs with a condition on what they return, and that holds of
runs which follow each other if it holds of each. -/
structure Walk.Law (m : Type -> Type) [Monad m] where
  holds : {α : Type} -> (α -> Prop) -> m α -> Prop
  ret : forall {α : Type} {good : α -> Prop} {a : α}, good a -> holds good (pure a)
  bind : forall {α β : Type} {good : α -> Prop} {next : β -> Prop} {x : m α} {f : α -> m β},
    holds good x -> (forall a, good a -> holds next (f a)) -> holds next (x >>= f)

abbrev Walk.Law.holdsAll {m : Type -> Type} [Monad m] (law : Walk.Law m) {α : Type} (x : m α) :
    Prop :=
  law.holds (fun _ => True) x

/-- The law holds of the actions wherever they are taken for something that is admitted, on
arguments that were checked. -/
structure Actions.Obey {m : Type -> Type} [Monad m] (law : Walk.Law m) (p : Program)
    (admits : Mention -> Prop) (a : Actions m) : Prop where
  raise : forall {α : Type} {good : α -> Prop} e, law.holds good (a.raise e)
  reads : forall {id} pos, admits (.read id) -> law.holdsAll (a.readVar id pos)
  writes : forall {mention id} v pos, admits mention -> mention.stored? = some id ->
    law.holdsAll (a.writeVar id v pos)
  calls : forall {f arity values} pos, admits (.call f arity) ->
    Accepted (p.function f).params values -> law.holdsAll (a.call f values pos)
  starts : forall {target f arity values} pos, admits (.start target f arity) ->
    Accepted (p.function f).params values -> law.holdsAll (a.startTask pos target f values)
  awaits : forall {target} pos, admits (.await target) -> law.holdsAll (a.awaitTask pos target)
  exhausted : forall {α : Type} {good : α -> Prop}, law.holds good (a.exhausted : m α)

namespace Actions.Obey

variable {m : Type -> Type} [Monad m] {law : Walk.Law m} {p : Program} {admits : Mention -> Prop}
  {a : Actions m}

section Expressions

variable (h : a.Obey law p admits)

include h

theorem operator (pos : Pos) (result : Except OpError Value) :
    law.holdsAll (Walk.operator a pos result) := by
  cases result with
  | ok value => exact law.ret trivial
  | error e => exact h.raise _

theorem checkArgument (f : FunId) (param : Param) (value : Value) (pos : Pos) :
    law.holds (fun _ => param.type.accepts value.type = true)
      (Walk.checkArgument a p f param value pos) := by
  unfold Walk.checkArgument
  split
  · rename_i haccepts
    exact law.ret haccepts
  · exact h.raise _

mutual

theorem expr : forall e : Expr, Admitted admits e.mentions -> law.holdsAll (Walk.expr a p e)
  | .literal _ _, _ => law.ret trivial
  | .const _ _, _ => law.ret trivial
  | .var pos _, hadmits => h.reads pos hadmits.head
  | .unary pos _ operand, hadmits => law.bind (expr operand hadmits) fun _ _ => h.operator pos _
  | .binary pos _ left right, hadmits => by
      apply law.bind (expr left hadmits.left)
      intro l _
      apply law.bind (expr right hadmits.right)
      intro r _
      exact h.operator pos _
  | .call pos f args, hadmits => by
      apply law.bind (arguments f pos _ args hadmits.tail)
      intro values hvalues
      apply law.bind (h.calls pos hadmits.head hvalues)
      intro result _
      cases result with
      | some value => exact law.ret trivial
      | none => exact h.raise _

theorem arguments (f : FunId) (pos : Pos) :
    forall (params : List Param) (args : List Expr), Admitted admits (Expr.listMentions args) ->
      law.holds (Accepted params) (Walk.arguments a p f pos params args)
  | param :: params, arg :: args, hadmits => by
      apply law.bind (expr arg hadmits.left)
      intro value _
      apply law.bind (h.checkArgument f param value pos)
      intro _ haccepts
      apply law.bind (arguments f pos params args hadmits.right)
      intro values hvalues
      exact law.ret (accepted_cons haccepts hvalues)
  | [], [], _ => law.ret (accepted_of_nil (.inl rfl))
  | [], _ :: _, _ => law.ret (accepted_of_nil (.inl rfl))
  | _ :: _, [], _ => law.ret (accepted_of_nil (.inr rfl))

end

theorem condition (place : TypedPlace) {cond : Expr} (hadmits : Admitted admits cond.mentions) :
    law.holdsAll (Walk.condition a p place cond) := by
  apply law.bind (h.expr cond hadmits)
  intro value _
  cases value with
  | bool _ => exact law.ret trivial
  | int _ => exact h.raise _
  | float _ => exact h.raise _

theorem loopWithin {cond : m Bool} {body : m Flow} (hcond : law.holdsAll cond)
    (hbody : law.holdsAll body) (limit : Nat) :
    law.holdsAll (Walk.loopWithin a cond body limit) := by
  induction limit with
  | zero => exact h.exhausted
  | succ limit ih =>
      apply law.bind hcond
      intro holds _
      cases holds with
      | false => exact law.ret trivial
      | true =>
          apply law.bind hbody
          intro flow _
          cases flow with
          | next => exact ih
          | returned value => exact law.ret trivial

theorem store (pos : Pos) {mention : Mention} {id : VarId} {value : Expr}
    (hadmits : Admitted admits (mention :: value.mentions)) (hstored : mention.stored? = some id) :
    law.holdsAll (Walk.store a p pos id value) := by
  apply law.bind (h.expr value hadmits.tail)
  intro v _
  exact law.bind (h.writes v pos hadmits.head hstored) fun _ _ => law.ret trivial

end Expressions

mutual

theorem stmt (h : a.Obey law p admits) (fuel : Nat) : forall s : Stmt,
    Admitted admits s.mentions -> law.holdsAll (Walk.stmt a p fuel s)
  | .constDecl _ _, _ => law.ret trivial
  | .funDecl _ _, _ => law.ret trivial
  | .varDecl _ _ none, _ => law.ret trivial
  | .varDecl pos _ (some _), hadmits => h.store pos hadmits rfl
  | .block _ body, hadmits => stmts h fuel body hadmits
  | .ifThen _ _ _ body, hadmits => by
      apply law.bind (h.condition .ifCondition hadmits.left)
      intro holds _
      cases holds with
      | false => exact law.ret trivial
      | true => exact stmts h fuel body hadmits.right
  | .whileDo _ _ _ body, hadmits =>
      h.loopWithin (h.condition .whileCondition hadmits.left) (stmts h fuel body hadmits.right) fuel
  | .ret _ value, hadmits => law.bind (h.expr value hadmits) fun _ _ => law.ret trivial
  | .assign pos _ _, hadmits => h.store pos hadmits rfl
  | .call pos f args, hadmits => by
      apply law.bind (h.arguments f pos _ args hadmits.tail)
      intro values hvalues
      exact law.bind (h.calls pos hadmits.head hvalues) fun _ _ => law.ret trivial
  | .async pos _ f args, hadmits => by
      apply law.bind (h.arguments f pos _ args hadmits.tail)
      intro values hvalues
      exact law.bind (h.starts pos hadmits.head hvalues) fun _ _ => law.ret trivial
  | .await pos _, hadmits => law.bind (h.awaits pos hadmits.head) fun _ _ => law.ret trivial

theorem stmts (h : a.Obey law p admits) (fuel : Nat) : forall body : List Stmt,
    Admitted admits (Stmt.listMentions body) -> law.holdsAll (Walk.stmts a p fuel body)
  | [], _ => law.ret trivial
  | s :: rest, hadmits => by
      apply law.bind (stmt h fuel s hadmits.left)
      intro flow _
      cases flow with
      | next => exact stmts h fuel rest hadmits.right
      | returned value => exact law.ret trivial

end
end Actions.Obey

/-!
# Walks that agree
-/

/-- The first outcome is matched by the second.  One that has not ended is matched by
another such one, or by any if that is allowed. -/
inductive Outcome.Matches {ε ε' σ τ α : Type} (errors : ε -> ε' -> Prop) (states : σ -> τ -> Prop)
    (loose : Prop) : Outcome ε σ α -> Outcome ε' τ α -> Prop where
  | done {a : α} {s : σ} {t : τ} : states s t -> Matches errors states loose (.done a s) (.done a t)
  | failed {e : ε} {e' : ε'} {s : σ} {t : τ} : errors e e' -> states s t ->
      Matches errors states loose (.failed e s) (.failed e' t)
  | unfinished : Matches errors states loose .unfinished .unfinished
  | cut {other : Outcome ε' τ α} : loose -> Matches errors states loose .unfinished other

def Run.Matches {ε ε' σ τ α : Type} (errors : ε -> ε' -> Prop) (states : σ -> τ -> Prop)
    (loose : Prop) (x : Run ε σ α) (y : Run ε' τ α) : Prop :=
  forall s t, states s t -> (x s).Matches errors states loose (y t)

/-- The actions match wherever they are taken for something that is admitted. -/
structure Actions.Match {ε ε' σ τ : Type} (admits : Mention -> Prop) (errors : ε -> ε' -> Prop)
    (states : σ -> τ -> Prop) (loose : Prop) (a : Actions (Run ε σ))
    (b : Actions (Run ε' τ)) : Prop where
  raise : forall {α : Type} e,
    (a.raise e : Run ε σ α).Matches errors states loose (b.raise e)
  reads : forall {id} pos, admits (.read id) ->
    (a.readVar id pos).Matches errors states loose (b.readVar id pos)
  writes : forall {m id} v pos, admits m -> m.stored? = some id ->
    (a.writeVar id v pos).Matches errors states loose (b.writeVar id v pos)
  calls : forall {f arity} values pos, admits (.call f arity) ->
    (a.call f values pos).Matches errors states loose (b.call f values pos)
  starts : forall {target f arity} pos values, admits (.start target f arity) ->
    (a.startTask pos target f values).Matches errors states loose (b.startTask pos target f values)
  awaits : forall {target} pos, admits (.await target) ->
    (a.awaitTask pos target).Matches errors states loose (b.awaitTask pos target)
  exhausted : forall {α : Type},
    (a.exhausted : Run ε σ α).Matches errors states loose b.exhausted

section Rules

variable {ε ε' σ τ α β : Type} {errors : ε -> ε' -> Prop} {states : σ -> τ -> Prop} {loose : Prop}

theorem Outcome.Matches.refl (x : Outcome ε σ α) :
    x.Matches Eq Eq loose x := by
  cases x with
  | done a s => exact .done rfl
  | failed e s => exact .failed rfl rfl
  | unfinished => exact .unfinished

theorem Outcome.Matches.trans {x y z : Outcome ε σ α}
    (h : x.Matches Eq Eq loose y) (h' : y.Matches Eq Eq loose z) : x.Matches Eq Eq loose z := by
  cases h with
  | done hs => exact hs ▸ h'
  | failed he hs => exact he ▸ hs ▸ h'
  | unfinished => exact h'
  | cut hcut => exact .cut hcut

theorem Outcome.Matches.loosen {loose' : Prop} {x y : Outcome ε σ α}
    (h : x.Matches Eq Eq loose y) (hloose : loose -> loose') : x.Matches Eq Eq loose' y := by
  cases h with
  | done hs => exact .done hs
  | failed he hs => exact .failed he hs
  | unfinished => exact .unfinished
  | cut hcut => exact .cut (hloose hcut)

theorem matches_pure (a : α) :
    (pure a : Run ε σ α).Matches errors states loose (pure a : Run ε' τ α) :=
  fun _ _ h => .done h

theorem matches_fail {e : ε} {e' : ε'} (he : errors e e') :
    (Run.fail e : Run ε σ α).Matches errors states loose (Run.fail e' : Run ε' τ α) :=
  fun _ _ h => .failed he h

theorem Run.Matches.bind {x : Run ε σ α} {y : Run ε' τ α} {f : α -> Run ε σ β}
    {g : α -> Run ε' τ β} (hx : x.Matches errors states loose y)
    (hf : forall a, (f a).Matches errors states loose (g a)) :
    (x >>= f).Matches errors states loose (y >>= g) := by
  intro s t h
  have hxy := hx s t h
  rw [Run.bind_apply, Run.bind_apply]
  generalize x s = first at hxy
  generalize y t = second at hxy
  cases hxy with
  | done hst => exact hf _ _ _ hst
  | failed he hst => exact .failed he hst
  | unfinished => exact .unfinished
  | cut hloose => exact .cut hloose

theorem Run.Matches.around {inner : σ -> τ -> Prop} {x : Run ε σ α} {y : Run ε' τ α}
    (hxy : x.Matches errors inner loose y) {enter leave : σ -> σ} {enter' leave' : τ -> τ}
    (henter : forall s t, states s t -> inner (enter s) (enter' t))
    (hleave : forall s t, inner s t -> states (leave s) (leave' t)) :
    Run.Matches errors states loose (fun s => (x (enter s)).mapState leave)
      (fun t => (y (enter' t)).mapState leave') := by
  intro s t h
  have hinside := hxy _ _ (henter s t h)
  beta_reduce
  generalize x (enter s) = first at hinside
  generalize y (enter' t) = second at hinside
  cases hinside with
  | done hst => exact .done (hleave _ _ hst)
  | failed he hst => exact .failed he (hleave _ _ hst)
  | unfinished => exact .unfinished
  | cut hloose => exact .cut hloose

end Rules

section Walks

variable {ε ε' σ τ : Type} {p : Program} {admits : Mention -> Prop} {errors : ε -> ε' -> Prop}
  {states : σ -> τ -> Prop} {loose : Prop} {a : Actions (Run ε σ)}
  {b : Actions (Run ε' τ)}
  (h : a.Match admits errors states loose b)

include h

theorem matches_mismatch {α : Type} (place : TypedPlace) (expected found : ValueType) (pos : Pos) :
    (Walk.mismatch a place expected found pos : Run ε σ α).Matches errors states loose
      (Walk.mismatch b place expected found pos) :=
  h.raise _

theorem matches_operator (pos : Pos) (result : Except OpError Value) :
    (Walk.operator a pos result).Matches errors states loose (Walk.operator b pos result) := by
  cases result with
  | ok value => exact matches_pure value
  | error e => exact h.raise _

theorem matches_checkArgument (f : FunId) (param : Param) (value : Value) (pos : Pos) :
    (Walk.checkArgument a p f param value pos).Matches errors states loose
      (Walk.checkArgument b p f param value pos) := by
  unfold Walk.checkArgument
  split
  · exact matches_pure ()
  · exact matches_mismatch h _ _ _ pos

mutual

theorem matches_expr : forall e : Expr, Admitted admits e.mentions ->
    (Walk.expr a p e).Matches errors states loose (Walk.expr b p e)
  | .literal _ value, _ => matches_pure value
  | .const _ _, _ => matches_pure _
  | .var pos id, hadmits => h.reads pos hadmits.head
  | .unary pos op operand, hadmits =>
      (matches_expr operand hadmits).bind fun _ => matches_operator h pos _
  | .binary pos op left right, hadmits => by
      apply (matches_expr left hadmits.left).bind
      intro l
      apply (matches_expr right hadmits.right).bind
      intro r
      exact matches_operator h pos _
  | .call pos f args, hadmits => by
      apply (matches_arguments f pos _ args hadmits.tail).bind
      intro values
      apply (h.calls values pos hadmits.head).bind
      intro result
      cases result with
      | some value => exact matches_pure value
      | none => exact matches_mismatch h _ _ _ pos

theorem matches_arguments (f : FunId) (pos : Pos) :
    forall (params : List Param) (args : List Expr), Admitted admits (Expr.listMentions args) ->
      (Walk.arguments a p f pos params args).Matches errors states loose
        (Walk.arguments b p f pos params args)
  | param :: params, arg :: args, hadmits => by
      apply (matches_expr arg hadmits.left).bind
      intro value
      apply (matches_checkArgument h f param value pos).bind
      intro _
      apply (matches_arguments f pos params args hadmits.right).bind
      intro values
      exact matches_pure _
  | [], [], _ => matches_pure []
  | [], _ :: _, _ => matches_pure []
  | _ :: _, [], _ => matches_pure []

end

theorem matches_condition (place : TypedPlace) {cond : Expr}
    (hadmits : Admitted admits cond.mentions) :
    (Walk.condition a p place cond).Matches errors states loose (Walk.condition b p place cond) := by
  apply (matches_expr h cond hadmits).bind
  intro value
  cases value with
  | bool _ => exact matches_pure _
  | int _ => exact matches_mismatch h _ _ _ _
  | float _ => exact matches_mismatch h _ _ _ _

theorem matches_loopWithin {cond : Run ε σ Bool} {cond' : Run ε' τ Bool} {body : Run ε σ Flow}
    {body' : Run ε' τ Flow} (hcond : cond.Matches errors states loose cond')
    (hbody : body.Matches errors states loose body') (limit : Nat) :
    (Walk.loopWithin a cond body limit).Matches errors states loose
      (Walk.loopWithin b cond' body' limit) := by
  induction limit with
  | zero => exact h.exhausted
  | succ limit ih =>
      apply hcond.bind
      intro holds
      cases holds with
      | false => exact matches_pure _
      | true =>
          apply hbody.bind
          intro flow
          cases flow with
          | next => exact ih
          | returned value => exact matches_pure _

theorem matches_store (pos : Pos) {m : Mention} {id : VarId} {value : Expr}
    (hadmits : Admitted admits (m :: value.mentions)) (hstored : m.stored? = some id) :
    (Walk.store a p pos id value).Matches errors states loose (Walk.store b p pos id value) := by
  apply (matches_expr h value hadmits.tail).bind
  intro v
  apply (h.writes v pos hadmits.head hstored).bind
  intro _
  exact matches_pure _

end Walks

section Statements

variable {ε ε' σ τ : Type} {p : Program} {admits : Mention -> Prop} {errors : ε -> ε' -> Prop}
  {states : σ -> τ -> Prop} {loose : Prop} {a : Actions (Run ε σ)}
  {b : Actions (Run ε' τ)}

mutual

theorem matches_stmt (h : a.Match admits errors states loose b) (fuel : Nat) : forall s : Stmt,
    Admitted admits s.mentions ->
    (Walk.stmt a p fuel s).Matches errors states loose (Walk.stmt b p fuel s)
  | .constDecl _ _, _ => matches_pure _
  | .funDecl _ _, _ => matches_pure _
  | .varDecl _ _ none, _ => matches_pure _
  | .varDecl pos _ (some _), hadmits => matches_store h pos hadmits rfl
  | .block _ body, hadmits => matches_stmts h fuel body hadmits
  | .ifThen _ cond _ body, hadmits => by
      apply (matches_condition h .ifCondition hadmits.left).bind
      intro holds
      cases holds with
      | false => exact matches_pure _
      | true => exact matches_stmts h fuel body hadmits.right
  | .whileDo _ cond _ body, hadmits =>
      matches_loopWithin h (matches_condition h .whileCondition hadmits.left)
        (matches_stmts h fuel body hadmits.right) fuel
  | .ret _ value, hadmits => (matches_expr h value hadmits).bind fun _ => matches_pure _
  | .assign pos _ _, hadmits => matches_store h pos hadmits rfl
  | .call pos f args, hadmits => by
      apply (matches_arguments h f pos _ args hadmits.tail).bind
      intro values
      apply (h.calls values pos hadmits.head).bind
      intro _
      exact matches_pure _
  | .async pos target f args, hadmits => by
      apply (matches_arguments h f pos _ args hadmits.tail).bind
      intro values
      apply (h.starts pos values hadmits.head).bind
      intro _
      exact matches_pure _
  | .await pos _, hadmits => (h.awaits pos hadmits.head).bind fun _ => matches_pure _

theorem matches_stmts (h : a.Match admits errors states loose b) (fuel : Nat) :
    forall body : List Stmt, Admitted admits (Stmt.listMentions body) ->
    (Walk.stmts a p fuel body).Matches errors states loose (Walk.stmts b p fuel body)
  | [], _ => matches_pure _
  | s :: rest, hadmits => by
      apply (matches_stmt h fuel s hadmits.left).bind
      intro flow
      cases flow with
      | next => exact matches_stmts h fuel rest hadmits.right
      | returned value => exact matches_pure _

end
end Statements

/-!
# What walks keep
-/

def Outcome.Satisfies {ε σ α : Type} (done : α -> σ -> Prop) (failed : σ -> Prop) :
    Outcome ε σ α -> Prop
  | .done a s => done a s
  | .failed _ s => failed s
  | .unfinished => True

theorem Outcome.Satisfies.mono {ε σ α : Type} {done done' : α -> σ -> Prop} {failed : σ -> Prop}
    {x : Outcome ε σ α} (h : x.Satisfies done failed)
    (himp : forall a s, done a s -> done' a s) : x.Satisfies done' failed := by
  cases x with
  | done a s => exact himp a s h
  | failed e s => exact h
  | unfinished => trivial

/-- From a state with the property the run ends well in such a state again, or it fails in a
state of another kind. -/
def Run.Leads {ε σ α : Type} (inv failed : σ -> Prop) (x : Run ε σ α) : Prop :=
  forall s, inv s -> (x s).Satisfies (fun _ s' => inv s') failed

def Run.Stays {ε σ α : Type} (inv : σ -> Prop) (x : Run ε σ α) : Prop :=
  forall s, inv s -> (x s).Satisfies (fun _ s' => inv s') inv

/-- The actions keep a property as far as they end well, wherever they are taken for
something that is admitted. -/
structure Actions.Lead {ε σ : Type} (admits : Mention -> Prop) (inv failed : σ -> Prop)
    (a : Actions (Run ε σ)) : Prop where
  raise : forall {α : Type} {good : α -> σ -> Prop} e s, inv s ->
    (a.raise e s).Satisfies good failed
  reads : forall {id} pos, admits (.read id) -> (a.readVar id pos).Leads inv failed
  writes : forall {m id} v pos, admits m -> m.stored? = some id ->
    (a.writeVar id v pos).Leads inv failed
  calls : forall {f arity} values pos, admits (.call f arity) ->
    (a.call f values pos).Leads inv failed
  starts : forall {target f arity} pos values, admits (.start target f arity) ->
    (a.startTask pos target f values).Leads inv failed
  awaits : forall {target} pos, admits (.await target) -> (a.awaitTask pos target).Leads inv failed
  exhausted : forall {α : Type} {good : α -> σ -> Prop} s, inv s ->
    (a.exhausted s).Satisfies good failed

/-- The actions keep a property wherever they are taken for something that is admitted. -/
structure Actions.Stay {ε σ : Type} (admits : Mention -> Prop) (inv : σ -> Prop)
    (a : Actions (Run ε σ)) : Prop where
  raise : forall {α : Type} {good : α -> σ -> Prop} e s, inv s -> (a.raise e s).Satisfies good inv
  reads : forall {id} pos, admits (.read id) -> (a.readVar id pos).Stays inv
  writes : forall {m id} v pos, admits m -> m.stored? = some id -> (a.writeVar id v pos).Stays inv
  calls : forall {f arity} values pos, admits (.call f arity) -> (a.call f values pos).Stays inv
  starts : forall {target f arity} pos values, admits (.start target f arity) ->
    (a.startTask pos target f values).Stays inv
  awaits : forall {target} pos, admits (.await target) -> (a.awaitTask pos target).Stays inv
  exhausted : forall {α : Type} {good : α -> σ -> Prop} s, inv s ->
    (a.exhausted s).Satisfies good inv

section Leads

variable {ε σ α β : Type} {inv failed : σ -> Prop}

theorem Run.Leads.bind {x : Run ε σ α} {f : α -> Run ε σ β} (hx : x.Leads inv failed)
    (hf : forall a, (f a).Leads inv failed) : (x >>= f).Leads inv failed := by
  intro s hs
  have hs' := hx s hs
  rw [Run.bind_apply]
  cases houtcome : x s with
  | done a s' =>
      rw [houtcome] at hs'
      exact hf a s' hs'
  | failed e s' =>
      rw [houtcome] at hs'
      exact hs'
  | unfinished => trivial

theorem Run.Stays.bind {x : Run ε σ α} {f : α -> Run ε σ β} (hx : x.Stays inv)
    (hf : forall a, (f a).Stays inv) : (x >>= f).Stays inv :=
  Run.Leads.bind hx hf

theorem Actions.Stay.lead {admits : Mention -> Prop} {a : Actions (Run ε σ)}
    (h : a.Stay admits inv) : a.Lead admits inv inv where
  raise := h.raise
  reads := h.reads
  writes := h.writes
  calls := h.calls
  starts := h.starts
  awaits := h.awaits
  exhausted := h.exhausted

def Walk.Law.keeping (ε : Type) {σ : Type} (inv failed : σ -> Prop) : Walk.Law (Run ε σ) where
  holds := fun good x =>
    forall s, inv s -> (x s).Satisfies (fun a s' => good a ∧ inv s') failed
  ret := fun ha _ hs => ⟨ha, hs⟩
  bind := by
    intro α β good next x f hx hf s hs
    have hs' := hx s hs
    rw [Run.bind_apply]
    cases houtcome : x s with
    | done a s' =>
        rw [houtcome] at hs'
        exact hf a hs'.1 s' hs'.2
    | failed e s' =>
        rw [houtcome] at hs'
        exact hs'
    | unfinished => trivial

theorem Run.leads_iff {x : Run ε σ α} :
    x.Leads inv failed <-> (Walk.Law.keeping ε inv failed).holdsAll x := by
  constructor <;> intro h s hs
  · exact (h s hs).mono fun _ _ hs' => ⟨trivial, hs'⟩
  · exact (h s hs).mono fun _ _ hs' => hs'.2

theorem Actions.Lead.obey {admits : Mention -> Prop} {a : Actions (Run ε σ)}
    (h : a.Lead admits inv failed) (p : Program) :
    a.Obey (Walk.Law.keeping ε inv failed) p admits where
  raise := h.raise
  reads := fun pos hadmits => Run.leads_iff.mp (h.reads pos hadmits)
  writes := fun v pos hadmits hstored => Run.leads_iff.mp (h.writes v pos hadmits hstored)
  calls := fun pos hadmits _ => Run.leads_iff.mp (h.calls _ pos hadmits)
  starts := fun pos hadmits _ => Run.leads_iff.mp (h.starts pos _ hadmits)
  awaits := fun pos hadmits => Run.leads_iff.mp (h.awaits pos hadmits)
  exhausted := h.exhausted

variable {p : Program} {admits : Mention -> Prop} {a : Actions (Run ε σ)}

theorem leads_stmts (h : a.Lead admits inv failed) (fuel : Nat) {body : List Stmt}
    (hadmits : Admitted admits (Stmt.listMentions body)) :
    (Walk.stmts a p fuel body).Leads inv failed :=
  Run.leads_iff.mpr ((h.obey p).stmts fuel body hadmits)

theorem stays_stmts (h : a.Stay admits inv) (fuel : Nat) {body : List Stmt}
    (hadmits : Admitted admits (Stmt.listMentions body)) :
    (Walk.stmts a p fuel body).Stays inv :=
  leads_stmts h.lead fuel hadmits

end Leads
end Scriptlet
