import Scriptlet.Folding
import Scriptlet.Proofs.Folding.OriginalBodies

/-!
# Where the pass raises its errors

An error of the pass is raised by the check of one node, at a point that the pass comes by.
At every such point the tables are those of the original program, what is known has the
types in them, and the node stands in the text of the original program.
-/

namespace Scriptlet
namespace FoldPoint

/-- The check of the node itself raises the error, behind the work on its parts. -/
inductive Raises : FoldPoint -> FoldError -> Prop where
  | unary {mode depth pos op operand s x s₁ tree s₂ k err} :
      Fold.expr mode operand s = .ok (x, s₁) -> Fold.settle x s₁ = .ok (tree, s₂) ->
      x.known = some k ->
      Fold.operator pos k.elidable (op.apply k.value) s₂ = .error err ->
      Raises ⟨mode, depth, .expr (.unary pos op operand), s⟩ err
  | binary {mode depth pos op left right s l s₁ lTree s₂ r s₃ rTree s₄ lk rk err} :
      Fold.expr mode left s = .ok (l, s₁) -> Fold.settle l s₁ = .ok (lTree, s₂) ->
      l.known = some lk ->
      Fold.expr mode right s₂ = .ok (r, s₃) -> Fold.settle r s₃ = .ok (rTree, s₄) ->
      r.known = some rk ->
      Fold.operator pos (lk.elidable && rk.elidable) (op.apply lk.value rk.value) s₄ =
        .error err ->
      Raises ⟨mode, depth, .expr (.binary pos op left right), s⟩ err
  | call {mode depth pos f args s xs s₁ err} :
      Fold.arguments mode args s = .ok (xs, s₁) -> Fold.callWith mode pos f xs s₁ = .error err ->
      Raises ⟨mode, depth, .expr (.call pos f args), s⟩ err
  | callStmt {mode depth pos f args s xs s₁ err} :
      Fold.arguments mode args s = .ok (xs, s₁) -> Fold.callWith mode pos f xs s₁ = .error err ->
      Raises ⟨mode, depth, .stmt (.call pos f args), s⟩ err
  | varDecl {mode depth pos id init s x s₁ err} :
      Fold.slot mode init s = .ok (x, s₁) -> Fold.assign id x s₁ = .error err ->
      Raises ⟨mode, depth, .stmt (.varDecl pos id (some init)), s⟩ err
  | assign {mode depth pos id value s x s₁ err} :
      Fold.slot mode value s = .ok (x, s₁) -> Fold.assign id x s₁ = .error err ->
      Raises ⟨mode, depth, .stmt (.assign pos id value), s⟩ err
  | ret {mode depth pos value s x s₁ err} :
      Fold.slot mode value s = .ok (x, s₁) -> Fold.checkReturn mode x s₁ = .error err ->
      Raises ⟨mode, depth, .stmt (.ret pos value), s⟩ err
  | ifThen {mode depth pos cond head body s c s₁ k} :
      Fold.slot mode cond s = .ok (c, s₁) -> c.known = some k -> k.value.type ≠ .bool ->
      Raises ⟨mode, depth, .stmt (.ifThen pos cond head body), s⟩
        { cause := .typeMismatch
            { place := .ifCondition, expected := .bool, found := k.value.type }
          pos := cond.pos }
  | whileDo {mode : FoldMode} {depth pos cond head body s c s₁ k} :
      Fold.slot { mode with constantOnly := true } cond s = .ok (c, s₁) -> c.known = some k ->
      k.value.type ≠ .bool ->
      Raises ⟨mode, depth, .stmt (.whileDo pos cond head body), s⟩
        { cause := .typeMismatch
            { place := .whileCondition, expected := .bool, found := k.value.type }
          pos := cond.pos }

def RaisedFrom (start : FoldPoint) (err : FoldError) : Prop :=
  exists point, start.Reaches point ∧ point.Raises err

end FoldPoint

namespace Fold

open FoldPoint

/-!
# Expressions
-/

structure ExprTyped (p : Program) (e : Expr) (s : FoldState) (x : FoldedExpr)
    (s' : FoldState) : Prop where
  program : s'.program = s.program
  state : s'.Typed p
  type : KnownType p e x.known

structure ArgsTyped (p : Program) (args : List Expr) (s : FoldState) (xs : FoldedArgs)
    (s' : FoldState) : Prop where
  program : s'.program = s.program
  state : s'.Typed p
  types : KnownTypes p args xs.values

theorem arguments_cons (mode : FoldMode) (arg : Expr) (rest : List Expr) :
    arguments mode (arg :: rest) = do
      let x ← slot mode arg
      if mode.constantOnly && x.known.isNone then
        return { trees := x.tree :: rest, values := none, elidable := true }
      else
        return FoldedArgs.cons x (← arguments mode rest) := by
  rw [arguments, slot, bind_assoc]

section Expressions

variable {p : Program} {start : FoldPoint} {mode : FoldMode} {s : FoldState}

theorem ensures_slot {fault : FoldError -> Prop} {e : Expr}
    (he : Ensures fault (expr mode e) s (ExprTyped p e s)) :
    Ensures fault (slot mode e) s (ExprTyped p e s) := by
  apply he.bind
  intro x s₁ hx
  apply (forgets_settleSlot x s₁).mono
  intro y s₂ hy
  rcases hy with ⟨hknown, hforgets⟩
  refine ⟨hforgets.program.trans hx.program, hx.state.forget hforgets, ?_⟩
  rw [hknown]
  exact hx.type

theorem ensures_operand {fault : FoldError -> Prop} {β : Type} {e : Expr}
    (he : Ensures fault (expr mode e) s (ExprTyped p e s)) {k : FoldedExpr -> Expr -> Fold β}
    {post : β -> FoldState -> Prop}
    (hk : forall x s₁ tree s₂, expr mode e s = .ok (x, s₁) -> settle x s₁ = .ok (tree, s₂) ->
      ExprTyped p e s x s₂ -> Ensures fault (k x tree) s₂ post) :
    Ensures fault (do
      let x ← expr mode e
      let tree ← settle x
      k x tree) s post := by
  apply he.remember.bind
  intro x s₁ hx
  rcases hx with ⟨hfolded, hx⟩
  apply (counted_settle x s₁).remember.bind
  intro tree s₂ hsettled
  rcases hsettled with ⟨hsettle, hcounted⟩
  exact hk x s₁ tree s₂ hfolded hsettle
    ⟨hcounted.program.trans hx.program, hx.state.forget hcounted.forgets, hx.type⟩

theorem ensures_applied {fault : FoldError -> Prop} {e tree : Expr} {s₀ : FoldState}
    (hprogram : s.program = s₀.program) (hs : s.Typed p) {pos : Pos} {elidable : Bool}
    {result : Except OpError Value} (hresult : FollowsType (e.type? p) result)
    (hraises : forall err, operator pos elidable result s = .error err -> fault err) :
    Ensures fault (do
      return { tree := tree, known := ← operator pos elidable result }) s
      (ExprTyped p e s₀) := by
  apply ((checks_operator pos elidable hresult s).blame hraises).bind
  intro known s' hop
  rcases hop with ⟨hsame, htype⟩
  cases hsame
  exact ⟨hprogram, hs, htype⟩

mutual

theorem ensures_expr (mode : FoldMode) (depth : Nat) : forall (e : Expr) {s : FoldState},
    start.Reaches ⟨mode, depth, .expr e, s⟩ -> s.Typed p ->
    Ensures start.RaisedFrom (expr mode e) s (ExprTyped p e s)
  | .literal pos value, s, _, hs => by
      refine ⟨rfl, hs, ?_⟩
      intro k hk
      cases hk
      rfl
  | .const pos id, s, _, hs => by
      refine ⟨rfl, hs, ?_⟩
      intro k hk
      cases hk
      rw [Expr.type?, hs.tables.constant]
  | .var pos id, s, _, hs => by
      refine ⟨rfl, hs, ?_⟩
      intro k hk
      rcases Option.map_eq_some_iff.mp hk with ⟨v, hv, hpair⟩
      cases hpair
      split at hv
      · cases hv
      · exact congrArg some (hs.known id v hv).symm
  | .unary pos op operand, s, hreach, hs => by
      apply ensures_operand (ensures_expr mode depth operand (hreach.tail .operand) hs)
      intro x s₁ tree s₂ hfolded hsettle hx
      cases hknown : x.known with
      | none => exact ⟨hx.program, hx.state, knownType_none p _⟩
      | some k =>
          have htype : FollowsType ((Expr.unary pos op operand).type? p) (op.apply k.value) := by
            rw [Expr.type?, hx.type k hknown]
            exact op.followsType_apply k.value
          apply ensures_applied hx.program hx.state htype
          intro err herr
          exact ⟨_, hreach, .unary hfolded hsettle hknown herr⟩
  | .binary pos op left right, s, hreach, hs => by
      apply ensures_operand (ensures_expr mode depth left (hreach.tail .left) hs)
      intro l s₁ lTree s₂ hleft hsettle hl
      cases hlk : l.known with
      | none => exact ⟨hl.program, hl.state, knownType_none p _⟩
      | some lk =>
          have hnext := hreach.tail (.right hleft hsettle)
          apply ensures_operand (ensures_expr mode depth right hnext hl.state)
          intro r s₃ rTree s₄ hright hsettle' hr
          have hprogram := hr.program.trans hl.program
          cases hrk : r.known with
          | none => exact ⟨hprogram, hr.state, knownType_none p _⟩
          | some rk =>
              have htype : FollowsType ((Expr.binary pos op left right).type? p)
                  (op.apply lk.value rk.value) := by
                rw [Expr.type?, hl.type lk hlk, hr.type rk hrk]
                exact op.followsType_apply lk.value rk.value
              apply ensures_applied hprogram hr.state htype
              intro err herr
              exact ⟨_, hreach, .binary hleft hsettle hlk hright hsettle' hrk herr⟩
  | .call pos f args, s, hreach, hs => by
      apply (ensures_arguments mode depth args (hreach.tail .nestedArguments) hs).remember.bind
      intro xs s₁ hxs
      rcases hxs with ⟨hargs, hxs⟩
      have hcheck := checks_callWith mode hxs.state pos f hxs.types
      apply (hcheck.blame fun err herr => ⟨_, hreach, .call hargs herr⟩).bind
      intro call s₂ hcall
      refine ⟨hcall.program.trans hxs.program, hcall.state, ?_⟩
      intro k hk
      rcases Option.bind_eq_some_iff.mp hk with ⟨c, hc, hvalue⟩
      rcases Option.map_eq_some_iff.mp hvalue with ⟨v, hv, hpair⟩
      cases hpair
      rcases hcall.type c v hc hv with ⟨hfit, htype⟩
      rw [Expr.type?, if_pos hfit, htype]

theorem ensures_arguments (mode : FoldMode) (depth : Nat) :
    forall (args : List Expr) {s : FoldState},
    start.Reaches ⟨mode, depth, .arguments args, s⟩ -> s.Typed p ->
    Ensures start.RaisedFrom (arguments mode args) s (ArgsTyped p args s)
  | [], s, _, hs => by
      refine ⟨rfl, hs, ?_⟩
      intro known hknown
      cases hknown
      exact .nil
  | arg :: rest, s, hreach, hs => by
      rw [arguments_cons]
      have harg := ensures_expr mode depth arg (hreach.tail .firstArgument) hs
      apply (ensures_slot harg).remember.bind
      intro x s₁ hx
      rcases hx with ⟨hslot, hx⟩
      apply Ensures.ite
      · intro _
        exact ⟨hx.program, hx.state, knownTypes_none p _⟩
      · intro _
        have hnext := hreach.tail (.nextArgument hslot)
        apply (ensures_arguments mode depth rest hnext hx.state).bind
        intro xs s₂ hxs
        exact ⟨hxs.program.trans hx.program, hxs.state, knownTypes_cons hx.type hxs.types⟩

end

theorem exprTyped_of_ok {e : Expr} {x : FoldedExpr} {s' : FoldState} (hs : s.Typed p)
    (h : expr mode e s = .ok (x, s')) : ExprTyped p e s x s' :=
  (ensures_expr mode 0 e .refl hs).of_ok h

theorem argsTyped_of_ok {args : List Expr} {xs : FoldedArgs} {s' : FoldState} (hs : s.Typed p)
    (h : arguments mode args s = .ok (xs, s')) : ArgsTyped p args s xs s' :=
  (ensures_arguments mode 0 args .refl hs).of_ok h

theorem slotTyped_of_ok {e : Expr} {x : FoldedExpr} {s' : FoldState} (hs : s.Typed p)
    (h : slot mode e s = .ok (x, s')) : ExprTyped p e s x s' :=
  (ensures_slot (ensures_expr mode 0 e .refl hs)).of_ok h

end Expressions

/-!
# Statements
-/

section Statements

variable {p : Program} {start : FoldPoint}

def EntersFaithful (p : Program) (start : FoldPoint) (quota depth : Nat)
    (folding : List FunId) : Prop :=
  forall (mode : FoldMode) (pos : Pos) (f : FunId) (s : FoldState), mode.quota = quota ->
    mode.folding = folding -> start.Reaches ⟨mode, depth, .stmt (.funDecl pos f), s⟩ ->
    Faithful p ⟨mode, depth, .stmt (.funDecl pos f), s⟩ ->
    Ensures start.RaisedFrom (functionWithin quota depth folding f) s fun _ s' =>
      ChangesBelow p [.declareFunction f] s s'

theorem ensures_asyncArguments (mode : FoldMode) (depth : Nat) (args : List Expr) {s : FoldState}
    (hreach : start.Reaches ⟨mode, depth, .arguments args, s⟩) (hs : s.Typed p) :
    Ensures start.RaisedFrom (asyncArguments mode args) s fun _ s' =>
      s'.program = s.program ∧ s'.Typed p := by
  induction args generalizing s with
  | nil => exact ⟨rfl, hs⟩
  | cons arg rest ih =>
      have harg := ensures_expr mode depth arg (hreach.tail .firstArgument) hs
      apply (ensures_slot harg).remember.bind
      intro x s₁ hx
      rcases hx with ⟨hslot, hx⟩
      apply (ih (hreach.tail (.nextArgument hslot)) hx.state).bind
      intro trees s₂ hrest
      exact ⟨hrest.1.trans hx.program, hrest.2⟩

theorem ensures_callStmt {mode : FoldMode} {depth : Nat} {pos : Pos} {f : FunId}
    {args : List Expr} {s : FoldState}
    (hreach : start.Reaches ⟨mode, depth, .stmt (.call pos f args), s⟩) (hs : s.Typed p) :
    Ensures start.RaisedFrom (callStmt mode pos f args) s fun _ s' =>
      s'.program = s.program ∧ s'.Typed p := by
  apply (ensures_arguments mode depth args (hreach.tail .callArguments) hs).remember.bind
  intro xs s₁ hxs
  rcases hxs with ⟨hargs, hxs⟩
  have hcheck := checks_callWith mode hxs.state pos f hxs.types
  apply (hcheck.blame fun err herr => ⟨_, hreach, .callStmt hargs herr⟩).bind
  intro call s₂ hcall
  have hdone := And.intro (hcall.program.trans hxs.program) hcall.state
  cases call with
  | none =>
      apply Ensures.ite
      · intro _
        exact hdone
      · intro _
        exact hdone
  | some c =>
      apply Ensures.ite
      · intro _
        exact ⟨hdone.1, hdone.2.tables, hdone.2.known⟩
      · intro _
        exact hdone

theorem ensures_asyncStmt {mode : FoldMode} {depth : Nat} {pos : Pos} {target : VarId}
    {f : FunId} {args : List Expr} {s : FoldState}
    (hreach : start.Reaches ⟨mode, depth, .stmt (.async pos target f args), s⟩)
    (hs : s.Typed p) :
    Ensures start.RaisedFrom (asyncStmt mode pos target f args) s fun _ s' =>
      s'.program = s.program ∧ s'.Typed p := by
  have hargs := ensures_asyncArguments mode depth args (hreach.tail .asyncArguments) hs
  apply forgets_asyncStmt ⟨rfl, hs⟩ _ hargs
  intro s₁ s₂ hkept hforgets
  exact ⟨hforgets.program.trans hkept.1, hkept.2.forget hforgets⟩

theorem ensures_assigned {fault : FoldError -> Prop} {mode : FoldMode} {e : Expr} {id : VarId}
    {s : FoldState} (kept : Expr -> Stmt)
    (hslot : Ensures fault (slot mode e) s (ExprTyped p e s))
    (hraises : forall x s₁ err, slot mode e s = .ok (x, s₁) -> assign id x s₁ = .error err ->
      fault err) :
    Ensures fault (do
      let x ← slot mode e
      if givesUp mode x then
        return FoldedStmt.giveUp
      else
        assign id x
        return .keep (kept x.tree)) s fun _ s' => s'.program = s.program ∧ s'.Typed p := by
  apply hslot.remember.bind
  intro x s₁ hx
  rcases hx with ⟨hfolded, hx⟩
  apply Ensures.ite
  · intro _
    exact ⟨hx.program, hx.state⟩
  · intro _
    have hcheck := checks_assign hx.state id hx.type
    apply (hcheck.blame fun err herr => hraises x s₁ err hfolded herr).bind
    intro _ s₂ hassigned
    exact ⟨hassigned.1.trans hx.program, hassigned.2⟩

section Conditions

variable {fault : FoldError -> Prop} {mode : FoldMode} {enter : FunId -> Fold Unit} {pos : Pos}
  {cond : Expr} {head : BlockHead} {body : List Stmt} {s : FoldState}

theorem ensures_ifThen (hcond : Ensures fault (slot mode cond) s (ExprTyped p cond s))
    (hbody : forall c s₁, slot mode cond s = .ok (c, s₁) -> ExprTyped p cond s c s₁ ->
      Ensures fault (stmts mode enter body) s₁ fun _ s' =>
        ChangesBelow p (Stmt.listMentions body) s₁ s')
    (hraises : forall c s₁ k, slot mode cond s = .ok (c, s₁) -> c.known = some k ->
      k.value.type ≠ .bool -> fault
        { cause := .typeMismatch
            { place := .ifCondition, expected := .bool, found := k.value.type }
          pos := cond.pos }) :
    Ensures fault (stmt mode enter (.ifThen pos cond head body)) s fun _ s' =>
      ChangesBelow p (Stmt.ifThen pos cond head body).mentions s s' := by
  apply hcond.remember.bind
  intro c s₁ hc
  rcases hc with ⟨hslot, hc⟩
  have hskipped : ChangesBelow p (Stmt.ifThen pos cond head body).mentions s s₁ :=
    .unchanged hc.state hc.program
  have hentered : Ensures fault (stmts mode enter body) s₁ fun _ s' =>
      ChangesBelow p (Stmt.ifThen pos cond head body).mentions s s' := by
    apply (hbody c s₁ hslot hc).mono
    intro _ s₂ hchanges
    exact hskipped.trans (hchanges.mono (List.subset_append_right _ _))
  cases hknown : c.known with
  | none =>
      apply Ensures.ite
      · intro _
        exact hskipped
      · intro _
        apply hentered.bind
        intro result s₂ hchanges
        cases result with
        | none => exact hchanges
        | some body' =>
            apply (forgets_forgetAssigned _ s₂).bind
            intro _ s₃ hforgets
            exact hchanges.forget hforgets
  | some k =>
      obtain ⟨value, elidable⟩ := k
      cases value with
      | int n => exact hraises c s₁ _ hslot hknown nofun
      | float x => exact hraises c s₁ _ hslot hknown nofun
      | bool b =>
          cases b with
          | false => exact hskipped
          | true =>
              apply hentered.bind
              intro result s₂ hchanges
              cases result <;> exact hchanges

theorem ensures_whileDo (hs : s.Typed p)
    (hcond : Ensures fault (slot { mode with constantOnly := true } cond) s
      (ExprTyped p cond s))
    (hbody : forall c s₁, slot { mode with constantOnly := true } cond s = .ok (c, s₁) ->
      ExprTyped p cond s c s₁ ->
      Ensures fault (stmts { mode with constantOnly := true } enter body) s₁ fun _ s' =>
        ChangesBelow p (Stmt.listMentions body) s₁ s')
    (hraises : forall c s₁ k, slot { mode with constantOnly := true } cond s = .ok (c, s₁) ->
      c.known = some k -> k.value.type ≠ .bool -> fault
        { cause := .typeMismatch
            { place := .whileCondition, expected := .bool, found := k.value.type }
          pos := cond.pos }) :
    Ensures fault (stmt mode enter (.whileDo pos cond head body)) s fun _ s' =>
      ChangesBelow p (Stmt.whileDo pos cond head body).mentions s s' := by
  have hend : forall (t : FoldState) (result : FoldedLoop),
      ChangesBelow p (Stmt.whileDo pos cond head body).mentions s t ->
      Ensures fault (endLoop mode s pos cond head body result) t fun _ s' =>
        ChangesBelow p (Stmt.whileDo pos cond head body).mentions s s' := by
    intro t result ht
    apply (forgets_endLoop s t pos cond head body result).mono
    intro _ s' hforgets
    have hrestored : ChangesBelow p (Stmt.whileDo pos cond head body).mentions s
        { t with known := s.known } :=
      ⟨⟨ht.typed.tables, hs.known⟩, ht.bodies⟩
    exact hrestored.forget hforgets
  apply Ensures.get_bind
  apply hcond.remember.bind
  intro c s₁ hc
  rcases hc with ⟨hslot, hc⟩
  have hskipped : ChangesBelow p (Stmt.whileDo pos cond head body).mentions s s₁ :=
    .unchanged hc.state hc.program
  cases hknown : c.known with
  | none => exact hend s₁ _ hskipped
  | some k =>
      obtain ⟨value, elidable⟩ := k
      cases value with
      | int n => exact hraises c s₁ _ hslot hknown nofun
      | float x => exact hraises c s₁ _ hslot hknown nofun
      | bool b =>
          cases b with
          | false => exact hend s₁ _ hskipped
          | true =>
              apply (hbody c s₁ hslot hc).bind
              intro result s₂ hchanges
              have hentered := hskipped.trans (hchanges.mono (List.subset_append_right _ _))
              cases result with
              | none => exact hend s₂ _ hentered
              | some body' => exact hend s₂ _ hentered

end Conditions

mutual

theorem ensures_stmt (hnested : p.WellNested) (mode : FoldMode) (depth : Nat)
    (henter : EntersFaithful p start mode.quota depth mode.folding) :
    forall (st : Stmt) {s : FoldState}, start.Reaches ⟨mode, depth, .stmt st, s⟩ ->
    Faithful p ⟨mode, depth, .stmt st, s⟩ ->
    Ensures start.RaisedFrom (stmt mode (functionWithin mode.quota depth mode.folding) st) s
      fun _ s' => ChangesBelow p st.mentions s s'
  | .constDecl pos id, s, _, ha => .unchanged ha.typed rfl
  | .varDecl pos id none, s, _, ha => by
      apply (forgets_forget id s).bind
      intro _ s₁ hforgets
      exact .unchanged (ha.typed.forget hforgets) hforgets.program
  | .varDecl pos id (some init), s, hreach, ha => by
      have hinit := ensures_expr mode depth init (hreach.tail .initializer) ha.typed
      have hraises : forall x s₁ err, slot mode init s = .ok (x, s₁) ->
          assign id x s₁ = .error err -> start.RaisedFrom err :=
        fun x s₁ err hslot herr => ⟨_, hreach, .varDecl hslot herr⟩
      apply (ensures_assigned (fun x => .varDecl pos id (some x)) (ensures_slot hinit) hraises).mono
      intro _ s' hdone
      exact .unchanged hdone.2 hdone.1
  | .assign pos id value, s, hreach, ha => by
      have hvalue := ensures_expr mode depth value (hreach.tail .assigned) ha.typed
      have hraises : forall x s₁ err, slot mode value s = .ok (x, s₁) ->
          assign id x s₁ = .error err -> start.RaisedFrom err :=
        fun x s₁ err hslot herr => ⟨_, hreach, .assign hslot herr⟩
      apply (ensures_assigned (.assign pos id) (ensures_slot hvalue) hraises).mono
      intro _ s' hdone
      exact .unchanged hdone.2 hdone.1
  | .funDecl pos f, s, hreach, ha => by
      apply (henter mode pos f s rfl rfl hreach ha).bind
      intro _ s₁ hentered
      apply Ensures.get_bind
      cases (s₁.program.function f).body with
      | none => exact hentered
      | some block =>
          apply Ensures.ite
          · intro _
            exact hentered.forget ⟨rfl, fun _ _ hv => hv⟩
          · intro _
            exact hentered
  | .block head body, s, hreach, ha => by
      have hbody := ensures_stmts hnested mode depth henter body (hreach.tail .block)
        (ha.inner .block rfl)
      apply hbody.bind
      intro result s₁ hchanges
      cases result with
      | none => exact hchanges
      | some body' =>
          cases body' with
          | nil => exact hchanges.forget ⟨rfl, fun _ _ hv => hv⟩
          | cons first rest => exact hchanges
  | .ifThen pos cond head body, s, hreach, ha => by
      have hcond := ensures_expr mode depth cond (hreach.tail .condition) ha.typed
      apply ensures_ifThen (ensures_slot hcond)
      · intro c s₁ hslot hc
        exact ensures_stmts hnested mode depth henter body (hreach.tail (.branch hslot))
          (ha.behind .branch rfl hc.state hc.program)
      · intro c s₁ k hslot hknown hother
        exact ⟨_, hreach, .ifThen hslot hknown hother⟩
  | .whileDo pos cond head body, s, hreach, ha => by
      have hcond := ensures_expr { mode with constantOnly := true } depth cond
        (hreach.tail .loopCondition) ha.typed
      apply ensures_whileDo ha.typed (ensures_slot hcond)
      · intro c s₁ hslot hc
        exact ensures_stmts hnested { mode with constantOnly := true } depth henter body
          (hreach.tail (.loopBody hslot)) (ha.behind .loopBody rfl hc.state hc.program)
      · intro c s₁ k hslot hknown hother
        exact ⟨_, hreach, .whileDo hslot hknown hother⟩
  | .ret pos value, s, hreach, ha => by
      have hvalue := ensures_expr mode depth value (hreach.tail .returned) ha.typed
      apply (ensures_slot hvalue).remember.bind
      intro x s₁ hx
      rcases hx with ⟨hslot, hx⟩
      apply Ensures.ite
      · intro _
        exact .unchanged hx.state hx.program
      · intro _
        have hcheck := checks_checkReturn mode hx.state hx.type
        apply (hcheck.blame fun err herr => ⟨_, hreach, .ret hslot herr⟩).bind
        intro _ s₂ hsame
        rw [hsame]
        exact .unchanged hx.state hx.program
  | .call pos f args, s, hreach, ha => by
      apply (ensures_callStmt hreach ha.typed).mono
      intro _ s' hdone
      exact .unchanged hdone.2 hdone.1
  | .async pos target f args, s, hreach, ha => by
      apply (ensures_asyncStmt hreach ha.typed).mono
      intro _ s' hdone
      exact .unchanged hdone.2 hdone.1
  | .await pos target, s, _, ha => by
      apply (forgets_awaitStmt pos target s).mono
      intro _ s' hforgets
      exact .unchanged (ha.typed.forget hforgets) hforgets.program

theorem ensures_stmts (hnested : p.WellNested) (mode : FoldMode) (depth : Nat)
    (henter : EntersFaithful p start mode.quota depth mode.folding) :
    forall (body : List Stmt) {s : FoldState}, start.Reaches ⟨mode, depth, .stmts body, s⟩ ->
    Faithful p ⟨mode, depth, .stmts body, s⟩ ->
    Ensures start.RaisedFrom (stmts mode (functionWithin mode.quota depth mode.folding) body) s
      fun _ s' => ChangesBelow p (Stmt.listMentions body) s s'
  | [], s, _, ha => .unchanged ha.typed rfl
  | st :: rest, s, hreach, ha => by
      have hst := ensures_stmt hnested mode depth henter st (hreach.tail .first) (ha.inner .first rfl)
      apply hst.remember.bind
      intro first s₁ hfirst
      rcases hfirst with ⟨hfolded, hchanges⟩
      have hdone := hchanges.mono (List.subset_append_left _ (Stmt.listMentions rest))
      -- What the first statement declares has changed, but the others do not declare it.
      have hrest := ensures_stmts hnested mode depth henter rest (hreach.tail (.next hfolded))
        (ha.next hnested hchanges)
      have hboth : Ensures start.RaisedFrom
          (stmts mode (functionWithin mode.quota depth mode.folding) rest) s₁ fun _ s' =>
          ChangesBelow p (Stmt.listMentions (st :: rest)) s s' := by
        apply hrest.mono
        intro _ s₂ hbehind
        exact hdone.trans (hbehind.mono (List.subset_append_right _ _))
      cases first with
      | giveUp => exact hdone
      | remove => exact hboth
      | keep st' =>
          apply hboth.bind
          intro result s₂ hall
          cases result <;> exact hall

end

end Statements

/-!
# Functions
-/

section Functions

variable {p : Program} (hnested : p.WellNested) {start : FoldPoint}

include hnested

theorem entersFaithful_functionWithin (quota depth : Nat) : forall folding : List FunId,
    EntersFaithful p start quota depth folding := by
  -- By induction on the number of bodies that may still be opened.
  induction depth with
  | zero =>
      intro folding mode pos f s _ _ _ ha
      exact .unchanged ha.typed rfl
  | succ depth ih =>
      intro folding mode pos f s hquota hfolding hreach ha
      subst hquota hfolding
      have hbody : s.program.bodyOf f = p.bodyOf f :=
        ha.intact f (Program.covers_singleton.mpr .refl)
      -- The body is out of the table while it is worked on, and nothing below it is yet.
      have hstmts := ensures_stmts hnested (bodyMode mode.quota mode.folding f) depth
        (ih (f :: mode.folding)) (s.program.bodyOf f) (hreach.tail .body) (ha.body hnested)
      apply Ensures.get_bind
      apply Ensures.set_bind
      apply hstmts.bind
      intro result s₁ hchanges
      refine ⟨⟨hchanges.typed.tables.withBody f _, ha.typed.known⟩, ?_⟩
      intro g hg
      have hoff : ¬p.Surrounds f g := fun hsurrounds =>
        hg (Program.covers_singleton.mpr hsurrounds)
      have hne : g ≠ f := by
        intro heq
        rw [heq] at hoff
        exact hoff .refl
      have hsame := hchanges.bodies g fun hcovers => by
        rw [hbody] at hcovers
        exact hoff hcovers.encloses.to_reflTransGen
      rw [bodyOf_withBody_ne _ hne, hsame]
      exact bodyOf_withBody_ne _ hne []

/-- An error of the pass is raised at a point that it comes by. -/
theorem exists_raises_of_optimize {quota : Nat} {err : FoldError}
    (h : p.optimize quota = .error err) : (FoldPoint.start quota p).RaisedFrom err := by
  have hstart : Faithful p (FoldPoint.start quota p) :=
    ⟨⟨.refl p, fun _ _ hv => nomatch hv⟩, .refl, fun _ _ => rfl⟩
  have hroot := ensures_stmts hnested (FoldPoint.start quota p).mode p.functions.length
    (entersFaithful_functionWithin hnested quota _ []) p.root .refl hstart
  have hpass : Ensures (FoldPoint.start quota p).RaisedFrom (root quota p)
      (FoldPoint.start quota p).state fun _ _ => True := by
    apply hroot.bind
    intro _ _ _
    trivial
  apply hpass.of_error
  simp only [Program.optimize] at h
  split at h
  · cases h
  · rename_i e herror
    cases h
    exact herror

end Functions
end Fold

/-!
# Every point
-/

namespace FoldPoint

variable {p : Program} (hnested : p.WellNested)

include hnested

theorem Step.faithful {a b : FoldPoint} (hstep : a.Step b) (ha : a.Faithful p) :
    b.Faithful p := by
  cases hstep with
  | first => exact ha.inner .first rfl
  | @next mode depth st rest s r s' hst =>
      have hchanges := Fold.ensures_stmt hnested mode depth
        (Fold.entersFaithful_functionWithin hnested mode.quota depth mode.folding) st .refl
        (ha.inner .first rfl)
      exact ha.next hnested (hchanges.of_ok hst)
  | initializer => exact ha.inner .initializer rfl
  | assigned => exact ha.inner .assigned rfl
  | returned => exact ha.inner .returned rfl
  | body => exact ha.body hnested
  | block => exact ha.inner .block rfl
  | condition => exact ha.inner .condition rfl
  | branch hcond =>
      have hc := Fold.slotTyped_of_ok ha.typed hcond
      exact ha.behind .branch rfl hc.state hc.program
  | loopCondition => exact ha.inner .loopCondition rfl
  | loopBody hcond =>
      have hc := Fold.slotTyped_of_ok ha.typed hcond
      exact ha.behind .loopBody rfl hc.state hc.program
  | callArguments => exact ha.inner .callArguments rfl
  | asyncArguments => exact ha.inner .asyncArguments rfl
  | firstArgument => exact ha.inner .firstArgument rfl
  | nextArgument harg =>
      have hx := Fold.slotTyped_of_ok ha.typed harg
      exact ha.behind .restArguments rfl hx.state hx.program
  | operand => exact ha.inner .operand rfl
  | left => exact ha.inner .left rfl
  | @right mode depth pos op left right s x s₁ tree s₂ hleft hsettle =>
      have hx := Fold.exprTyped_of_ok ha.typed hleft
      have hcounted := counted_of_settle hsettle
      exact ha.behind .right rfl (hx.state.forget hcounted.forgets)
        (hcounted.program.trans hx.program)
  | nestedArguments => exact ha.inner .nestedArguments rfl

theorem Reaches.faithful {quota : Nat} {point : FoldPoint}
    (h : (FoldPoint.start quota p).Reaches point) : point.Faithful p := by
  induction h with
  | refl => exact ⟨⟨.refl p, fun _ _ hv => nomatch hv⟩, .refl, fun _ _ => rfl⟩
  | tail _ hstep ih => exact hstep.faithful hnested ih

end FoldPoint
end Scriptlet
