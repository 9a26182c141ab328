import Mathlib.Data.List.Forall2
import Scriptlet.Proofs.Evaluation.Preservation
import Scriptlet.Proofs.Folding.PureCalls

/-!
# Calls with effects at compile time

A call that was run at compile time yields what the call of the run yields, and the
globals known behind it have their values behind that call, if no statement that is
skipped would have called a function of the program: what a native function does to the
host is left to the run, but its arguments are skipped along with it.
-/

namespace Scriptlet

/-!
# What is skipped
-/

def Mention.CallsNative (p : Program) : Mention -> Prop
  | .const _ => True
  | .read _ => True
  | .call f _ => (p.function f).isNative = true
  | _ => False

mutual

def Stmt.SkipsNative (p : Program) : Stmt -> Prop
  | .block _ body => Stmt.ListSkipsNative p body
  | .ifThen _ _ _ body => Stmt.ListSkipsNative p body
  | .whileDo _ _ _ body => Stmt.ListSkipsNative p body
  | .call _ f args =>
      (p.function f).isNative = true -> Admitted (Mention.CallsNative p) (Expr.listMentions args)
  | _ => True

def Stmt.ListSkipsNative (p : Program) : List Stmt -> Prop
  | [] => True
  | s :: rest => s.SkipsNative p ∧ Stmt.ListSkipsNative p rest

end

def Program.SkipsNative (p : Program) : Prop :=
  forall f, Stmt.ListSkipsNative p (p.bodyOf f)

/-!
# Native calls
-/

theorem Run.bind_eq_done {ε σ α β : Type} {x : Run ε σ α} {f : α -> Run ε σ β} {s s' : σ} {b : β} :
    (x >>= f) s = .done b s' <-> exists a t, x s = .done a t ∧ f a t = .done b s' := by
  rw [Run.bind_apply]
  cases x s with
  | done a t =>
      constructor
      · intro h
        exact ⟨a, t, rfl, h⟩
      · intro h
        rcases h with ⟨_, _, hx, h⟩
        cases hx
        exact h
  | failed e t => simp
  | unfinished => simp

section Native

variable {σ : Type}

def SameButHost (m m' : Machine σ) : Prop :=
  exists host, m' = { m with host := host }

theorem SameButHost.refl (m : Machine σ) : SameButHost m m :=
  ⟨m.host, rfl⟩

theorem SameButHost.host {m m' : Machine σ} (h : SameButHost m m') (host : σ) :
    SameButHost m { m' with host := host } := by
  rcases h with ⟨host', hm'⟩
  exact ⟨host, by rw [hm']⟩

variable {l : Loaded σ}

theorem keepsHost_invoke (start : Machine σ) (fuel : Nat) {f : FunId}
    (hnative : (l.program.function f).isNative = true) (values : List Value) (pos : Pos) :
    KeepsAll (SameButHost start) (l.invoke fuel f values pos) := by
  cases fuel with
  | zero => exact fun _ _ => trivial
  | succ fuel =>
      apply keeps_invoke
      · intro m host hm
        exact hm.host host
      · intro block hblock
        simp [Function.isNative, hblock] at hnative

theorem host_invariant (start : Machine σ) (fuel : Nat) :
    Invariant l.program (l.invoke fuel) (Mention.CallsNative l.program) (SameButHost start) where
  stores := by
    intro mention id v m m' hnative hstored
    cases mention with
    | declareVar _ | assign _ | await _ => cases hnative
    | _ => cases hstored
  starts := fun hnative => nomatch hnative
  awaits := fun hnative => nomatch hnative
  calls := fun hnative _ => keepsHost_invoke start fuel hnative _ _
  tasks := fun hnative => nomatch hnative

end Native

/-!
# What is known during a call
-/

def ConstFrame.Matches (p : Program) (known : ConstFrame) (frame : Frame) : Prop :=
  frame.IsOf p known.owner ∧ frame.Holds p known.owner known.values

section Tracks

variable {σ : Type} {p : Program} {rest : List Frame}

def KnownGlobals (p : Program) (known : Valuation) (m : Machine σ) : Prop :=
  forall id v, (p.variableAt id).owner = none -> known.get? id = some v ->
    id < p.vars.length ∧ m.global (p.variableAt id).slot = some v

/-- The machine has the known values: in the globals, and in the frames of the calls that
are open at compile time, which lie above the given ones. -/
structure Tracks (p : Program) (rest : List Frame) (c : ConstState) (m : Machine σ) : Prop where
  frames : exists fs, m.frames = fs ++ rest ∧ List.Forall₂ (ConstFrame.Matches p) c.frames fs
  globals : KnownGlobals p c.globals m
  length : m.globals.length = p.globalCount

variable {c c' : ConstState} {m m' : Machine σ}

theorem Tracks.host (h : Tracks p rest c m) (hhost : SameButHost m m') : Tracks p rest c m' := by
  rcases hhost with ⟨host, hm'⟩
  rw [hm']
  exact ⟨h.frames, h.globals, h.length⟩

theorem matches_find (rest : List Frame) {cs : List ConstFrame} {fs : List Frame}
    (h : List.Forall₂ (ConstFrame.Matches p) cs fs) {f : FunId} {known : ConstFrame}
    (hfind : cs.find? (·.owner == f) = some known) :
    exists frame, (fs ++ rest).find? (·.owner == f) = some frame ∧ known.Matches p frame := by
  induction h with
  | nil => cases hfind
  | @cons first frame cs fs hfirst _ ih =>
      rw [List.find?_cons] at hfind
      rw [List.cons_append, List.find?_cons, hfirst.1.owner]
      split at hfind
      · cases hfind
        exact ⟨frame, rfl, hfirst⟩
      · exact ih hfind

theorem Tracks.read (h : Tracks p rest c m) {id : VarId} {v : Value}
    (hread : ConstEval.readVar p id c = some (v, c')) : c' = c ∧ m.read p id = some v := by
  rcases Option.map_eq_some_iff.mp hread with ⟨w, hw, hpair⟩
  cases hpair
  refine ⟨rfl, ?_⟩
  cases howner : (p.variableAt id).owner with
  | none =>
      rw [howner] at hw
      simp only [Machine.read, howner]
      exact (h.globals id _ howner hw).2
  | some f =>
      rw [howner] at hw
      rcases Option.bind_eq_some_iff.mp hw with ⟨known, hfind, hvalue⟩
      rcases h.frames with ⟨fs, hfs, hmatches⟩
      rcases matches_find rest hmatches hfind with ⟨frame, hframe, hknown⟩
      have hof : known.owner = f := by simpa using List.find?_some hfind
      simp only [Machine.read, howner, Machine.frameOf, hfs, hframe, Option.bind_some]
      exact hknown.2 id _ (hof ▸ howner) hvalue

theorem matches_update (rest : List Frame) (htables : p.Tables) {f : FunId} {id : VarId}
    (hid : (p.variableAt id).owner = some f) (v : Value) {cs cs' : List ConstFrame}
    {fs : List Frame} (h : List.Forall₂ (ConstFrame.Matches p) cs fs)
    (hupdate : ConstEval.updateFrame f (·.set id v) cs = some cs') :
    cs'.length = cs.length ∧ exists fs',
      Machine.updateFrame f (·.setSlot (p.variableAt id).slot v) (fs ++ rest) =
        some (fs' ++ rest) ∧ List.Forall₂ (ConstFrame.Matches p) cs' fs' := by
  induction h generalizing cs' with
  | nil => cases hupdate
  | @cons first frame cs fs hfirst hrest ih =>
      rw [ConstEval.updateFrame] at hupdate
      rw [List.cons_append, Machine.updateFrame, hfirst.1.owner]
      by_cases hf : first.owner = f
      · rw [if_pos hf] at hupdate ⊢
        cases hupdate
        subst hf
        refine ⟨rfl, frame.setSlot (p.variableAt id).slot v :: fs, rfl, .cons ⟨?_, ?_⟩ hrest⟩
        · exact hfirst.1.setSlot _ v
        · exact hfirst.2.setSlot hfirst.1 htables hid v
      · rw [if_neg hf] at hupdate ⊢
        rcases Option.map_eq_some_iff.mp hupdate with ⟨cs₁, hcs₁, hcons⟩
        cases hcons
        rcases ih hcs₁ with ⟨hlength, fs₁, hfs₁, hmatches⟩
        refine ⟨congrArg Nat.succ hlength, frame :: fs₁, ?_, .cons hfirst hmatches⟩
        rw [hfs₁]
        rfl

theorem Tracks.write (h : Tracks p rest c m) (htables : p.Tables) {id : VarId}
    (hid : id < p.vars.length) {v : Value}
    (hwrite : ConstEval.writeVar p id v c = some ((), c')) :
    (p.variableAt id).type = v.type ∧ c'.frames.length = c.frames.length ∧
      exists m', m.store? p id v = some m' ∧ Tracks p rest c' m' := by
  have htype : (p.variableAt id).type = v.type := by
    by_cases htype : (p.variableAt id).type = v.type
    · exact htype
    · simp [ConstEval.writeVar, htype] at hwrite
  refine ⟨htype, ?_⟩
  cases howner : (p.variableAt id).owner with
  | none =>
      simp only [ConstEval.writeVar, htype, howner, if_true, Option.some.injEq, Prod.mk.injEq,
        true_and] at hwrite
      subst hwrite
      have hslot : (p.variableAt id).slot < m.globals.length := by
        have hlt := htables.slot_lt hid
        rw [howner] at hlt
        rw [h.length]
        exact hlt
      refine ⟨rfl, { m with globals := m.globals.set (p.variableAt id).slot (some v) }, ?_, ?_⟩
      · simp only [Machine.store?, howner]
      · refine ⟨h.frames, ?_, List.length_set.trans h.length⟩
        intro other w hother hw
        rw [Valuation.get?_set] at hw
        simp only [Machine.global, List.getD_eq_getElem?_getD, List.getElem?_set]
        by_cases heq : other = id
        · rw [if_pos heq] at hw
          cases hw
          rw [heq]
          exact ⟨hid, by simp [hslot]⟩
        · rw [if_neg heq] at hw
          rcases h.globals other w hother hw with ⟨hlt, hvalue⟩
          have hne : (p.variableAt id).slot ≠ (p.variableAt other).slot := fun hsame =>
            heq (htables.slot_unique hlt hid (hother.trans howner.symm) hsame.symm)
          rw [if_neg hne, ← List.getD_eq_getElem?_getD]
          exact ⟨hlt, hvalue⟩
  | some f =>
      simp only [ConstEval.writeVar, htype, howner, if_true] at hwrite
      rcases Option.map_eq_some_iff.mp hwrite with ⟨cs, hcs, hpair⟩
      cases hpair
      rcases h.frames with ⟨fs, hfs, hmatches⟩
      rcases matches_update rest htables howner v hmatches hcs with
        ⟨hlength, fs', hfs', hmatches'⟩
      refine ⟨hlength, { m with frames := fs' ++ rest }, ?_, ⟨fs', rfl, hmatches'⟩, h.globals,
        h.length⟩
      simp only [Machine.store?, howner, hfs, hfs', Option.map_some]

theorem Tracks.push (h : Tracks p rest c m) {known : ConstFrame} {frame : Frame}
    (hframe : known.Matches p frame) :
    Tracks p rest { c with frames := known :: c.frames } (m.push frame) := by
  rcases h.frames with ⟨fs, hfs, hmatches⟩
  exact ⟨⟨frame :: fs, congrArg (frame :: ·) hfs, .cons hframe hmatches⟩, h.globals, h.length⟩

theorem Tracks.pop (h : Tracks p rest c m) {n : Nat} (hopen : c.frames.length = n + 1)
    (name : VarId -> String) :
    Tracks p rest { c with frames := c.frames.tail } (m.pop name) := by
  rcases h.frames with ⟨fs, hfs, hmatches⟩
  cases hknown : c.frames with
  | nil =>
      rw [hknown] at hopen
      cases hopen
  | cons known others =>
      rw [hknown] at hmatches
      cases hmatches with
      | @cons _ frame _ below _ hbelow =>
          rw [Machine.pop, hfs]
          exact ⟨⟨below, rfl, hbelow⟩, h.globals, h.length⟩

end Tracks

/-!
# Agreement
-/

section Agreement

variable {σ α β γ δ : Type} {p : Program}

/-- Where both end, the run and the compile time give related answers, and the machine has
the values that are known.  No call that was open is closed, and none is left open. -/
def Agrees (p : Program) (x : ConstEval α) (y : Eval σ β) (related : α -> β -> Prop) : Prop :=
  forall rest c c' m m' a b, Tracks p rest c m -> x c = some (a, c') -> y m = .done b m' ->
    related a b ∧ c'.frames.length = c.frames.length ∧ Tracks p rest c' m'

abbrev AgreesExactly (p : Program) (x : ConstEval α) (y : Eval σ α) : Prop :=
  Agrees p x y fun a b => b = a

variable {x : ConstEval α} {y : Eval σ β} {related : α -> β -> Prop}

theorem agrees_pure {a : α} {b : β} (h : related a b) :
    Agrees p (pure a) (pure b : Eval σ β) related := by
  intro rest c c' m m' _ _ htracks heval hrun
  cases heval
  cases hrun
  exact ⟨h, rfl, htracks⟩

theorem agrees_giveUp : Agrees p ConstEval.giveUp y related := by
  intro _ _ _ _ _ _ _ _ heval
  cases heval

theorem agrees_failAt (cause : RuntimeCause) (pos : Pos) :
    Agrees p x (Eval.failAt cause pos : Eval σ β) related := by
  intro _ _ _ _ _ _ _ _ _ hrun
  cases hrun

theorem Agrees.bind {f : α -> ConstEval γ} {g : β -> Eval σ δ} {next : γ -> δ -> Prop}
    (hx : Agrees p x y related) (hf : forall a b, related a b -> Agrees p (f a) (g b) next) :
    Agrees p (x >>= f) (y >>= g) next := by
  intro rest c c' m m' _ _ htracks heval hrun
  rcases ConstEval.bind_eq_some.mp heval with ⟨a, c₁, hfirst, heval⟩
  rcases Run.bind_eq_done.mp hrun with ⟨b, m₁, hfirst', hrun⟩
  rcases hx rest c c₁ m m₁ a b htracks hfirst hfirst' with ⟨hrelated, hlength, htracks₁⟩
  rcases hf a b hrelated rest c₁ c' m₁ m' _ _ htracks₁ heval hrun with ⟨hnext, hlength', htracks'⟩
  exact ⟨hnext, hlength'.trans hlength, htracks'⟩

theorem Agrees.skip {good : β -> Prop} {g : β -> Eval σ δ} {next : α -> δ -> Prop}
    (hy : forall start : Machine σ, Keeps (SameButHost start) y good)
    (hg : forall b, Agrees p x (g b) next) : Agrees p x (y >>= g) next := by
  intro rest c c' m m' _ _ htracks heval hrun
  rcases Run.bind_eq_done.mp hrun with ⟨b, m₁, hfirst, hrun⟩
  have hhost := ((hy m).of_done (.refl m) hfirst).2
  exact hg b rest c c' m₁ m' _ _ (htracks.host hhost) heval hrun

theorem Agrees.spend {f : Unit -> ConstEval α} (hf : Agrees p (f ()) y related) :
    Agrees p (ConstEval.spend >>= f) y related := by
  intro rest c c' m m' _ _ htracks heval hrun
  rcases ConstEval.bind_eq_some.mp heval with ⟨⟨⟩, c₁, hspend, heval⟩
  have hkept : c₁.frames = c.frames ∧ c₁.globals = c.globals := by
    unfold ConstEval.spend at hspend
    split at hspend
    · cases hspend
    · cases hspend
      exact ⟨rfl, rfl⟩
  have htracks₁ : Tracks p rest c₁ m :=
    ⟨hkept.1 ▸ htracks.frames, hkept.2 ▸ htracks.globals, htracks.length⟩
  rcases hf rest c₁ c' m m' _ _ htracks₁ heval hrun with ⟨hrelated, hlength, htracks'⟩
  exact ⟨hrelated, hlength.trans (congrArg List.length hkept.1), htracks'⟩

theorem agrees_operator (pos : Pos) (result : Except OpError Value) :
    AgreesExactly p (ConstEval.ofOperator result) (Eval.operator pos result : Eval σ Value) := by
  cases result with
  | ok v => exact agrees_pure rfl
  | error e => exact agrees_failAt _ pos

theorem agrees_readVar (id : VarId) (pos : Pos) :
    AgreesExactly p (ConstEval.readVar p id) (Eval.readVar p id pos : Eval σ Value) := by
  intro rest c c' m m' v w htracks heval hrun
  rcases htracks.read heval with ⟨hsame, hread⟩
  simp only [Eval.readVar, hread] at hrun
  cases hrun
  cases hsame
  exact ⟨rfl, rfl, htracks⟩

theorem agrees_writeVar (htables : p.Tables) {id : VarId} (hid : id < p.vars.length) (v : Value)
    (pos : Pos) :
    AgreesExactly p (ConstEval.writeVar p id v) (Eval.writeVar p id v pos : Eval σ Unit) := by
  intro rest c c' m m' _ _ htracks heval hrun
  rcases htracks.write htables hid heval with ⟨htype, hlength, m₁, hstore, htracks₁⟩
  simp only [Eval.writeVar, htype, if_true, hstore] at hrun
  cases hrun
  exact ⟨rfl, hlength, htracks₁⟩

/-!
# Expressions
-/

def CallsAgree (p : Program) (invoke : ConstEval.Invoke) (invoke' : Invoke σ) : Prop :=
  forall f values pos, AgreesExactly p (invoke f values) (invoke' f values pos)

variable {invoke : ConstEval.Invoke} {invoke' : Invoke σ}

mutual

theorem agrees_expr (hinvoke : CallsAgree p invoke invoke') : forall e : Expr,
    AgreesExactly p (ConstEval.expr p invoke e) (Eval.expr p invoke' e)
  | .literal _ _ => agrees_pure rfl
  | .const _ _ => agrees_pure rfl
  | .var pos id => agrees_readVar id pos
  | .unary pos op operand => by
      apply (agrees_expr hinvoke operand).bind
      intro v _ hv
      rw [hv]
      exact agrees_operator pos _
  | .binary pos op left right => by
      apply (agrees_expr hinvoke left).bind
      intro v _ hv
      apply (agrees_expr hinvoke right).bind
      intro w _ hw
      rw [hv, hw]
      exact agrees_operator pos _
  | .call pos f args => by
      rw [ConstEval.expr]
      split
      · exact agrees_giveUp
      · apply (agrees_arguments hinvoke f pos (p.function f).params args).bind
        intro values _ hvalues
        rw [hvalues]
        apply (hinvoke f values pos).bind
        intro result _ hresult
        rw [hresult]
        cases result with
        | some value => exact agrees_pure rfl
        | none => exact agrees_giveUp

theorem agrees_arguments (hinvoke : CallsAgree p invoke invoke') (f : FunId) (pos : Pos) :
    forall (params : List Param) (args : List Expr),
      AgreesExactly p (ConstEval.arguments p invoke params args)
        (Eval.arguments p invoke' f pos params args)
  | param :: params, arg :: args => by
      apply (agrees_expr hinvoke arg).bind
      intro v _ hv
      rw [hv]
      apply Agrees.skip fun _ => keeps_checkArgument f param v pos
      intro _
      split
      · apply (agrees_arguments hinvoke f pos params args).bind
        intro values _ hvalues
        rw [hvalues]
        exact agrees_pure rfl
      · exact agrees_giveUp
  | [], [] => agrees_pure rfl
  | [], _ :: _ => agrees_pure rfl
  | _ :: _, [] => agrees_pure rfl

end

theorem agrees_condition (hinvoke : CallsAgree p invoke invoke') (place : TypedPlace)
    (cond : Expr) :
    AgreesExactly p (ConstEval.condition p invoke cond) (Eval.condition p invoke' place cond) := by
  apply (agrees_expr hinvoke cond).bind
  intro v _ hv
  rw [hv]
  cases v with
  | bool b => exact agrees_pure rfl
  | int n => exact agrees_giveUp
  | float x => exact agrees_giveUp

/-!
# Statements
-/

abbrev FlowsAgree (p : Program) (x : ConstEval ConstFlow) (y : Eval σ Flow) : Prop :=
  Agrees p x y fun a b => b = a.flow

theorem agrees_loopWithin {cond : ConstEval Bool} {cond' : Eval σ Bool}
    {body : ConstEval ConstFlow} {body' : Eval σ Flow} (hcond : AgreesExactly p cond cond')
    (hbody : FlowsAgree p body body') (limit : Nat) : forall fuel,
    FlowsAgree p (ConstEval.loopWithin cond body limit) (Eval.loopWithin cond' body' fuel) := by
  -- By induction on the rounds that are left at compile time: the run has its own bound, and where
  -- that is met first it does not end.
  induction limit with
  | zero =>
      intro fuel
      cases fuel with
      | zero =>
          intro _ _ _ _ _ _ _ _ _ hrun
          cases hrun
      | succ fuel =>
          apply hcond.bind
          intro b _ hb
          rw [hb]
          cases b with
          | true => exact agrees_giveUp
          | false => exact agrees_pure rfl
  | succ limit ih =>
      intro fuel
      cases fuel with
      | zero =>
          intro _ _ _ _ _ _ _ _ _ hrun
          cases hrun
      | succ fuel =>
          apply hcond.bind
          intro b _ hb
          rw [hb]
          cases b with
          | true =>
              apply Agrees.spend
              apply hbody.bind
              intro flow _ hflow
              rw [hflow]
              cases flow with
              | next => exact ih fuel
              | returned value => exact agrees_pure rfl
          | false => exact agrees_pure rfl

theorem agrees_store (hinvoke : CallsAgree p invoke invoke') (htables : p.Tables) {id : VarId}
    (hid : id < p.vars.length) (value : Expr) (pos : Pos) :
    FlowsAgree p
      (do
        let v ← ConstEval.expr p invoke value
        ConstEval.writeVar p id v
        return .next)
      (do
        let v ← Eval.expr p invoke' value
        Eval.writeVar p id v pos
        return .next) := by
  apply (agrees_expr hinvoke value).bind
  intro v _ hv
  rw [hv]
  apply (agrees_writeVar htables hid v pos).bind
  intro _ _ _
  exact agrees_pure rfl

end Agreement

section Programs

variable {σ : Type} {l : Loaded σ} {fuel : Nat} {invoke : ConstEval.Invoke}

theorem agrees_callStmt (hinvoke : CallsAgree l.program invoke (l.invoke fuel)) (pos : Pos)
    (f : FunId) (args : List Expr) (hskips : (Stmt.call pos f args).SkipsNative l.program) :
    FlowsAgree l.program (ConstEval.callStmt l.program invoke f args)
      (Eval.stmt l.program fuel (l.invoke fuel) (.call pos f args)) := by
  rw [ConstEval.callStmt, Eval.stmt]
  by_cases hnative : (l.program.function f).isNative = true
  · simp only [hnative, if_true]
    by_cases hresult : (l.program.function f).result = .none
    · rw [if_pos hresult]
      apply Agrees.skip
        fun start => keeps_arguments (host_invariant start fuel) f pos _ args (hskips hnative)
      intro values
      apply Agrees.skip fun start => keepsHost_invoke start fuel hnative values pos
      intro _
      exact agrees_pure rfl
    · rw [if_neg hresult]
      exact agrees_giveUp
  · rw [if_neg hnative]
    apply (agrees_arguments hinvoke f pos (l.program.function f).params args).bind
    intro values _ hvalues
    rw [hvalues]
    apply (hinvoke f values pos).bind
    intro _ _ _
    exact agrees_pure rfl

mutual

theorem agrees_stmt (htables : l.program.Tables)
    (hinvoke : CallsAgree l.program invoke (l.invoke fuel)) (limit : Nat) : forall s : Stmt,
    s.SkipsNative l.program -> l.program.Fit s.mentions ->
    FlowsAgree l.program (ConstEval.stmt l.program limit invoke s)
      (Eval.stmt l.program fuel (l.invoke fuel) s)
  | .constDecl _ _, _, _ => agrees_pure rfl
  | .funDecl _ _, _, _ => agrees_pure rfl
  | .varDecl _ _ none, _, _ => agrees_pure rfl
  | .varDecl pos _ (some init), _, hfit => agrees_store hinvoke htables (hfit.stored rfl) init pos
  | .block _ body, hskips, hfit => agrees_stmts htables hinvoke limit body hskips hfit
  | .ifThen _ cond _ body, hskips, hfit => by
      apply (agrees_condition hinvoke .ifCondition cond).bind
      intro b _ hb
      rw [hb]
      cases b with
      | true => exact agrees_stmts htables hinvoke limit body hskips hfit.right
      | false => exact agrees_pure rfl
  | .whileDo _ cond _ body, hskips, hfit =>
      agrees_loopWithin (agrees_condition hinvoke .whileCondition cond)
        (agrees_stmts htables hinvoke limit body hskips hfit.right) limit fuel
  | .ret _ value, _, _ => by
      apply (agrees_expr hinvoke value).bind
      intro v _ hv
      rw [hv]
      exact agrees_pure rfl
  | .assign pos _ value, _, hfit => agrees_store hinvoke htables (hfit.stored rfl) value pos
  | .call pos f args, hskips, _ => agrees_callStmt hinvoke pos f args hskips
  | .async _ _ _ _, _, _ => agrees_giveUp
  | .await _ _, _, _ => agrees_giveUp

theorem agrees_stmts (htables : l.program.Tables)
    (hinvoke : CallsAgree l.program invoke (l.invoke fuel)) (limit : Nat) : forall body : List Stmt,
    Stmt.ListSkipsNative l.program body -> l.program.Fit (Stmt.listMentions body) ->
    FlowsAgree l.program (ConstEval.stmts l.program limit invoke body)
      (Eval.stmts l.program fuel (l.invoke fuel) body)
  | [], _, _ => agrees_pure rfl
  | s :: rest, hskips, hfit => by
      apply (agrees_stmt htables hinvoke limit s hskips.1 hfit.left).bind
      intro flow _ hflow
      rw [hflow]
      cases flow with
      | next => exact agrees_stmts htables hinvoke limit rest hskips.2 hfit.right
      | returned value => exact agrees_pure rfl

end

/-!
# Calls
-/

theorem agrees_inFrame {α β : Type} {p : Program} (htables : p.Tables) (f : FunId)
    (args : List Value) {x : ConstEval α} {y : Eval σ β} {related : α -> β -> Prop}
    (h : Agrees p x y related) :
    Agrees p (ConstEval.inFrame (.ofCall p f args) x)
      (Eval.inFrame p (Eval.callFrame p f args) y) related := by
  intro rest c c' m m' a b htracks heval hrun
  rcases ConstEval.bind_eq_some.mp heval with ⟨⟨⟩, c₁, hpush, heval⟩
  rcases ConstEval.bind_eq_some.mp heval with ⟨_, c₂, hbody, hpop⟩
  cases hpop
  rw [Eval.inFrame] at hrun
  cases hinside : y (m.push (Eval.callFrame p f args)) with
  | failed e t =>
      rw [hinside] at hrun
      cases hrun
  | unfinished =>
      rw [hinside] at hrun
      cases hrun
  | done answer t =>
      rw [hinside] at hrun
      cases hrun
      have hstart : Tracks p rest c₁ (m.push (Eval.callFrame p f args)) := by
        cases hpush
        exact htracks.push (holds_callFrame htables args)
      rcases h rest c₁ c₂ _ t a b hstart hbody hinside with ⟨hrelated, hlength, hend⟩
      have hopen : c₂.frames.length = c.frames.length + 1 := by
        cases hpush
        exact hlength
      refine ⟨hrelated, ?_, hend.pop hopen _⟩
      rw [List.length_tail, hopen, Nat.add_sub_cancel]

theorem callsAgree_invoke (htables : l.program.Tables)
    (hfit : forall f, l.program.Fit (l.program.mentionsOf f)) (hskips : l.program.SkipsNative)
    (depth : Nat) : forall fuel,
    CallsAgree l.program (ConstEval.invokeWithin l.program depth) (l.invoke fuel) := by
  -- By induction on the calls that may still be nested at compile time.
  induction depth with
  | zero => exact fun _ _ _ _ => agrees_giveUp
  | succ depth ih =>
      intro fuel f values pos
      cases fuel with
      | zero =>
          intro _ _ _ _ _ _ _ _ _ hrun
          cases hrun
      | succ fuel =>
          rw [ConstEval.invokeWithin, Loaded.invoke]
          apply Agrees.spend
          cases hblock : (l.program.function f).body with
          | none =>
              simp only [hblock]
              exact agrees_giveUp
          | some block =>
              simp only [hblock]
              have hbody : l.program.bodyOf f = block.body := by
                rw [Program.bodyOf, hblock]
              have hstmts := agrees_stmts htables (ih fuel) depth block.body (hbody ▸ hskips f)
                (Program.mentionsOf_of_body hblock ▸ hfit f)
              apply (agrees_inFrame htables f values hstmts).bind
              intro flow _ hflow
              rw [hflow]
              cases hyielded : ConstEval.yielded? (l.program.function f).result flow with
              | none => exact agrees_giveUp
              | some value =>
                  rw [checkResult_of_yielded hyielded]
                  exact agrees_pure rfl

/-- What a call at compile time yields is what the call of a run yields, if that ends
without an error, and the globals have their known values behind it. -/
theorem known_of_evalCall (htables : l.program.Tables)
    (hfit : forall f, l.program.Fit (l.program.mentionsOf f)) (hskips : l.program.SkipsNative)
    {m m' : Machine σ} (hlength : m.globals.length = l.program.globalCount)
    {globals globals' : Valuation} (hknown : KnownGlobals l.program globals m) {quota : Nat}
    {f : FunId} {args : List Value} {value value' : Option Value}
    (hcall : evalCall l.program quota globals f args = some (value, globals')) {pos : Pos}
    (hrun : l.invoke fuel f args pos m = .done value' m') :
    value' = value ∧ KnownGlobals l.program globals' m' := by
  rcases Option.map_eq_some_iff.mp hcall with ⟨⟨_, c⟩, hinvoke, hpair⟩
  cases hpair
  have htracks :
      Tracks l.program m.frames { globals := globals, frames := [], budget := quota } m :=
    ⟨⟨[], rfl, .nil⟩, hknown, hlength⟩
  rcases callsAgree_invoke htables hfit hskips quota fuel f args pos _ _ c m m' _ _ htracks hinvoke hrun
    with ⟨hvalue, -, hend⟩
  exact ⟨hvalue, hend.globals⟩

end Programs
end Scriptlet
