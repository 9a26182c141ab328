import Scriptlet.Proofs.Evaluation.CodeRuns
import Scriptlet.Proofs.Evaluation.SafeSystems

/-!
# How calls end

A `return` ends the call around it and nothing else, whether that call was made in a body,
by the host or as a task.  The call then yields what its function declares: a value of the
declared type, or nothing where none is declared.  So an expression lacks the value of a call
only if none is declared, and an await never finds a value of another type.
-/

namespace Scriptlet

theorem yieldType_eq_none {result : Option Value} : yieldType result = .none <-> result = none := by
  cases result with
  | none => exact iff_of_true rfl rfl
  | some v => cases v <;> exact iff_of_false nofun nofun

/-- The result is of the type, and there is a value unless the type is `none`. -/
structure ResultFits (declared : ValueType) (result : Option Value) : Prop where
  type : yieldType result = declared
  value : result.isSome <-> declared ≠ .none

theorem resultFits_of_type {declared : ValueType} {result : Option Value}
    (h : yieldType result = declared) : ResultFits declared result where
  type := h
  value := by rw [← h, ne_eq, yieldType_eq_none, Option.isSome_iff_ne_none]

section Calls

variable {σ : Type} {l : Loaded σ} {fuel : Nat} {f : FunId}

theorem resultFits_callFunction {args : List Value} {m m' : Machine σ} {result : Option Value}
    (h : l.callFunction fuel f args m = .done result m') :
    ResultFits (l.program.function f).result result := by
  unfold Loaded.callFunction at h
  split at h
  · cases h
  · rw [Run.bind_apply] at h
    split at h
    · exact resultFits_of_type (yieldType_of_invoke h)
    · cases h
    · cases h

theorem call_fails_iff {pos : Pos} {args : List Expr} {m m₁ m₂ : Machine σ} {values : List Value}
    {result : Option Value}
    (harguments : Eval.arguments l.program (l.invoke fuel) f pos (l.program.function f).params args m =
      .done values m₁)
    (hcall : l.invoke fuel f values pos m₁ = .done result m₂) :
    (exists e m', Eval.expr l.program (l.invoke fuel) (.call pos f args) m = .failed e m') <->
      (l.program.function f).result = .none := by
  rw [← yieldType_of_invoke hcall, yieldType_eq_none, Eval.expr, Run.bind_apply, harguments]
  simp only [Run.bind_apply, hcall]
  cases result with
  | none => exact iff_of_true ⟨_, _, rfl⟩ rfl
  | some v =>
      refine iff_of_false ?_ (Option.some_ne_none v)
      rintro ⟨e, m', hfailed⟩
      cases hfailed

end Calls

/-!
# Calls in code
-/

namespace Coroutine

variable {α β : Type}

/-- What code may return, whatever its operations are answered. -/
inductive MayReturn : Coroutine α -> α -> Prop where
  | done {a : α} : MayReturn (.done a) a
  | ask {op : Operation} {next : Except Signal op.Answer -> Coroutine α}
      {answer : Except Signal op.Answer} {a : α} :
      MayReturn (next answer) a -> MayReturn (.ask op next) a

theorem mayReturn_bind {x : Coroutine α} {f : α -> Coroutine β} {b : β}
    (h : (x >>= f).MayReturn b) : exists a, x.MayReturn a ∧ (f a).MayReturn b := by
  induction x with
  | done a => exact ⟨a, .done, h⟩
  | raised s => cases h
  | unfinished => cases h
  | ask op next ih =>
      cases h with
      | ask h =>
          rcases ih _ h with ⟨a, ha, hf⟩
          exact ⟨a, .ask ha, hf⟩

theorem bind_congr {x : Coroutine α} {f g : α -> Coroutine β}
    (h : forall a, x.MayReturn a -> f a = g a) : x >>= f = x >>= g := by
  induction x with
  | done a => exact h a .done
  | raised s => rfl
  | unfinished => rfl
  | ask op next ih => exact congrArg (ask op) (funext fun answer => ih _ fun a ha => h a (.ask ha))

end Coroutine

section Code

variable {p : Program} {fuel : Nat} {f : FunId} {pos : Pos}

theorem resultFits_of_checkResult {function : Function} {found result : Option Value}
    (h : (Walk.checkResult (p.codeActions fuel) function pos found).MayReturn result) :
    ResultFits function.result result := by
  unfold Walk.checkResult at h
  split at h
  · rename_i htype
    cases h
    exact resultFits_of_type htype
  · cases h

theorem resultFits_callCode {values : List Value} {result : Option Value}
    (h : (p.callCode fuel f values pos).MayReturn result) :
    ResultFits (p.function f).result result := by
  cases fuel with
  | zero => cases h
  | succ fuel =>
      cases hbody : (p.function f).body with
      | none =>
          simp only [Program.callCode, hbody] at h
          rcases Coroutine.mayReturn_bind h with ⟨found, -, hchecked⟩
          split at hchecked
          · rename_i hnone
            cases hchecked
            exact resultFits_of_type hnone.symm
          · exact resultFits_of_checkResult hchecked
      | some block =>
          simp only [Program.callCode, hbody] at h
          rcases Coroutine.mayReturn_bind h with ⟨found, -, hchecked⟩
          exact resultFits_of_checkResult hchecked

theorem resultFits_callFunctionCode {args : List Value} {result : Option Value}
    (h : (p.callFunctionCode fuel f args).MayReturn result) :
    ResultFits (p.function f).result result := by
  unfold Program.callFunctionCode at h
  dsimp only at h
  split at h
  · cases h
  · rcases Coroutine.mayReturn_bind h with ⟨_, -, hcall⟩
    exact resultFits_callCode hcall

/-- The code of a call in an expression, with something else to do if a value is lacking. -/
def Program.callExprCode (p : Program) (fuel : Nat) (pos : Pos) (f : FunId) (args : List Expr)
    (lacking : Coroutine Value) : Coroutine Value := do
  let values ← Walk.arguments (p.codeActions fuel) p f pos (p.function f).params args
  match ← p.callCode fuel f values pos with
  | some value => pure value
  | none => lacking

theorem callExprCode_eq (hresult : (p.function f).result ≠ .none) (args : List Expr)
    (lacking : Coroutine Value) :
    Walk.expr (p.codeActions fuel) p (.call pos f args) = p.callExprCode fuel pos f args lacking := by
  unfold Walk.expr Program.callExprCode
  congr 1
  funext values
  apply Coroutine.bind_congr
  intro result hreturn
  have hvalue := (resultFits_callCode hreturn).value.mpr hresult
  cases result with
  | some value => rfl
  | none => cases hvalue

end Code

/-- The raising run does what the plain one does, and raises nothing but its errors. -/
structure Raising.Contains {σ α : Type} (x : Eval σ α) (y : Raising σ α) : Prop where
  same : y = Raising.lift x
  errors : forall {m s m'}, y m = .failed s m' -> exists e, s = .error e ∧ x m = .failed e m'

theorem Raising.contains_of_eq {σ α : Type} {x : Eval σ α} {y : Raising σ α} (h : y = lift x) :
    Contains x y where
  same := h
  errors := fun hfailed => error_of_lift (h ▸ hfailed)

/-!
# Calls in systems
-/

/-- How calls end in a state of a session, while tasks go on. -/
structure System.EndsAsDeclared {σ : Type} (l : Loaded σ) (s : System σ) : Prop where
  /-- No return comes out of a thread. -/
  raised : forall {t}, t ∈ s.threads -> forall {signal}, t.code = .raised signal ->
    exists e, signal = .error e
  results : forall {t}, t ∈ s.threads -> forall {f result}, t.code = .done (.called f result) ->
    ResultFits (l.program.function f).result result
  /-- A task whose call has ended has a value of the type of its target, unless the call has
  failed. -/
  tasks : forall {t}, t ∈ s.threads -> (s.view t).machine.EachTask fun task =>
    forall result, s.ended task.result = some result -> task.EndsWell l.program result
  /-- An await fails if there is no task or the call of the task has failed, and never because
  of a type. -/
  awaits : forall {t}, t ∈ s.threads -> forall {pos target next},
    t.code = .ask (.await pos target) next -> forall {signal b},
    (Operation.await pos target).perform l s.ended s.threads.length (s.view t) = .failed signal b ->
    exists e, signal = .error e ∧
      AwaitFails l.program (fun number e => s.ended number = some (.error (.error e)))
        (s.view t).machine target pos e ∧
      forall mismatch, e.cause ≠ .typeMismatch mismatch

section Systems

variable {σ : Type} {l : Loaded σ} {b b' : Booked σ Nat} {signal : Signal}

theorem failed_of_act {α : Type} {x : EvalOf Nat σ α}
    (h : Raising.lift (Booked.act x) b = .failed signal b') :
    exists e m, signal = .error e ∧ x b.machine = .failed e m := by
  unfold Raising.lift Booked.act at h
  cases houtcome : x b.machine with
  | done a m =>
      rw [houtcome] at h
      cases h
  | failed e m =>
      rw [houtcome] at h
      cases h
      exact ⟨e, m, rfl, rfl⟩
  | unfinished =>
      rw [houtcome] at h
      cases h

theorem done_of_act {α : Type} {x : EvalOf Nat σ α} {a : α}
    (h : Raising.lift (Booked.act x) b = .done a b') :
    exists m, x b.machine = .done a m ∧ b' = { b with machine := m } := by
  unfold Raising.lift Booked.act at h
  cases houtcome : x b.machine with
  | done a m =>
      rw [houtcome] at h
      cases h
      exact ⟨m, rfl, rfl⟩
  | failed e m =>
      rw [houtcome] at h
      cases h
  | unfinished =>
      rw [houtcome] at h
      cases h

theorem Operation.settle_fails {p : Program} {pos : Pos} {task : PendingTask Nat}
    (hfinds : b.machine.Finds p task.target) {result : Except Signal (Option Value)}
    (hwell : task.EndsWell p result)
    (h : settle p pos task.target task result b = .failed signal b') :
    exists cause : RuntimeError, result = .error (.error cause) ∧
      signal = .error { cause := .taskFailed task.function cause.cause cause.pos, pos := pos } := by
  cases result with
  | ok r =>
      rcases failed_of_act h with ⟨e, m, rfl, hdeliver⟩
      have hfills : forall found, (.ok r : TaskResult) = .ok found ->
          exists v, found = some v ∧ v.type = (p.variableAt task.target).type := by
        intro found hfound
        cases hfound
        exact hwell
      rcases deliver_fails hfinds hfills hdeliver with ⟨cause, herror, -⟩
      cases herror
  | error s =>
      rcases hwell with ⟨cause, rfl⟩
      rw [settle] at h
      rcases failed_of_act h with ⟨e, m, rfl, hdeliver⟩
      have hfills : forall found, (.error cause : TaskResult) = .ok found ->
          exists v, found = some v ∧ v.type = (p.variableAt task.target).type := by
        intro found hfound
        cases hfound
      rcases deliver_fails hfinds hfills hdeliver with ⟨found, hfound, rfl⟩
      cases hfound
      exact ⟨cause, rfl, rfl⟩

theorem Operation.await_fails {ended : Nat -> Option (Except Signal (Option Value))}
    {number : Nat} {pos : Pos} {target : VarId}
    (htasks : b.machine.EachTask fun task =>
      forall result, ended task.result = some result -> task.EndsWell l.program result)
    (h : (Operation.await pos target).perform l ended number b = .failed signal b') :
    exists e, signal = .error e ∧
      AwaitFails l.program (fun number e => ended number = some (.error (.error e)))
        b.machine target pos e := by
  rw [perform, Run.bind_apply] at h
  split at h
  · rename_i task taken htake
    rcases done_of_act htake with ⟨m, hdone, rfl⟩
    rcases takeTask_done hdone with ⟨hfind, hfinds⟩
    rcases htasks.find? hfind with ⟨rfl, hwell⟩
    cases hended : ended task.result with
    | none =>
        simp only [hended] at h
        cases h
    | some result =>
        simp only [hended, Run.bind_apply] at h
        split at h
        · cases h
        · rename_i s settled hsettle
          cases h
          rcases settle_fails hfinds (hwell result hended) hsettle with ⟨cause, rfl, rfl⟩
          exact ⟨_, rfl, .failed hfind hended⟩
        · cases h
  · rename_i s taken htake
    cases h
    rcases failed_of_act htake with ⟨e, m, rfl, hfailed⟩
    rcases takeTask_failed hfailed with ⟨hnone, rfl⟩
    exact ⟨_, rfl, .unknown hnone⟩
  · cases h

theorem System.Safe.endsAsDeclared {s : System σ} (h : s.Safe l.program) : s.EndsAsDeclared l where
  raised := by
    intro t ht signal hraised
    have hsound := (h.threads t ht).code
    rw [hraised] at hsound
    exact hsound.2
  results := by
    intro t ht f result hdone
    have hsound := (h.threads t ht).code
    rw [hdone] at hsound
    exact resultFits_of_type (hsound.2.result rfl)
  tasks := h.tasks_end
  awaits := by
    intro t ht pos target next _ signal b hfailed
    rcases Operation.await_fails (h.tasks_end ht) hfailed with ⟨e, rfl, hfails⟩
    exact ⟨e, rfl, hfails, hfails.ne_typeMismatch⟩

end Systems

/-- How calls end in the sessions of a program. -/
structure Loaded.CallsEndAsDeclared {σ : Type} (l : Loaded σ) (host : σ) : Prop where
  /-- No return comes out of a run, of a call of the host, or of any other call.  The call of
  a task is one on a machine without frames. -/
  run : forall fuel, Raising.Contains (l.run fuel) (l.raisingRun fuel)
  callFunction : forall fuel f args,
    Raising.Contains (l.callFunction fuel f args) (l.raisingCallFunction fuel f args)
  invoke : forall fuel f values pos,
    Raising.Contains (l.invoke fuel f values pos) (l.raisingInvoke fuel f values pos)
  /-- What a call yields is what its function declares. -/
  results : forall {fuel f values pos m result m'}, l.invoke fuel f values pos m = .done result m' ->
    ResultFits (l.program.function f).result result
  hostResults : forall {fuel f args m result m'}, l.callFunction fuel f args m = .done result m' ->
    ResultFits (l.program.function f).result result
  /-- Where the arguments and the call end well, the expression fails only for lack of a
  declared result. -/
  expressions : forall {fuel f pos args m values m₁ result m₂},
    Eval.arguments l.program (l.invoke fuel) f pos (l.program.function f).params args m =
      .done values m₁ ->
    l.invoke fuel f values pos m₁ = .done result m₂ ->
    ((exists e m', Eval.expr l.program (l.invoke fuel) (.call pos f args) m = .failed e m') <->
      (l.program.function f).result = .none)
  /-- A task that waits has a value of the type of its target, unless its call has failed. -/
  tasks : forall {point}, l.Reaches host point -> point.machine.TasksFill l.program
  /-- An await fails if there is no task or the call of the task has failed, and never because
  of a type. -/
  awaits : forall {fuel pos target m e m'}, l.Reaches host ⟨fuel, .stmt (.await pos target), m⟩ ->
    Eval.stmt l.program fuel (l.invoke fuel) (.await pos target) m = .failed e m' ->
    AwaitFails l.program (fun result e => result = .error e) m target pos e ∧
      forall mismatch, e.cause ≠ .typeMismatch mismatch
  /-- The code of calls is that of the evaluator, and yields what is declared whatever goes on
  between its operations.  Where a result is declared, nothing is done for lack of one. -/
  code : forall fuel f values pos,
    Coroutine.runWith (Operation.atOnce l) (l.program.callCode fuel f values pos) =
      l.raisingInvoke fuel f values pos
  codeResults : forall {fuel f values pos result},
    (l.program.callCode fuel f values pos).MayReturn result ->
      ResultFits (l.program.function f).result result
  hostCodeResults : forall {fuel f args result},
    (l.program.callFunctionCode fuel f args).MayReturn result ->
      ResultFits (l.program.function f).result result
  codeExpressions : forall fuel pos f args lacking, (l.program.function f).result ≠ .none ->
    Walk.expr (l.program.codeActions fuel) l.program (.call pos f args) =
      l.program.callExprCode fuel pos f args lacking
  systems : forall s, System.Reachable l host s -> s.EndsAsDeclared l

/-- In every session of an accepted program returns stay inside of the calls that they end, and
calls yield what is declared. -/
theorem calls_end_as_declared {body : Type} {externs : List (Extern body)} {tokens : List Token}
    {parsed : Parsed} (hparse : parse externs tokens = .ok parsed) {σ : Type} {l : Loaded σ}
    (hl : l.program = parsed.program) (host : σ) : l.CallsEndAsDeclared host := by
  have hwell : l.program.WellFormed := hl ▸ wellFormed_of_parse hparse
  refine
    { run := fun fuel => Raising.contains_of_eq (Raising.raisingRun_eq l fuel)
      callFunction := fun fuel f args =>
        Raising.contains_of_eq (Raising.raisingCallFunction_eq l fuel f args)
      invoke := ?_
      results := fun hcall => resultFits_of_type (yieldType_of_invoke hcall)
      hostResults := resultFits_callFunction
      expressions := call_fails_iff
      tasks := fun hreaches => hreaches.tasksFill hwell
      awaits := ?_
      code := Raising.runWith_callCode l
      codeResults := resultFits_callCode
      hostCodeResults := resultFits_callFunctionCode
      codeExpressions := fun _ _ _ args lacking hresult => callExprCode_eq hresult args lacking
      systems := fun s hs => (hs.safe hwell).endsAsDeclared }
  · intro fuel f values pos
    apply Raising.contains_of_eq
    rw [Raising.raisingInvoke_eq]
  · intro fuel pos target m e m' hreaches hawait
    have hfills : m.TasksFill l.program := hreaches.tasksFill hwell
    rw [Eval.stmt, Run.bind_apply] at hawait
    split at hawait
    · cases hawait
    · rename_i htask
      cases hawait
      have hfails := hfills.awaitTask_fails htask
      exact ⟨hfails, hfails.ne_typeMismatch⟩
    · cases hawait

section Seven

def sevenTokens : List Token :=
  [(.funWord, "fun"), (.name, "seven"), (.openParen, "("), (.closeParen, ")"), (.colon, ":"),
    (.intType, "int"), (.openBrace, "\x7b"), (.whileWord, "while"), (.boolLit, "true"),
    (.openBrace, "\x7b"), (.ifWord, "if"), (.boolLit, "true"), (.openBrace, "\x7b"),
    (.returnWord, "return"), (.intLit, "7"), (.closeBrace, "\x7d"), (.closeBrace, "\x7d"),
    (.closeBrace, "\x7d"), (.asyncWord, "async"), (.name, "x"), (.colon, ":"), (.intType, "int"),
    (.equal, "="), (.name, "seven"), (.openParen, "("), (.closeParen, ")"), (.awaitWord, "await"),
    (.name, "x")].map fun word => { pos := .endOfInput, kind := word.1, text := word.2 }

def sevenLoop : Stmt :=
  let holds : Expr := .literal .endOfInput (.bool true)
  .whileDo .endOfInput holds { scope := 2, pos := .endOfInput }
    [.ifThen .endOfInput holds { scope := 3, pos := .endOfInput }
      [.ret .endOfInput (.literal .endOfInput (.int 7))]]

def sevenProgram : Program :=
  let seven : Function :=
    { name := "seven", params := [], result := .int, localCount := 0
      body := some { head := { scope := 1, pos := .endOfInput }, body := [sevenLoop] } }
  { root := [.funDecl .endOfInput 0, .async .endOfInput 0 0 [], .await .endOfInput 0]
    constants := []
    vars := [{ name := "x", type := .int, owner := none, slot := 0, default := none }]
    functions := [seven]
    globalCount := 1
    globals := [.function 0, .var 0] }

theorem parse_sevenTokens :
    parse ([] : List (Extern Unit)) sevenTokens =
      .ok { program := sevenProgram, warnings := [] } := by
  cbv

def sevenLoaded : Loaded Unit :=
  { program := sevenProgram, natives := [] }

theorem calls_end_as_declared_seven :
    parse ([] : List (Extern Unit)) sevenTokens = .ok { program := sevenProgram, warnings := [] } ∧
    (exists m m' : Machine Unit,
      sevenLoaded.Reaches () ⟨2, .stmt (.await .endOfInput 0), m⟩ ∧ m.TasksFill sevenProgram ∧
      sevenLoaded.raisingInvoke 2 0 [] .endOfInput m.forTask = .done (some (.int 7)) m.forTask ∧
      sevenLoaded.raisingRun 2 (.initial sevenProgram ()) =
        .done { result := none, leaked := [] } m' ∧
      m'.globalValue sevenProgram 0 = some (.int 7)) ∧
    exists (s : System Unit) (task : Thread), System.Reachable sevenLoaded () s ∧
      s.threads[1]? = some task ∧ task.code = .done (.called 0 (some (.int 7))) ∧
      ResultFits .int (some (.int 7)) := by
  let start : Machine Unit := .initial sevenProgram ()
  have hends := calls_end_as_declared (l := sevenLoaded) parse_sevenTokens rfl ()
  refine ⟨parse_sevenTokens, ?_, ?_⟩
  · have hroot : sevenLoaded.Reaches () ⟨2, .stmts sevenProgram.root, start⟩ := .run 2 .start
    have hdeclared : Eval.stmt sevenProgram 2 (sevenLoaded.invoke 2) (.funDecl .endOfInput 0) start =
        .done .next start := rfl
    have hstarted : exists m, Eval.stmt sevenProgram 2 (sevenLoaded.invoke 2)
        (.async .endOfInput 0 0 []) start = .done .next m := ⟨_, rfl⟩
    have hrun : exists m', sevenLoaded.run 2 start = .done { result := none, leaked := [] } m' ∧
        m'.globalValue sevenProgram 0 = some (.int 7) := ⟨_, rfl, rfl⟩
    rcases hstarted with ⟨m, hstarted⟩
    rcases hrun with ⟨m', hrun, hvalue⟩
    have hawait := ((hroot.step (.next hdeclared)).step (.next hstarted)).step .first
    have hcall : sevenLoaded.invoke 2 0 [] .endOfInput m.forTask =
        .done (some (.int 7)) m.forTask := rfl
    refine ⟨m, m', hawait, hends.tasks hawait, ?_, ?_, hvalue⟩
    · rw [(hends.invoke 2 0 [] .endOfInput).same, Raising.lift, hcall]
    · rw [(hends.run 2).same, Raising.lift, hrun]
  · have hstands : exists (s : System Unit) (task : Thread),
        (System.running sevenProgram () 2).schedule sevenLoaded [0, 1, 1] = some s ∧
        s.threads[1]? = some task ∧ task.code = .done (.called 0 (some (.int 7))) :=
      ⟨_, _, rfl, rfl, rfl⟩
    rcases hstands with ⟨s, task, hschedule, htask, hdone⟩
    have hreaches := (System.reachable_running sevenLoaded () 2).steps
      (System.steps_of_schedule hschedule)
    have hfits := (hends.systems s hreaches).results (List.mem_of_getElem? htask) hdone
    exact ⟨s, task, hreaches, htask, hdone, hfits⟩

end Seven
end Scriptlet
