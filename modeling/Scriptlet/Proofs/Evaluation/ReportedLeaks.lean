import Scriptlet.Proofs.Evaluation.SafeSystems
import Scriptlet.Proofs.Evaluation.UnawaitedCalls

/-!
# Reports of runs with running tasks

The top level of a program may end while its tasks go on.  Its thread keeps its book and its
sets in balance from one operation to the next, whatever the other threads do between them,
until it takes the leaks for its report.
-/

namespace Scriptlet

/-!
# Code that reports
-/

/-- Unless an operation fails, the code ends well only behind one that takes the leaks, with
these in its report. -/
def Coroutine.Reports : Coroutine ThreadEnd -> Prop
  | .done _ => False
  | .raised _ => True
  | .unfinished => True
  | .ask .takeLeaks next =>
      forall leaked, exists result, next (.ok leaked) = .done (.ran ⟨result, leaked⟩)
  | .ask _ next => forall answer, Reports (next (.ok answer))

namespace Coroutine

variable {α : Type} {p : Program}

theorem Reports.bind (home d : Nat) {post : Except Signal α -> Prop} {x : Coroutine α}
    {f : α -> Coroutine ThreadEnd} (hx : forall base, x.Sound p (base + home) (base + d) post)
    (hf : forall a, (f a).Reports) : (x >>= f).Reports := by
  induction x generalizing d with
  | done a => exact hf a
  | raised s => trivial
  | unfinished => trivial
  | ask op next ih =>
      cases op with
      | takeLeaks => exact absurd (hx 1).1 (Nat.succ_ne_zero _ <| Nat.add_comm 1 d ▸ ·)
      | push f values =>
          intro answer
          exact ih (.ok answer) (d + 1) fun base => (hx base).2.1 answer
      | pop =>
          have hpos : 0 < d := Nat.zero_add d ▸ (hx 0).1
          intro answer
          apply ih (.ok answer) (d - 1)
          intro base
          rw [← Nat.add_sub_assoc hpos]
          exact (hx base).2.1 answer
      | _ => exact fun answer => ih _ _ fun base => (hx base).2.1 answer

theorem reports_runCode (hwell : p.WellFormed) (fuel : Nat) :
    (ThreadEnd.ran <$> p.runCode fuel).Reports := by
  rw [Program.runCode, map_eq_pure_bind, bind_assoc]
  apply Reports.bind 0 0
  · exact fun base =>
      (sound_stmts (hwell.sound_callCode fuel) hwell.root.fit fuel base).catchReturn
  · exact fun result leaked => ⟨result, rfl⟩

end Coroutine

/-!
# Operations in balance
-/

/-- The machine of an evaluator balances its book, and its sets are told apart. -/
structure Booked.InBalance {σ : Type} (p : Program) (b : Booked σ Nat) : Prop where
  balanced : b.Balanced p b.scene
  nodup : b.scene.numbers.Nodup

section Balance

variable {σ α : Type} {p : Program} {l : Loaded σ} {scene : Scene} {b : Booked σ Nat}

theorem Booked.InBalance.of_balanced (h : b.Balanced p scene) (hnodup : scene.numbers.Nodup) :
    b.InBalance p :=
  ⟨h.stands.symm ▸ h, h.stands.symm ▸ hnodup⟩

theorem satisfies_lift {x : Run RuntimeError (Booked σ Nat) α}
    {done : α -> Booked σ Nat -> Prop} (h : (x b).Satisfies done fun _ => True) :
    (Raising.lift x b).Satisfies done fun _ => True := by
  unfold Raising.lift
  cases houtcome : x b with
  | done a b' =>
      rw [houtcome] at h
      exact h
  | failed e b' => trivial
  | unfinished => trivial

theorem satisfies_act {x : EvalOf Nat σ α} {done : α -> Machine σ Nat -> Prop}
    (h : (x b.machine).Satisfies done fun _ => True) :
    (Booked.act x b).Satisfies (fun a b' => exists m, done a m ∧ b' = { b with machine := m })
      fun _ => True := by
  unfold Booked.act
  cases houtcome : x b.machine with
  | done a m =>
      rw [houtcome] at h
      exact ⟨m, h, rfl⟩
  | failed e m => trivial
  | unfinished => trivial

namespace Operation

theorem settle_entered {pos : Pos} {target : VarId} {task : PendingTask Nat} {e : AsyncEvent}
    (result : Except Signal (Option Value)) (h : b.machine.Entered p b.book scene e) :
    (settle p pos target task result b).Satisfies
      (fun _ b' => exists m, m.Entered p b.book scene e ∧ b' = { b with machine := m })
      fun _ => True := by
  cases result with
  | ok r =>
      exact satisfies_lift (satisfies_act (Booked.entered_deliver h pos target task.function (.ok r)))
  | error s =>
      cases s with
      | error cause =>
          exact satisfies_lift
            (satisfies_act (Booked.entered_deliver h pos target task.function (.error cause)))
      | returned value => trivial
      | strayed value => trivial

variable {ended : Nat -> Option (Except Signal (Option Value))} {number : Nat}

theorem perform_balances {op : Operation} (hop : op.Fits l.program b.machine.frames.length)
    (hleaks : op ≠ .takeLeaks) (hb : b.InBalance l.program) :
    (op.perform l ended number b).Satisfies (fun _ b' => b'.InBalance l.program)
      fun _ => True := by
  have hbalanced := hb.balanced
  have hnodup := hb.nodup
  have hact : forall {α : Type} {x : EvalOf Nat σ α},
      (forall book, KeepsAll (Machine.Balances l.program book b.scene) x) ->
      (Raising.lift (Booked.act x) b).Satisfies (fun _ b' => b'.InBalance l.program)
        fun _ => True :=
    fun hx => (satisfies_lift (Booked.balancing_act hx b hbalanced)).mono
      fun _ _ h => .of_balanced h hnodup
  cases op with
  | read id pos => exact hact fun _ => keeps_readVar id pos
  | write id value pos => exact hact fun _ => Booked.keepsBalances_writeVar id value pos
  | native f values pos =>
      exact hact fun _ => keeps_native (fun _ _ h => ⟨⟨h.sets.frames, h.sets.tasks⟩, h.owed⟩) _ _ _ _
  | push f values =>
      have hnew : b.fresh ∉ b.scene.numbers :=
        fun hmem => Nat.lt_irrefl _ (hbalanced.numbers _ hmem)
      exact .of_balanced (hbalanced.enter rfl rfl) (Scene.nodup_enter hnodup hnew)
  | pop =>
      have hlength : b.machine.frames.length = b.scene.stack.length :=
        hbalanced.machine.sets.frames.length_eq
      have hpos : 0 < b.machine.frames.length := hop
      rcases List.exists_cons_of_length_pos (hlength ▸ hpos) with ⟨call, rest, hstack⟩
      let outer : Scene := { b.scene with stack := rest }
      have hscene : b.scene = outer.enter call.function call.number := by
        rw [Scene.enter, ← hstack]
      rw [hscene] at hbalanced hnodup
      have hsublist : outer.numbers.Sublist (outer.enter call.function call.number).numbers :=
        (List.sublist_cons_self _ _).cons_cons _
      exact .of_balanced hbalanced.leave (hnodup.sublist hsublist)
  | start fuel pos target f values =>
      apply satisfies_bind
        (satisfies_lift (satisfies_act (Booked.entered_addTask hnodup hbalanced.machine rfl)))
      rintro _ _ ⟨m, hentered, rfl⟩
      exact .of_balanced (hbalanced.entered hentered) hnodup
  | await pos target =>
      apply satisfies_bind
        (satisfies_lift (satisfies_act (Booked.entered_takeTask hnodup hbalanced.machine pos target)))
      rintro task _ ⟨m, hentered, rfl⟩
      cases hresult : ended task.result with
      | none => trivial
      | some result =>
          apply satisfies_bind (settle_entered result hentered)
          rintro _ _ ⟨m', hentered', rfl⟩
          exact .of_balanced (hbalanced.entered hentered') hnodup
  | takeLeaks => exact absurd rfl hleaks

end Operation

/-!
# Runs of the top level
-/

namespace System

/-- How far the thread of the session is with the top level. -/
inductive Reporting (p : Program) (s : System σ) (main : Thread) : Prop where
  | running : main.code.Reports -> (s.view main).InBalance p -> Reporting p s main
  /-- An operation has failed. -/
  | failing : main.code.Sound p 0 main.frames.length (Returns fun _ => False) ->
      Reporting p s main
  | reported {report : RunReport} : main.code = .done (.ran report) ->
      (s.view main).Closes p report -> Reporting p s main

variable {s s' : System σ} {main : Thread}

theorem Reporting.elsewhere (h : s.Reporting p main) (s' : System σ) : s'.Reporting p main := by
  cases h with
  | running hreports hbalance =>
      have hmachine := hbalance.balanced.machine
      refine .running hreports ⟨⟨rfl, ?_, ?_, ?_, ?_⟩, hbalance.nodup⟩
      · exact ⟨⟨hmachine.sets.frames, hmachine.sets.tasks⟩, hmachine.owed⟩
      · exact hbalance.balanced.numbers
      · exact hbalance.balanced.sets
      · exact hbalance.balanced.settled
  | failing hsound => exact .failing hsound
  | reported hdone hcloses =>
      exact .reported hdone ⟨hcloses.leaked, hcloses.settled, hcloses.tasks, hcloses.frames⟩

theorem reports_answer {op : Operation} {next : Except Signal op.Answer -> Coroutine ThreadEnd}
    (h : (Coroutine.ask op next).Reports) (answer : op.Answer) (hleaks : op ≠ .takeLeaks) :
    (next (.ok answer)).Reports := by
  cases op with
  | takeLeaks => exact absurd rfl hleaks
  | _ => exact h answer

theorem Reporting.answered (h : s.Reporting l.program main) {op : Operation}
    {next : Except Signal op.Answer -> Coroutine ThreadEnd} (hask : main.code = .ask op next)
    (hop : op.Fits l.program main.frames.length) {answer : op.Answer} {b : Booked σ Nat}
    (hdone : op.perform l s.ended s.threads.length (s.view main) = .done answer b)
    (hdepth : b.machine.frames.length = op.depth main.frames.length) (started : List Thread) :
    (s.resume 0 main b (next (.ok answer)) started).Reporting l.program
      (main.resume b (next (.ok answer))) := by
  cases h with
  | failing hsound =>
      rw [hask] at hsound
      exact .failing (hdepth.symm ▸ hsound.2.1 answer)
  | reported hcode => cases hask.symm.trans hcode
  | running hreports hbalance =>
      rw [hask] at hreports
      by_cases hleaks : op = .takeLeaks
      · subst hleaks
        rcases hreports answer with ⟨result, hcode⟩
        have hframes : main.frames = [] := List.eq_nil_of_length_eq_zero hop
        have hcloses := hbalance.balanced.closes hframes result
        cases hdone
        exact .reported hcode hcloses
      · have hkept : (op.perform l s.ended s.threads.length (s.view main)).Satisfies _ _ :=
          Operation.perform_balances hop hleaks hbalance
        rw [hdone] at hkept
        exact .running (reports_answer hreports answer hleaks) hkept

theorem Reporting.step (h : s.Reporting l.program main) (hwell : l.program.WellFormed)
    (hsafe : s.Safe l.program) (hmain : s.threads[0]? = some main) (hstep : s.Step l s') :
    exists main', s'.threads[0]? = some main' ∧ s'.Reporting l.program main' := by
  rcases hstep with ⟨number, hstep⟩
  rcases step_cases hstep with ⟨t, op, next, ht, hask, hend⟩
  by_cases hnumber : number = 0
  · subst hnumber
    cases hmain.symm.trans ht
    have hmem := List.mem_of_getElem? hmain
    have hsound := (hsafe.threads main hmem).code
    rw [hask] at hsound
    have hperform := hsafe.perform hwell.tables hmem hsound.1
    rcases hend with ⟨answer, b, hdone, rfl⟩ | ⟨signal, b, hfailed, rfl⟩
    · rw [hdone] at hperform
      exact ⟨_, getElem?_resume_self ht b _ _, h.answered hask hsound.1 hdone hperform.depth _⟩
    · rw [hfailed] at hperform
      rcases hperform with ⟨hmay, ⟨e, rfl⟩, hb⟩
      have hfailing := hsound.2.2 hmay e
      exact ⟨_, getElem?_resume_self ht b _ _, .failing (hb.depth.symm ▸ hfailing)⟩
  · rcases hend with ⟨answer, b, -, rfl⟩ | ⟨signal, b, -, rfl⟩
    · exact ⟨main, getElem?_resume_other hmain hnumber b _ _, h.elsewhere _⟩
    · exact ⟨main, getElem?_resume_other hmain hnumber b _ _, h.elsewhere _⟩

theorem reporting_steps (hwell : l.program.WellFormed) {host : σ} {fuel : Nat}
    (hsteps : Relation.ReflTransGen (Step l) (running l.program host fuel) s) :
    exists main, s.threads[0]? = some main ∧ s.Reporting l.program main := by
  -- By induction on the steps: the thread of the session reports, whatever the others do.
  induction hsteps with
  | refl =>
      refine ⟨_, rfl, .running (Coroutine.reports_runCode hwell fuel) ⟨?_, List.nodup_singleton 0⟩⟩
      exact Booked.balanced_initial l.program host
  | tail hbefore hstep ih =>
      rcases ih with ⟨main, hmain, hreporting⟩
      have hsafe := ((reachable_running l host fuel).steps hbefore).safe hwell
      exact hreporting.step hwell hsafe hmain hstep

theorem Reporting.closes (h : s.Reporting p main) {report : RunReport}
    (hdone : main.code = .done (.ran report)) : (s.view main).Closes p report := by
  cases h with
  | running hreports =>
      rw [hdone] at hreports
      exact hreports.elim
  | failing hsound =>
      rw [hdone] at hsound
      exact hsound.2.elim
  | reported hcode hcloses =>
      cases hdone.symm.trans hcode
      exact hcloses

end System
end Balance

/-- A run of the top level keeps a book of the async calls that it executes itself, while its
tasks go on at any pace.  If it ends without an error, then the calls that it reports as leaked
are those that the book has as not awaited, each of them once.  Every other one was settled by
its await, and no task is left with the evaluator; some of them may still run.  The same holds
of runs in which each task runs at once. -/
theorem leaks_are_unawaited {σ body : Type} {externs : List (Extern body)} {tokens : List Token}
    {parsed : Parsed} (hparse : parse externs tokens = .ok parsed) {l : Loaded σ}
    (hl : l.program = parsed.program) (host : σ) (fuel : Nat) :
    (forall s, Relation.ReflTransGen (System.Step l) (System.running l.program host fuel) s ->
      forall main report, s.threads[0]? = some main -> main.code = .done (.ran report) ->
        (s.view main).Closes l.program report) ∧
    Books (l.run fuel) (l.bookedRun fuel) ∧
    forall report m, l.run fuel (.initial l.program host) = .done report m ->
      exists t, l.bookedRun fuel (.initial l.program host) = .done report t ∧ t.machine = m ∧
        t.Closes l.program report := by
  have hwell : l.program.WellFormed := hl ▸ wellFormed_of_parse hparse
  refine ⟨?_, books_run l fuel, ?_⟩
  · intro s hsteps main report hmain hdone
    rcases System.reporting_steps hwell hsteps with ⟨main', hmain', hreporting⟩
    cases hmain.symm.trans hmain'
    exact hreporting.closes hdone
  · intro report m hrun
    have hbook := (books_run l fuel).eq (.initial l.program host)
    have hcloses := Booked.closes_bookedRun l fuel host
    have hplain : l.run fuel (Booked.initial l.program host).machine = .done report m := hrun
    rw [hplain] at hbook
    cases hbooked : l.bookedRun fuel (.initial l.program host) with
    | done report' t =>
        rw [hbooked] at hbook hcloses
        cases hbook
        exact ⟨t, rfl, rfl, hcloses⟩
    | failed e t =>
        rw [hbooked] at hbook
        cases hbook
    | unfinished =>
        rw [hbooked] at hbook
        cases hbook

section Abandoned

/-- A task is replaced, another one is left behind by its frame, and a third one is awaited. -/
def abandonedTokens : List Token :=
  let lines : List (List (TokenKind × String)) :=
    [[(.funWord, "fun"), (.name, "one"), (.openParen, "("), (.closeParen, ")"), (.colon, ":"),
      (.intType, "int"), (.openBrace, "\x7b"), (.returnWord, "return"), (.intLit, "1"),
      (.closeBrace, "\x7d")],
    [(.funWord, "fun"), (.name, "early"), (.openParen, "("), (.closeParen, ")"), (.colon, ":"),
      (.intType, "int"), (.openBrace, "\x7b"), (.asyncWord, "async"), (.name, "a"), (.colon, ":"),
      (.intType, "int"), (.equal, "="), (.name, "one"), (.openParen, "("), (.closeParen, ")"),
      (.returnWord, "return"), (.intLit, "2"), (.closeBrace, "\x7d")],
    [(.asyncWord, "async"), (.name, "x"), (.colon, ":"), (.intType, "int"), (.equal, "="),
      (.name, "one"), (.openParen, "("), (.closeParen, ")")],
    [(.asyncWord, "async"), (.name, "x"), (.assign, ":="), (.name, "one"), (.openParen, "("),
      (.closeParen, ")")],
    [(.name, "early"), (.openParen, "("), (.closeParen, ")")],
    [(.awaitWord, "await"), (.name, "x")]]
  (lines.zipIdx 1).flatMap fun line => line.1.map fun word =>
    { pos := { line := line.2, column := 1 }, kind := word.1, text := word.2 }

def abandonedProgram : Program :=
  let one : Function :=
    { name := "one", params := [], result := .int, localCount := 0
      body := some
        { head := { scope := 1, pos := ⟨1, 1⟩ }, body := [.ret ⟨1, 1⟩ (.literal ⟨1, 1⟩ (.int 1))] } }
  let early : Function :=
    { name := "early", params := [], result := .int, localCount := 1
      body := some
        { head := { scope := 2, pos := ⟨2, 1⟩ }
          body := [.async ⟨2, 1⟩ 0 0 [], .ret ⟨2, 1⟩ (.literal ⟨2, 1⟩ (.int 2))] } }
  { root :=
      [.funDecl ⟨1, 1⟩ 0, .funDecl ⟨2, 1⟩ 1, .async ⟨3, 1⟩ 1 0 [], .async ⟨4, 1⟩ 1 0 [],
        .call ⟨5, 1⟩ 1 [], .await ⟨6, 1⟩ 1]
    constants := []
    vars :=
      [{ name := "a", type := .int, owner := some 1, slot := 0, default := none },
        { name := "x", type := .int, owner := none, slot := 0, default := none }]
    functions := [one, early]
    globalCount := 1
    globals := [.function 0, .function 1, .var 1] }

theorem parse_abandonedTokens :
    parse ([] : List (Extern Unit)) abandonedTokens =
      .ok { program := abandonedProgram, warnings := [] } := by
  cbv

def abandonedLoaded : Loaded Unit :=
  { program := abandonedProgram, natives := [] }

theorem leaks_are_unawaited_abandoned :
    parse ([] : List (Extern Unit)) abandonedTokens =
      .ok { program := abandonedProgram, warnings := [] } ∧
    exists (s : System Unit) (main : Thread) (report : RunReport),
      s.threads[0]? = some main ∧ main.code = .done (.ran report) ∧
      (s.threads.map (·.ended?.isSome)) = [false, false, true, false] ∧
      report.leaked = [{ target := "x", function := "one", pos := ⟨3, 1⟩ },
        { target := "a", function := "one", pos := ⟨2, 1⟩ }] ∧
      main.book.length = 4 ∧ (s.view main).Closes abandonedProgram report := by
  have hend : exists (s : System Unit) (main : Thread) (report : RunReport),
      (System.running abandonedProgram () 2).schedule abandonedLoaded [0, 0, 0, 0, 0, 2, 2, 0, 0] =
        some s ∧
      s.threads[0]? = some main ∧ main.code = .done (.ran report) ∧
      (s.threads.map (·.ended?.isSome)) = [false, false, true, false] ∧
      report.leaked = [{ target := "x", function := "one", pos := ⟨3, 1⟩ },
        { target := "a", function := "one", pos := ⟨2, 1⟩ }] ∧
      main.book.length = 4 := ⟨_, _, _, rfl, rfl, rfl, rfl, rfl, rfl⟩
  rcases hend with ⟨s, main, report, hschedule, hmain, hdone, hended, hleaked, hlength⟩
  have hcloses := (leaks_are_unawaited (l := abandonedLoaded) parse_abandonedTokens rfl () 2).1 s
    (System.steps_of_schedule hschedule) main report hmain hdone
  exact ⟨parse_abandonedTokens, s, main, report, hmain, hdone, hended, hleaked, hlength, hcloses⟩

end Abandoned
end Scriptlet
