import Scriptlet.Proofs.Evaluation.ThreadSafety

/-!
# Safe systems

Every state that a session reaches is safe, with all its threads: an operation keeps its own
thread safe, and hands typed globals to the others.  The host gives work to an evaluator that
has left all frames.
-/

namespace Scriptlet

/-- A call ends with a result of its function, and the thread of a task with a call. -/
structure Thread.Expects (p : Program) (t : Thread) (ending : ThreadEnd) : Prop where
  result : forall {f result}, ending = .called f result -> yieldType result = (p.function f).result
  callee : forall {f}, t.callee = some f -> exists result, ending = .called f result

abbrev Thread.Ends (p : Program) (t : Thread) : Except Signal ThreadEnd -> Prop :=
  Returns (t.Expects p)

namespace System

variable {σ : Type}

def callees (s : System σ) : List (Option FunId) :=
  s.threads.map (·.callee)

structure SafeThread (p : Program) (s : System σ) (t : Thread) : Prop where
  machine : (s.view t).machine.SafeAt p (PendingTask.Promised p s.callees) t.frames.length
  code : t.code.Sound p 0 t.frames.length (t.Ends p)

structure Safe (p : Program) (s : System σ) : Prop where
  globals : SlotsTyped p none s.globals
  threads : forall t, t ∈ s.threads -> s.SafeThread p t
  /-- The session has an evaluator of its own. -/
  main : s.callees[0]? = some none

theorem length_callees (s : System σ) : s.callees.length = s.threads.length :=
  List.length_map _

variable {p : Program} {l : Loaded σ} {s : System σ}

/-!
# Codes of calls
-/

theorem sound_called {f : FunId} {x : Coroutine (Option Value)} {d : Nat}
    (hx : x.Sound p 0 d (Returns fun result => yieldType result = (p.function f).result))
    {t : Thread} (hcallee : forall g, t.callee = some g -> g = f) :
    (ThreadEnd.called f <$> x).Sound p 0 d (t.Ends p) := by
  apply hx.bind
  · intro result hresult
    refine ⟨rfl, ?_, ?_⟩
    · rintro g found hfound
      cases hfound
      exact hresult
    · rintro g hg
      exact ⟨result, hcallee g hg ▸ rfl⟩
  · exact fun _ he => he

theorem sound_ran {fuel : Nat} (hwell : p.WellFormed) {t : Thread} (hcallee : t.callee = none) :
    (ThreadEnd.ran <$> p.runCode fuel).Sound p 0 0 (t.Ends p) := by
  apply (hwell.sound_runCode fuel).bind
  · intro report _
    refine ⟨rfl, nofun, ?_⟩
    intro f hf
    rw [hcallee] at hf
    cases hf
  · exact fun _ he => he

/-!
# Steps
-/

theorem promised_start {d fuel : Nat} {pos : Pos} {target : VarId}
    {f : FunId} {values : List Value}
    (hop : (Operation.start fuel pos target f values).Fits p d) (function : String)
    (callees : List (Option FunId)) :
    PendingTask.Promised p (callees ++ [some f])
      { target := target, function := function, pos := pos, result := callees.length } := by
  rcases hop with ⟨⟨arity, owners, -, -, htype, hsome⟩, -⟩
  exact ⟨f, List.getElem?_concat_length, htype, hsome⟩

theorem promised_mono {callees more : List (Option FunId)} {task : PendingTask Nat}
    (h : task.Promised p callees) : task.Promised p (callees ++ more) := by
  rcases h with ⟨f, hf, htype⟩
  have hlt := (List.getElem?_eq_some_iff.mp hf).1
  exact ⟨f, (List.getElem?_append_left hlt).trans hf, htype⟩

theorem Safe.endsWell (h : s.Safe p) {more : List (Option FunId)} {task : PendingTask Nat}
    (htask : task.Promised p (s.callees ++ more)) {result : Except Signal (Option Value)}
    (hended : s.ended task.result = some result) : task.EndsWell p result := by
  rcases htask with ⟨f, hf, htype, hsome⟩
  rcases Option.bind_eq_some_iff.mp hended with ⟨t, ht, hended⟩
  have hlt : task.result < s.callees.length := by
    rw [length_callees]
    exact (List.getElem?_eq_some_iff.mp ht).1
  rw [List.getElem?_append_left hlt, callees, List.getElem?_map, ht] at hf
  have hcallee : t.callee = some f := Option.some.inj hf
  have hcode := (h.threads t (List.mem_of_getElem? ht)).code
  rw [Thread.ended?] at hended
  split at hended
  · rename_i g found hdone
    cases hended
    rw [hdone] at hcode
    rcases hcode.2.callee hcallee with ⟨r, hr⟩
    have hyields := hcode.2.result hr
    cases hr
    cases found with
    | none => exact absurd hyields.symm hsome
    | some v => exact ⟨v, rfl, hyields.trans htype⟩
  · rename_i signal hraised
    cases hended
    rw [hraised] at hcode
    exact hcode.2
  · cases hended

theorem Safe.tasks_end (h : s.Safe p) {t : Thread} (ht : t ∈ s.threads) :
    (s.view t).machine.EachTask fun task =>
      forall result, s.ended task.result = some result -> task.EndsWell p result := by
  refine (h.threads t ht).machine.tasks.mono ?_
  intro task htask result hended
  exact h.endsWell (promised_mono htask : task.Promised p (s.callees ++ [])) hended

theorem callees_resume {number : Nat} {t : Thread} (ht : s.threads[number]? = some t)
    (b : Booked σ Nat) (code : Coroutine ThreadEnd) (started : List Thread) :
    (s.resume number t b code started).callees = s.callees ++ started.map (·.callee) := by
  rw [callees, resume, List.map_append, List.map_set, callees]
  congr 1
  refine List.ext_getElem? fun i => ?_
  rw [List.getElem?_set]
  split
  · rename_i heq
    subst heq
    rw [List.getElem?_map, ht, List.length_map]
    split
    · rfl
    · rename_i hlt
      exact absurd (List.getElem?_eq_some_iff.mp ht).1 hlt
  · rfl

theorem Safe.resume (h : s.Safe p) {number : Nat} {t : Thread} (ht : s.threads[number]? = some t)
    {b : Booked σ Nat} {code : Coroutine ThreadEnd} {started : List Thread}
    (hb : b.machine.SafeAt p
      (PendingTask.Promised p (s.callees ++ started.map (·.callee))) b.machine.frames.length)
    (hcode : code.Sound p 0 b.machine.frames.length (t.Ends p))
    (hstarted : forall u, u ∈ started -> u.frames = [] ∧ u.tasks = .empty ∧
      u.code.Sound p 0 0 (u.Ends p)) :
    (s.resume number t b code started).Safe p where
  globals := hb.typed.globals
  threads := by
    intro u hu
    have hcallees := callees_resume ht b code started
    rcases List.mem_append.mp hu with hold | hnew
    · rcases List.mem_or_eq_of_mem_set hold with hold | rfl
      · have hsafe := h.threads u hold
        refine ⟨?_, hsafe.code⟩
        rw [hcallees]
        exact (hsafe.machine.mono fun _ => promised_mono).shared hb.typed.globals
      · refine ⟨?_, ?_⟩
        · rw [hcallees]
          exact hb
        · exact hcode.mono fun r hr => by
            cases r with
            | ok ending => exact ⟨hr.result, hr.callee⟩
            | error signal => exact hr
    · rcases hstarted u hnew with ⟨hframes, htasks, hsound⟩
      refine ⟨?_, hframes ▸ hsound⟩
      rw [view, hframes, htasks]
      exact Machine.safeAt_new hb.typed.globals
  main := by
    rw [callees_resume ht]
    exact (List.getElem?_append_left (List.getElem?_eq_some_iff.mp h.main).1).trans h.main

theorem sound_started (hwell : p.WellFormed) {op : Operation} {d : Nat} (hop : op.Fits p d) :
    forall u, u ∈ op.started p -> u.frames = [] ∧ u.tasks = .empty ∧
      u.code.Sound p 0 0 (u.Ends p) := by
  intro u hu
  cases op with
  | start fuel pos target f values =>
      rcases hop with ⟨⟨arity, owners, -, hf, -⟩, haccepted⟩
      cases List.mem_singleton.mp hu
      refine ⟨rfl, rfl, sound_called (hwell.sound_callCode fuel f values pos hf.1 haccepted 0) ?_⟩
      intro g hg
      cases hg
      rfl
  | _ => cases hu

theorem Safe.perform (h : s.Safe l.program) (htables : l.program.Tables) {t : Thread}
    (ht : t ∈ s.threads) {op : Operation} (hop : op.Fits l.program t.frames.length) :
    (op.perform l s.ended s.threads.length (s.view t)).EndsIn
      (fun _ b => b.machine.SafeAt l.program (PendingTask.Promised l.program
        (s.callees ++ (op.started l.program).map (·.callee))) (op.depth t.frames.length))
      (fun signal b => op.MayFail ∧ (exists e, signal = .error e) ∧
        b.machine.SafeAt l.program (PendingTask.Promised l.program
          (s.callees ++ (op.started l.program).map (·.callee))) t.frames.length) := by
  have hmachine := (h.threads t ht).machine.mono fun task htask =>
    (promised_mono htask :
      task.Promised l.program (s.callees ++ (op.started l.program).map (·.callee)))
  apply Operation.perform_safe htables hop hmachine
  · rintro fuel pos target f values rfl
    have htask := promised_start hop (l.program.function f).name s.callees
    rw [length_callees] at htask
    exact htask
  · exact fun task result htask hended => h.endsWell htask hended

theorem Safe.step (hwell : l.program.WellFormed) (h : s.Safe l.program) {s' : System σ}
    (hstep : s.Step l s') : s'.Safe l.program := by
  rcases hstep with ⟨number, hstep⟩
  rcases step_cases hstep with ⟨t, op, next, ht, hask, hend⟩
  have hmem := List.mem_of_getElem? ht
  have hsound := (h.threads t hmem).code
  rw [hask] at hsound
  rcases hsound with ⟨hop, hok, herror⟩
  have hperform := h.perform hwell.tables hmem hop
  have hstarted := sound_started hwell hop
  rcases hend with ⟨answer, b, hdone, rfl⟩ | ⟨signal, b, hfailed, rfl⟩
  · rw [hdone] at hperform
    refine h.resume ht (hperform.depth.symm ▸ hperform) ?_ hstarted
    exact hperform.depth.symm ▸ hok answer
  · rw [hfailed] at hperform
    rcases hperform with ⟨hmay, ⟨e, rfl⟩, hb⟩
    refine h.resume ht (hb.depth.symm ▸ hb) ?_ hstarted
    exact hb.depth.symm ▸ (herror hmay e).mono fun r hr => by
      cases r with
      | ok ending => exact hr.elim
      | error signal => exact hr

/-!
# Sessions
-/

theorem Safe.initial (hwell : p.WellFormed) (host : σ) : (System.initial p host).Safe p where
  globals := (Machine.typed_initial (ρ := Nat) hwell.tables host).globals
  threads := by
    intro t ht
    cases List.mem_singleton.mp ht
    have htyped := Machine.typed_initial (ρ := Nat) hwell.tables host
    refine ⟨Machine.safeAt_new htyped.globals, rfl, ?_, ?_⟩
    · intro f result hending
      cases hending
    · intro f hf
      cases hf
  main := rfl

theorem SafeThread.idle {t : Thread} (h : s.SafeThread p t) (hidle : t.Idle) :
    t.frames.length = 0 := by
  have hcode := h.code
  rcases hidle with ⟨ending, hdone⟩ | ⟨signal, hraised⟩
  · rw [hdone] at hcode
    exact hcode.1
  · rw [hraised] at hcode
    exact hcode.1

theorem Safe.launch (h : s.Safe p) {main : Thread} (hmain : s.threads[0]? = some main)
    (hidle : main.Idle) {code : Coroutine ThreadEnd}
    (hcode : main.callee = none -> code.Sound p 0 0 (main.Ends p)) :
    (s.launch main code).Safe p := by
  have hsafe := h.threads main (List.mem_of_getElem? hmain)
  have hempty := hsafe.idle hidle
  have hcallee : main.callee = none := by
    have hfirst := h.main
    rw [callees, List.getElem?_map, hmain] at hfirst
    exact Option.some.inj hfirst
  have hnone : forall u, u ∈ ([] : List Thread) -> u.frames = [] ∧ u.tasks = .empty ∧
      u.code.Sound p 0 0 (u.Ends p) := fun _ hu => nomatch hu
  have hresumed : (s.resume 0 main (s.view main) code []).Safe p := by
    apply h.resume hmain _ _ hnone
    · rw [List.map_nil, List.append_nil]
      exact hsafe.machine
    · exact hempty.symm ▸ hcode hcallee
  rw [System.resume, List.append_nil] at hresumed
  exact hresumed

theorem Reachable.safe (hwell : l.program.WellFormed) {host : σ} (h : Reachable l host s) :
    s.Safe l.program := by
  induction h with
  | initial => exact .initial hwell host
  | step _ hstep ih => exact ih.step hwell hstep
  | run fuel _ hmain hidle ih =>
      exact ih.launch hmain hidle fun hcallee => sound_ran hwell hcallee
  | call fuel args _ hmain hidle hf ih =>
      apply ih.launch hmain hidle
      intro hcallee
      apply sound_called (hwell.sound_callFunctionCode fuel ?_ args 0)
      · intro g hg
        rw [hcallee] at hg
        cases hg
      · exact hwell.globals _ hf

end System
end Scriptlet
