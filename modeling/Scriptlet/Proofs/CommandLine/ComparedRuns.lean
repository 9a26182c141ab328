import Scriptlet.CommandLine.Execution
import Scriptlet.Proofs.Folding.OptimizedRuns

/-!
# What a comparison of two runs sees

Two runs agree when they wrote the same lines, ended alike and failed the same assertions, in
the same order.  A comparison names a divergence exactly when they do not, and the first one
that there is.  How a run ended is told by its unawaited calls or by the message of its error;
the value that it returned is not a part of that.
-/

namespace Scriptlet

/-- Both runs came to their end with as many calls that nobody awaited, or both failed with
one message. -/
inductive EndAlike : Except RuntimeError RunReport -> Except RuntimeError RunReport -> Prop where
  | completed {r r' : RunReport} : r.leaked.length = r'.leaked.length -> EndAlike (.ok r) (.ok r')
  | failed {e e' : RuntimeError} : e.message = e'.message -> EndAlike (.error e) (.error e')

namespace Observation

structure Agree (plain optimized : Observation) : Prop where
  lines : plain.lines = optimized.lines
  outcome : EndAlike plain.outcome optimized.outcome
  failures : plain.failedAt = optimized.failedAt

/-- Before the place, counted from zero, the lines are the same, and at the place they are
not. -/
structure DifferFirst (index : Nat) (xs ys : List String) : Prop where
  before : xs.take index = ys.take index
  differs : xs[index]? ≠ ys[index]?

inductive Names (plain optimized : Observation) : Divergence -> Prop where
  | line {index : Nat} : DifferFirst index plain.lines optimized.lines ->
      Names plain optimized (.line index plain.lines[index]? optimized.lines[index]?)
  | ending : plain.lines = optimized.lines -> ¬ EndAlike plain.outcome optimized.outcome ->
      Names plain optimized (.ending plain.ending optimized.ending)
  | assertions : plain.lines = optimized.lines -> EndAlike plain.outcome optimized.outcome ->
      plain.failedAt ≠ optimized.failedAt ->
      Names plain optimized (.assertions plain.failedAt.length optimized.failedAt.length)

/-!
# Lines
-/

theorem DifferFirst.ne {index : Nat} {xs ys : List String} (h : DifferFirst index xs ys) :
    xs ≠ ys :=
  fun hsame => h.differs (congrArg (·[index]?) hsame)

theorem DifferFirst.cons {index : Nat} {xs ys : List String} (h : DifferFirst index xs ys)
    (x : String) : DifferFirst (index + 1) (x :: xs) (x :: ys) where
  before := by rw [List.take_succ_cons, List.take_succ_cons, h.before]
  differs := by
    rw [List.getElem?_cons_succ, List.getElem?_cons_succ]
    exact h.differs

theorem differFirst_zero {xs ys : List String} (h : xs[0]? ≠ ys[0]?) : DifferFirst 0 xs ys :=
  ⟨rfl, h⟩

theorem firstDifference_eq (start : Nat) (xs ys : List String) :
    (firstDifference start xs ys = none ∧ xs = ys) ∨
      exists index, DifferFirst index xs ys ∧
        firstDifference start xs ys = some (.line (start + index) xs[index]? ys[index]?) := by
  fun_induction firstDifference start xs ys with
  | case1 start => exact .inl ⟨rfl, rfl⟩
  | case2 start x xs => exact .inr ⟨0, differFirst_zero nofun, rfl⟩
  | case3 start y ys => exact .inr ⟨0, differFirst_zero nofun, rfl⟩
  | case4 start xs y ys ih =>
      rcases ih with ⟨hnone, rfl⟩ | ⟨index, hfirst, hsome⟩
      · exact .inl ⟨hnone, rfl⟩
      · refine .inr ⟨index + 1, hfirst.cons y, ?_⟩
        rw [hsome, Nat.add_right_comm]
        rfl
  | case5 start x xs y ys hne =>
      exact .inr ⟨0, differFirst_zero fun h => hne (Option.some.inj h), rfl⟩

/-!
# Runs
-/

section Runs

variable {plain optimized : Observation}

theorem ending_eq_iff :
    plain.ending = optimized.ending <-> EndAlike plain.outcome optimized.outcome := by
  unfold ending
  cases plain.outcome with
  | ok r =>
      cases optimized.outcome with
      | ok r' =>
          refine ⟨fun h => .completed (Ending.completed.inj h), fun h => ?_⟩
          cases h with
          | completed hleaked => exact congrArg _ hleaked
      | error e' => exact iff_of_false nofun nofun
  | error e =>
      cases optimized.outcome with
      | ok r' => exact iff_of_false nofun nofun
      | error e' =>
          refine ⟨fun h => .failed (Ending.failed.inj h), fun h => ?_⟩
          cases h with
          | failed hmessage => exact congrArg _ hmessage

theorem Agree.refl (o : Observation) : o.Agree o where
  lines := rfl
  outcome := ending_eq_iff.mp rfl
  failures := rfl

theorem Names.not_agree {d : Divergence} (h : plain.Names optimized d) :
    ¬ plain.Agree optimized := by
  intro hagree
  cases h with
  | line hfirst => exact hfirst.ne hagree.lines
  | ending _ houtcome => exact houtcome hagree.outcome
  | assertions _ _ hfailures => exact hfailures hagree.failures

/-- A comparison finds that the runs agree, or it names their first difference. -/
theorem divergence?_cases (plain optimized : Observation) :
    (plain.divergence? optimized = none ∧ plain.Agree optimized) ∨
      exists d, plain.divergence? optimized = some d ∧ plain.Names optimized d := by
  unfold divergence?
  rcases firstDifference_eq 0 plain.lines optimized.lines with ⟨hnone, hlines⟩ |
    ⟨index, hfirst, hsome⟩
  · rw [hnone]
    by_cases hending : plain.ending = optimized.ending
    · have houtcome := ending_eq_iff.mp hending
      by_cases hfailures : plain.failedAt = optimized.failedAt
      · refine .inl ⟨?_, hlines, houtcome, hfailures⟩
        simp only [hending, hfailures, ne_eq, not_true_eq_false, if_false]
      · refine .inr ⟨_, ?_, .assertions hlines houtcome hfailures⟩
        simp only [hending, hfailures, ne_eq, not_true_eq_false, not_false_eq_true, if_false,
          if_true]
    · refine .inr ⟨_, ?_, .ending hlines fun h => hending (ending_eq_iff.mpr h)⟩
      simp only [hending, ne_eq, not_false_eq_true, if_true]
  · rw [hsome, Nat.zero_add]
    exact .inr ⟨_, rfl, .line hfirst⟩

theorem divergence?_eq_none_iff :
    plain.divergence? optimized = none <-> plain.Agree optimized := by
  rcases divergence?_cases plain optimized with ⟨hnone, hagree⟩ | ⟨d, hsome, hnames⟩
  · exact iff_of_true hnone hagree
  · rw [hsome]
    exact iff_of_false nofun hnames.not_agree

theorem agree_of_results (plain : Observation) {r : RunReport} (h : plain.outcome = .ok r)
    (value : Option Value) :
    plain.Agree { plain with outcome := .ok { r with result := value } } where
  lines := rfl
  outcome := h ▸ .completed rfl
  failures := rfl

end Runs
end Observation

/-!
# The command
-/

namespace CommandLine

structure ConcludesComparison (warnings : List Diagnostic) (plain optimized : Observation)
    (c : Conclusion) : Prop where
  /-- The optimized run is reported as if it had been the only one. -/
  agreeing : plain.Agree optimized -> c = concludeRun warnings optimized
  /-- The first difference is reported, behind the lines of the optimized run. -/
  diverging : ¬ plain.Agree optimized -> exists d, plain.Names optimized d ∧
    c.lines = optimized.lines ∧ c.findings.diagnostics = warnings ++ [d.diagnostic] ∧
    d.diagnostic.code = some "O0003" ∧ c.status = .failure

theorem concludes_comparison (warnings : List Diagnostic) (plain optimized : Observation) :
    ConcludesComparison warnings plain optimized
      (concludeComparison warnings plain optimized) := by
  rcases plain.divergence?_cases optimized with ⟨hnone, hagree⟩ | ⟨d, hsome, hnames⟩
  · rw [concludeComparison, hnone]
    exact ⟨fun _ => rfl, fun hnot => absurd hagree hnot⟩
  · rw [concludeComparison, hsome]
    refine ⟨fun hagree => absurd hagree hnames.not_agree, fun _ => ?_⟩
    exact ⟨d, hnames, rfl, rfl, rfl, rfl⟩

end CommandLine

/-!
# Predictable programs
-/

theorem observe_alike {l l' : Loaded Host} (hshell : l.program.SameShell l'.program)
    {input : List String} (h : StepsAlike l l' (.initial l.program (.ofInput input)))
    {fuel fuel' : Nat} {o o' : Observation} (ho : l.observe fuel input = some o)
    (ho' : l'.observe fuel' input = some o') : o' = o := by
  unfold Loaded.observe at ho
  have hended : l.run fuel (.initial l.program (.ofInput input)) ≠ .unfinished := by
    intro hunfinished
    rw [hunfinished] at ho
    cases ho
  rcases (h.run _).mpr ⟨hended, fuel, rfl⟩ with ⟨-, enough, hrun⟩
  have hobserved : l'.observe enough input = some o := by
    rw [Loaded.observe, hshell.initial, hrun]
    exact ho
  exact observe_unique ho' hobserved

namespace CommandLine

theorem optimize_of_optimized {p : Parsed} {r : Optimized} (h : optimized p = .ok r) :
    p.program.optimize Program.defaultQuota = .ok r := by
  unfold optimized Findings.optimized at h
  cases hoptimize : p.program.optimize Program.defaultQuota with
  | ok r' =>
      rw [hoptimize] at h
      cases h
      rfl
  | error e =>
      rw [hoptimize] at h
      cases h

/-- The comparison of a predictable program finds no divergence: it ends with the findings of
the optimizer, or as a run of the program itself. -/
theorem comparePrograms_predictable {p : Parsed} (hp : p.program.Predictable) {fuel : Nat}
    {stdin : String} {c : Conclusion} (h : comparePrograms fuel p stdin = some c) :
    (exists f, optimized p = .error f ∧ c = .ofFailure [] f) ∨
      exists o, (loaded p.program).observe fuel (Host.plainLines stdin) = some o ∧
        c = concludeRun p.warningDiagnostics o := by
  simp only [comparePrograms, Option.bind_eq_bind, Option.bind_eq_some_iff] at h
  rcases h with ⟨plain, hplain, h⟩
  cases hoptimized : optimized p with
  | error f =>
      rw [hoptimized] at h
      cases h
      exact .inl ⟨f, rfl, rfl⟩
  | ok r =>
      simp only [hoptimized, Option.bind_eq_some_iff] at h
      rcases h with ⟨folded, hfolded, h⟩
      have hoptimize := optimize_of_optimized hoptimized
      rcases optimize_rebuilds hp hoptimize with ⟨least, hrebuilds⟩
      have hl : (loaded p.program).program = p.program := rfl
      have hl' : (loaded r.program).program = r.program := rfl
      have halike := (optimize_runs_alike hp hoptimize hl hl' rfl
        (.ofInput (Host.plainLines stdin)) _).2 .start
      have hsame := observe_alike hrebuilds.shell halike hplain hfolded
      cases hsame
      cases h
      have hconcludes := concludes_comparison p.warningDiagnostics plain plain
      exact .inr ⟨plain, hplain, hconcludes.agreeing (.refl plain)⟩

end CommandLine
end Scriptlet
