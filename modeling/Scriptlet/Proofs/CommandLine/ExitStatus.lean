import Scriptlet.CommandLine
import Scriptlet.Proofs.CommandLine.InputLines
import Scriptlet.Proofs.Evaluation.Fuel

/-!
# Exit status and output of a run

What a run command leaves behind follows from the file, the input and the way in which the
program is run: a failure of any phase or a divergence is status 1, a failed assertion of a
run that ends well is status 2, and standard output has the lines of the program and nothing
else.
-/

namespace Scriptlet
namespace CommandLine

def Shows (p : Program) (stdin : String) (o : Observation) : Prop :=
  exists fuel, (loaded p).observe fuel (Host.trimmedLines stdin) = some o

/-- The file holds a source without lexical errors that is parsed. -/
inductive Parses : Except FileError String -> Parsed -> Prop where
  | source {source : String} {p : Parsed} : (lex source).errors = [] ->
      parse preludeExterns (lex source).tokens = .ok p -> Parses (.ok source) p

/-- A phase before the run fails.  A program that is only run as it was parsed is not
optimized. -/
inductive FailsEarly (mode : RunMode) : Except FileError String -> Prop where
  | reading {e : FileError} : FailsEarly mode (.error e)
  | lexing {source : String} : (lex source).errors ≠ [] -> FailsEarly mode (.ok source)
  | parsing {source : String} {e : ParseError} : (lex source).errors = [] ->
      parse preludeExterns (lex source).tokens = .error e -> FailsEarly mode (.ok source)
  | optimizing {file : Except FileError String} {p : Parsed} {e : FoldError} : Parses file p ->
      mode ≠ .plain -> p.program.optimize Program.defaultQuota = .error e -> FailsEarly mode file

/-- The program whose run is reported: as it was parsed, or optimized. -/
inductive Reports (mode : RunMode) (file : Except FileError String) : Program -> Prop where
  | parsed {p : Parsed} : Parses file p -> mode = .plain -> Reports mode file p.program
  | optimized {p : Parsed} {r : Optimized} : Parses file p -> mode ≠ .plain ->
      p.program.optimize Program.defaultQuota = .ok r -> Reports mode file r.program

/-- The programs that are run.  A comparison also runs the one that was parsed. -/
def Runs (mode : RunMode) (file : Except FileError String) (p : Program) : Prop :=
  Reports mode file p ∨ mode = .compared ∧ Reports .plain file p

def Diverges (file : Except FileError String) (stdin : String) : Prop :=
  exists p q o o', Reports .plain file p ∧ Reports .compared file q ∧ Shows p stdin o ∧
    Shows q stdin o' ∧ o.divergence? o' ≠ none

inductive Fails (mode : RunMode) (file : Except FileError String) (stdin : String) : Prop where
  | early : FailsEarly mode file -> Fails mode file stdin
  | erring {p : Program} {o : Observation} {e : RuntimeError} : Runs mode file p ->
      Shows p stdin o -> o.outcome = .error e -> Fails mode file stdin
  | diverging : mode = .compared -> Diverges file stdin -> Fails mode file stdin

def FailsAssertion (mode : RunMode) (file : Except FileError String) (stdin : String) : Prop :=
  exists p o, Reports mode file p ∧ Shows p stdin o ∧ exists r, r ∈ o.reports ∧ r.passed = false

/-- What a transcript says of a run. -/
structure Verdict (mode : RunMode) (file : Except FileError String) (stdin : String)
    (t : Transcript) : Prop where
  failure : t.status.code = 1 <-> Fails mode file stdin
  assertion : t.status.code = 2 <-> ¬ Fails mode file stdin ∧ FailsAssertion mode file stdin
  success : t.status.code = 0 <-> ¬ Fails mode file stdin ∧ ¬ FailsAssertion mode file stdin
  silent : FailsEarly mode file -> t.stdout = ""
  output : forall p o, Reports mode file p -> Shows p stdin o -> t.stdout = ofLines o.lines

/-!
# One program, one observation
-/

section Unique

variable {mode : RunMode} {file : Except FileError String} {stdin : String}

theorem Shows.unique {p : Program} {o o' : Observation} (h : Shows p stdin o)
    (h' : Shows p stdin o') : o = o' := by
  obtain ⟨fuel, hfuel⟩ := h
  obtain ⟨fuel', hfuel'⟩ := h'
  exact observe_unique hfuel hfuel'

theorem Parses.unique {p q : Parsed} (h : Parses file p) (h' : Parses file q) : p = q := by
  cases h with
  | source _ hp =>
      cases h' with
      | source _ hq => exact Except.ok.inj (hp.symm.trans hq)

theorem Reports.unique {p q : Program} (h : Reports mode file p) (h' : Reports mode file q) :
    p = q := by
  cases h with
  | parsed hp hmode =>
      cases h' with
      | parsed hq _ => rw [hp.unique hq]
      | optimized _ hmode' _ => exact absurd hmode hmode'
  | optimized hp hmode hr =>
      cases h' with
      | parsed _ hmode' => exact absurd hmode' hmode
      | optimized hq _ hr' =>
          cases hp.unique hq
          cases hr.symm.trans hr'
          rfl

theorem Parses.not_early {p : Parsed} (h : Parses file p)
    (hoptimize : mode ≠ .plain -> exists r, p.program.optimize Program.defaultQuota = .ok r) :
    ¬ FailsEarly mode file := by
  intro hfails
  cases hfails with
  | reading => cases h
  | lexing hlex =>
      cases h with
      | source hlex' _ => exact hlex hlex'
  | parsing _ herror =>
      cases h with
      | source _ hparse => cases herror.symm.trans hparse
  | optimizing hp hmode herror =>
      cases h.unique hp
      obtain ⟨r, hr⟩ := hoptimize hmode
      cases herror.symm.trans hr

theorem Reports.not_early {p : Program} (h : Reports mode file p) : ¬ FailsEarly mode file := by
  cases h with
  | parsed hp hmode => exact hp.not_early fun hmode' => absurd hmode hmode'
  | optimized hp _ hr => exact hp.not_early fun _ => ⟨_, hr⟩

theorem Reports.observation {p q : Program} {o o' : Observation} (h : Reports mode file p)
    (ho : Shows p stdin o) (h' : Reports mode file q) (ho' : Shows q stdin o') : o' = o := by
  cases h.unique h'
  exact ho'.unique ho

end Unique

/-!
# Verdicts
-/

section Verdicts

variable {mode : RunMode} {file : Except FileError String} {stdin : String} {t : Transcript}
  {p : Program} {o : Observation}

theorem verdict_failed (h : Fails mode file stdin) (hstatus : t.status = .failure)
    (hsilent : FailsEarly mode file -> t.stdout = "")
    (houtput : forall p o, Reports mode file p -> Shows p stdin o -> t.stdout = ofLines o.lines) :
    Verdict mode file stdin t where
  failure := iff_of_true (by rw [hstatus]; rfl) h
  assertion := iff_of_false (by rw [hstatus]; decide) fun hnot => hnot.1 h
  success := iff_of_false (by rw [hstatus]; decide) fun hnot => hnot.1 h
  silent := hsilent
  output := houtput

theorem verdict_early (h : FailsEarly mode file) (hstatus : t.status = .failure)
    (hstdout : t.stdout = "") : Verdict mode file stdin t :=
  verdict_failed (.early h) hstatus (fun _ => hstdout)
    fun _ _ hreports _ => absurd h hreports.not_early

theorem ending_of_no_divergence {plain optimized : Observation}
    (h : plain.divergence? optimized = none) : plain.ending = optimized.ending := by
  unfold Observation.divergence? at h
  split at h
  · cases h
  · by_cases hending : plain.ending = optimized.ending
    · exact hending
    · rw [if_pos hending] at h
      cases h

theorem error_of_ending {plain : Observation} {e : RuntimeError}
    (h : plain.ending = o.ending) (herror : plain.outcome = .error e) :
    exists e', o.outcome = .error e' := by
  unfold Observation.ending at h
  rw [herror] at h
  cases houtcome : o.outcome with
  | error e' => exact ⟨e', rfl⟩
  | ok r =>
      rw [houtcome] at h
      cases h

theorem fails_iff (hreports : Reports mode file p) (hshows : Shows p stdin o)
    (hsame : mode = .compared -> ¬ Diverges file stdin) :
    Fails mode file stdin <-> exists e, o.outcome = .error e := by
  constructor
  · intro hfails
    cases hfails with
    | early hearly => exact absurd hearly hreports.not_early
    | diverging hmode hdiverges => exact absurd hdiverges (hsame hmode)
    | erring hruns hshows' herror =>
        cases hruns with
        | inl hreports' =>
            cases hreports.observation hshows hreports' hshows'
            exact ⟨_, herror⟩
        | inr hplain =>
            -- The run as parsed is reported by nobody, but it ends as the other one does.
            cases hplain.1
            refine error_of_ending (ending_of_no_divergence ?_) herror
            by_contra hdivergence
            exact hsame rfl ⟨_, _, _, _, hplain.2, hreports, hshows', hshows, hdivergence⟩
  · intro herror
    obtain ⟨e, he⟩ := herror
    exact .erring (.inl hreports) hshows he

theorem failsAssertion_iff (hreports : Reports mode file p) (hshows : Shows p stdin o) :
    FailsAssertion mode file stdin <-> o.failures.isEmpty = false := by
  have hfailures : o.failures.isEmpty = false <-> exists r, r ∈ o.reports ∧ r.passed = false := by
    simp [Observation.failures, List.isEmpty_eq_false_iff]
  rw [hfailures]
  constructor
  · intro hfails
    obtain ⟨q, o', hreports', hshows', hreport⟩ := hfails
    cases hreports.observation hshows hreports' hshows'
    exact hreport
  · intro hreport
    exact ⟨p, o, hreports, hshows, hreport⟩

theorem verdict_run {warnings : List Diagnostic} (hreports : Reports mode file p)
    (hshows : Shows p stdin o) (hsame : mode = .compared -> ¬ Diverges file stdin)
    (hstatus : t.status = (concludeRun warnings o).status)
    (hstdout : t.stdout = ofLines o.lines) : Verdict mode file stdin t := by
  have hfails := fails_iff hreports hshows hsame
  have hassertion := failsAssertion_iff hreports hshows
  have hcode : (t.status.code = 1 <-> Fails mode file stdin) ∧
      (t.status.code = 2 <-> ¬ Fails mode file stdin ∧ FailsAssertion mode file stdin) ∧
      (t.status.code = 0 <-> ¬ Fails mode file stdin ∧ ¬ FailsAssertion mode file stdin) := by
    rw [hfails, hassertion, hstatus, concludeRun]
    cases houtcome : o.outcome with
    | error e => simp [Conclusion.ofFailure, ExitStatus.code]
    | ok r => cases o.failures.isEmpty <;> simp [ExitStatus.code]
  exact
    { failure := hcode.1
      assertion := hcode.2.1
      success := hcode.2.2
      silent := fun hearly => absurd hearly hreports.not_early
      output := fun q o' hreports' hshows' => by
        cases hreports.observation hshows hreports' hshows'
        exact hstdout }

theorem verdict_diverged (hreports : Reports .compared file p) (hshows : Shows p stdin o)
    (h : Diverges file stdin) (hstatus : t.status = .failure)
    (hstdout : t.stdout = ofLines o.lines) : Verdict .compared file stdin t := by
  apply verdict_failed (.diverging rfl h) hstatus
  · intro hearly
    exact absurd hearly hreports.not_early
  · intro q o' hreports' hshows'
    cases hreports.observation hshows hreports' hshows'
    exact hstdout

end Verdicts

/-!
# Phases
-/

section Phases

variable {source : String}

theorem parses_or_fails (mode : RunMode) (source : String) :
    (exists p, parsed source = .ok p ∧ Parses (.ok source) p) ∨
      exists f, parsed source = .error f ∧ FailsEarly mode (.ok source) := by
  by_cases hlex : (lex source).errors = []
  · have htokens : Findings.tokens source = .ok (lex source).tokens := by
      simp [Findings.tokens, Lexed.isOk, hlex]
    rw [parsed, Findings.parsed, htokens]
    cases hparse : parse preludeExterns (lex source).tokens with
    | ok p => exact .inl ⟨p, by simp only [hparse], .source hlex hparse⟩
    | error e => exact .inr ⟨_, by simp only [hparse]; rfl, .parsing hlex hparse⟩
  · have htokens : exists f, Findings.tokens source = .error f := by
      simp [Findings.tokens, Lexed.isOk, hlex]
    obtain ⟨f, hf⟩ := htokens
    exact .inr ⟨f, by rw [parsed, Findings.parsed, hf], .lexing hlex⟩

theorem optimizes_or_fails (mode : RunMode) {p : Parsed} (h : Parses (.ok source) p)
    (hmode : mode ≠ .plain) :
    (exists r, optimized p = .ok r ∧ Reports mode (.ok source) r.program) ∨
      exists f, optimized p = .error f ∧ FailsEarly mode (.ok source) := by
  rw [optimized, Findings.optimized]
  cases hoptimize : p.program.optimize Program.defaultQuota with
  | ok r => exact .inl ⟨r, by simp only [Except.mapError], .optimized h hmode hoptimize⟩
  | error e => exact .inr ⟨_, by simp only [Except.mapError]; rfl, .optimizing h hmode hoptimize⟩

end Phases

/-!
# Runs
-/

section Runs

variable {fuel : Nat} {mode : RunMode} {source stdin : String} {c : Conclusion}

theorem shows_of_plainLines {p : Program} {o : Observation}
    (h : (loaded p).observe fuel (Host.plainLines stdin) = some o) : Shows p stdin o :=
  ⟨fuel, by rw [← observe_plainLines, h]⟩

variable (color : Bool) (path : String)

theorem ofFailure_verdict (f : Findings) (h : FailsEarly mode (.ok source)) :
    Verdict mode (.ok source) stdin
      ((Conclusion.ofFailure [] f).transcript color .human source path) :=
  verdict_early h rfl rfl

theorem concludeRun_stdout (warnings : List Diagnostic) (o : Observation) :
    ((concludeRun warnings o).transcript color .human source path).stdout = ofLines o.lines := by
  unfold concludeRun
  cases o.outcome <;> exact String.append_empty

theorem runProgram_verdict {p : Program} {warnings : List Diagnostic}
    (hreports : Reports mode (.ok source) p) (hmode : mode ≠ .compared)
    (h : runProgram fuel warnings p stdin = some c) :
    Verdict mode (.ok source) stdin (c.transcript color .human source path) := by
  obtain ⟨o, ho, rfl⟩ := Option.map_eq_some_iff.mp h
  exact verdict_run hreports ⟨fuel, ho⟩ (fun hcompared => absurd hcompared hmode) rfl
    (concludeRun_stdout color path warnings o)

theorem concludeComparison_verdict {p q : Program} {warnings : List Diagnostic}
    {plain folded : Observation} (hplain : Reports .plain (.ok source) p)
    (hreports : Reports .compared (.ok source) q) (hshows : Shows p stdin plain)
    (hshows' : Shows q stdin folded) :
    Verdict .compared (.ok source) stdin
      ((concludeComparison warnings plain folded).transcript color .human source path) := by
  unfold concludeComparison
  cases hdivergence : plain.divergence? folded with
  | some d =>
      have hdiverges : Diverges (.ok source) stdin :=
        ⟨p, q, plain, folded, hplain, hreports, hshows, hshows', by simp [hdivergence]⟩
      exact verdict_diverged hreports hshows' hdiverges rfl String.append_empty
  | none =>
      have hsame : ¬ Diverges (.ok source) stdin := by
        intro hdiverges
        obtain ⟨p', q', o, o', hp', hq', ho, ho', hdiffer⟩ := hdiverges
        cases hplain.observation hshows hp' ho
        cases hreports.observation hshows' hq' ho'
        exact hdiffer hdivergence
      exact verdict_run hreports hshows' (fun _ => hsame) rfl
        (concludeRun_stdout color path warnings folded)

theorem comparePrograms_verdict {p : Parsed} (hparses : Parses (.ok source) p)
    (h : comparePrograms fuel p stdin = some c) :
    Verdict .compared (.ok source) stdin (c.transcript color .human source path) := by
  obtain ⟨plain, hplain, h⟩ := Option.bind_eq_some_iff.mp h
  cases optimizes_or_fails .compared hparses (by decide) with
  | inl hoptimizes =>
      obtain ⟨r, hr, hreports⟩ := hoptimizes
      rw [hr] at h
      obtain ⟨folded, hfolded, h⟩ := Option.bind_eq_some_iff.mp h
      cases h
      exact concludeComparison_verdict color path (.parsed hparses rfl) hreports
        (shows_of_plainLines hplain) (shows_of_plainLines hfolded)
  | inr hfails =>
      obtain ⟨f, hf, hearly⟩ := hfails
      rw [hf] at h
      cases h
      exact ofFailure_verdict color path f hearly

theorem run_verdict (h : run fuel mode source stdin = some c) :
    Verdict mode (.ok source) stdin (c.transcript color .human source path) := by
  unfold run at h
  cases parses_or_fails mode source with
  | inr hfails =>
      obtain ⟨f, hf, hearly⟩ := hfails
      rw [hf] at h
      cases h
      exact ofFailure_verdict color path f hearly
  | inl hparses =>
      obtain ⟨p, hp, hparses⟩ := hparses
      rw [hp] at h
      cases mode with
      | compared => exact comparePrograms_verdict color path hparses h
      | plain => exact runProgram_verdict color path (.parsed hparses rfl) (by decide) h
      | optimized =>
          cases optimizes_or_fails .optimized hparses (by decide) with
          | inl hoptimizes =>
              obtain ⟨r, hr, hreports⟩ := hoptimizes
              simp only [runParsed, hr] at h
              exact runProgram_verdict color path hreports (by decide) h
          | inr hfails =>
              obtain ⟨f, hf, hearly⟩ := hfails
              simp only [runParsed, hf] at h
              cases h
              exact ofFailure_verdict color path f hearly

/-!
## Runs that end
-/

theorem Shows.eventually {p : Program} {o : Observation} (h : Shows p stdin o) :
    exists enough, forall fuel, enough ≤ fuel ->
      (loaded p).observe fuel (Host.trimmedLines stdin) = some o ∧
        (loaded p).observe fuel (Host.plainLines stdin) = some o := by
  obtain ⟨enough, henough⟩ := h
  refine ⟨enough, fun fuel hfuel => ?_⟩
  have hshown := observe_mono hfuel henough
  exact ⟨hshown, by rw [observe_plainLines, hshown]⟩

theorem runProgram_ends {p : Program} (warnings : List Diagnostic)
    (hends : exists o, Shows p stdin o) :
    exists enough c, forall fuel, enough ≤ fuel -> runProgram fuel warnings p stdin = some c := by
  obtain ⟨o, hshows⟩ := hends
  obtain ⟨enough, henough⟩ := hshows.eventually
  refine ⟨enough, concludeRun warnings o, fun fuel hfuel => ?_⟩
  rw [runProgram, (henough fuel hfuel).1, Option.map_some]

theorem comparePrograms_ends {p : Parsed} (hparses : Parses (.ok source) p)
    (hends : forall q, Runs .compared (.ok source) q -> exists o, Shows q stdin o) :
    exists enough c, forall fuel, enough ≤ fuel -> comparePrograms fuel p stdin = some c := by
  obtain ⟨plain, hplain⟩ := hends p.program (.inr ⟨rfl, .parsed hparses rfl⟩)
  obtain ⟨enough, henough⟩ := hplain.eventually
  cases optimizes_or_fails .compared hparses (by decide) with
  | inl hoptimizes =>
      obtain ⟨r, hr, hreports⟩ := hoptimizes
      obtain ⟨folded, hfolded⟩ := hends r.program (.inl hreports)
      obtain ⟨enough', henough'⟩ := hfolded.eventually
      -- One amount of fuel is for both runs.
      refine ⟨max enough enough', concludeComparison p.warningDiagnostics plain folded,
        fun fuel hfuel => ?_⟩
      have hplain := (henough fuel (Nat.le_trans (Nat.le_max_left _ _) hfuel)).2
      have hfolded := (henough' fuel (Nat.le_trans (Nat.le_max_right _ _) hfuel)).2
      simp [comparePrograms, hplain, hr, hfolded]
  | inr hfails =>
      obtain ⟨f, hf, _⟩ := hfails
      refine ⟨enough, .ofFailure [] f, fun fuel hfuel => ?_⟩
      simp [comparePrograms, (henough fuel hfuel).2, hf]

theorem run_ends
    (hends : forall p, Runs mode (.ok source) p -> exists o, Shows p stdin o) :
    exists enough c, forall fuel, enough ≤ fuel -> run fuel mode source stdin = some c := by
  unfold run
  cases parses_or_fails mode source with
  | inr hfails =>
      obtain ⟨f, hf, _⟩ := hfails
      exact ⟨0, .ofFailure [] f, fun _ _ => by rw [hf]⟩
  | inl hparses =>
      obtain ⟨p, hp, hparses⟩ := hparses
      rw [hp]
      cases mode with
      | compared => exact comparePrograms_ends hparses hends
      | plain => exact runProgram_ends _ (hends _ (.inl (.parsed hparses rfl)))
      | optimized =>
          cases optimizes_or_fails .optimized hparses (by decide) with
          | inl hoptimizes =>
              obtain ⟨r, hr, hreports⟩ := hoptimizes
              simp only [runParsed, hr]
              exact runProgram_ends _ (hends _ (.inl hreports))
          | inr hfails =>
              obtain ⟨f, hf, _⟩ := hfails
              simp only [runParsed, hf]
              exact ⟨0, .ofFailure [] f, fun _ _ => rfl⟩

/-- A comparison that finds no divergence concludes what the run of the optimized program
does. -/
theorem run_optimized_of_compared (h : run fuel .compared source stdin = some c)
    (hsame : ¬ Diverges (.ok source) stdin) : run fuel .optimized source stdin = some c := by
  unfold run at h ⊢
  cases parses_or_fails .compared source with
  | inr hfails =>
      obtain ⟨f, hf, _⟩ := hfails
      rw [hf] at h ⊢
      exact h
  | inl hparses =>
      obtain ⟨p, hp, hparses⟩ := hparses
      rw [hp] at h ⊢
      obtain ⟨plain, hplain, h⟩ := Option.bind_eq_some_iff.mp h
      cases optimizes_or_fails .compared hparses (by decide) with
      | inr hfails =>
          obtain ⟨f, hf, _⟩ := hfails
          simp only [runParsed, hf] at h ⊢
          exact h
      | inl hoptimizes =>
          obtain ⟨r, hr, hreports⟩ := hoptimizes
          simp only [runParsed, hr] at h ⊢
          obtain ⟨folded, hfolded, h⟩ := Option.bind_eq_some_iff.mp h
          have hnone : plain.divergence? folded = none := by
            by_contra hdivergence
            exact hsame ⟨_, _, _, _, .parsed hparses rfl, hreports, shows_of_plainLines hplain,
              shows_of_plainLines hfolded, hdivergence⟩
          rw [concludeComparison, hnone] at h
          cases h
          rw [runProgram, ← observe_plainLines, hfolded, Option.map_some]

end Runs

/-!
# Run commands
-/

def RunMode.flags : RunMode -> List String
  | .optimized => []
  | .plain => ["--no-optimize"]
  | .compared => ["--compare"]

def IsArgument (word : String) : Prop :=
  word ≠ "--format" ∧ isFormatOption word = false ∧ word ≠ "--json" ∧ isLogOption word = false

theorem takeOptions_arguments {words : List String}
    (h : forall word, word ∈ words -> IsArgument word) :
    takeOptions .human words = .ok (.human, words) := by
  induction words with
  | nil => rfl
  | cons word rest ih =>
      obtain ⟨⟨hformat, hvalue, hjson, hlog⟩, hrest⟩ := List.forall_mem_cons.mp h
      unfold takeOptions
      rw [if_neg hformat, hvalue, if_neg Bool.false_ne_true, if_neg hjson, hlog,
        if_neg Bool.false_ne_true, ih hrest]
      rfl

theorem isArgument_path {path : String} (h : path.toList.head? ≠ some '-') : IsArgument path := by
  have hword : forall word : String, word.toList.head? = some '-' -> path ≠ word := by
    intro word hdash hword
    rw [hword] at h
    exact h hdash
  refine ⟨hword _ rfl, Bool.eq_false_iff.mpr fun hbegins => ?_, hword _ rfl, ?_⟩
  · obtain ⟨rest, hrest⟩ := List.isPrefixOf_iff_prefix.mp hbegins
    exact h (hrest ▸ rfl)
  · simp [isLogOption, hword "-v" rfl, hword "--verbose" rfl, hword "-q" rfl, hword "--quiet" rfl]

theorem read_flags (mode : RunMode) (rest : List String) :
    RunArguments.none.read (mode.flags ++ rest) =
      RunArguments.read ⟨mode ≠ .plain, mode = .compared, none⟩ rest := by
  cases mode <;> rfl

theorem runCommand_flags (mode : RunMode) {path : String} (h : path.toList.head? ≠ some '-') :
    runCommand (mode.flags ++ [path]) = .ok (.run mode path) := by
  have hargument := isArgument_path h
  rw [runCommand, read_flags, RunArguments.read, if_neg, if_neg, if_neg h]
  · cases mode <;> rfl
  · rintro rfl
    exact h rfl
  · rintro rfl
    exact h rfl

theorem ofArguments_run (mode : RunMode) (path : String) (h : path.toList.head? ≠ some '-') :
    Request.ofArguments ("run" :: (mode.flags ++ [path])) = .ok ⟨.human, .run mode path⟩ := by
  have harguments : forall word, word ∈ "run" :: (mode.flags ++ [path]) -> IsArgument word := by
    have hrun : IsArgument "run" := by unfold IsArgument; decide
    have hflags : forall word, word ∈ mode.flags -> IsArgument word := by
      unfold IsArgument
      cases mode <;> decide
    simp only [List.mem_cons, List.mem_append, List.not_mem_nil, or_false]
    rintro word (rfl | hword | rfl)
    · exact hrun
    · exact hflags word hword
    · exact isArgument_path h
  have hcommand : Command.ofArguments ("run" :: (mode.flags ++ [path])) =
      runCommand (mode.flags ++ [path]) := rfl
  rw [Request.ofArguments, takeOptions_arguments harguments]
  show (Command.ofArguments ("run" :: (mode.flags ++ [path]))).map _ = _
  rw [hcommand, runCommand_flags mode h]
  rfl

theorem perform_run {fuel : Nat} {s : Surroundings} {args : List String} {mode : RunMode}
    {path : String} (h : Request.ofArguments args = .ok ⟨.human, .run mode path⟩) :
    perform fuel s args =
      s.onSource .human path fun source => run fuel mode source s.stdin := by
  rw [perform, h]
  rfl

/-- A run command whose programs end leaves a transcript, whatever the fuel beyond some
amount.  Its status and output are those of its verdict, and a comparison that finds no
divergence leaves what the run of the optimized program leaves. -/
theorem run_status_and_output (s : Surroundings) {args : List String} {mode : RunMode}
    {path : String} (hargs : Request.ofArguments args = .ok ⟨.human, .run mode path⟩)
    (hends : forall p, Runs mode (s.file path) p -> exists o, Shows p s.stdin o) :
    exists enough t, (forall fuel, enough ≤ fuel -> perform fuel s args = some t) ∧
      Verdict mode (s.file path) s.stdin t ∧
      (mode = .compared -> ¬ Diverges (s.file path) s.stdin -> forall args',
        Request.ofArguments args' = .ok ⟨.human, .run .optimized path⟩ ->
          forall fuel, enough ≤ fuel -> perform fuel s args' = some t) := by
  cases hfile : s.file path with
  | error e =>
      refine ⟨0, unreadable s.color path e, ?_, verdict_early .reading rfl rfl, ?_⟩
      · intro fuel _
        rw [perform_run hargs, Surroundings.onSource, hfile]
      · intro _ _ args' hargs' fuel _
        rw [perform_run hargs', Surroundings.onSource, hfile]
  | ok source =>
      rw [hfile] at hends
      obtain ⟨enough, c, henough⟩ := run_ends hends
      refine ⟨enough, c.transcript s.color .human source path, ?_,
        run_verdict s.color path (henough enough (Nat.le_refl enough)), ?_⟩
      · intro fuel hfuel
        simp only [perform_run hargs, Surroundings.onSource, hfile, henough fuel hfuel,
          Option.map_some]
      · intro hmode hsame args' hargs' fuel hfuel
        cases hmode
        have hrun := run_optimized_of_compared (henough fuel hfuel) hsame
        simp only [perform_run hargs', Surroundings.onSource, hfile, hrun, Option.map_some]

section Echo

def echoSource : String :=
  "writeLn(readInt())\nassert(false)"

def echoTokens : List Token :=
  [{ pos := ⟨1, 1⟩, kind := .name, text := "writeLn" },
    { pos := ⟨1, 8⟩, kind := .openParen, text := "(" },
    { pos := ⟨1, 9⟩, kind := .name, text := "readInt" },
    { pos := ⟨1, 16⟩, kind := .openParen, text := "(" },
    { pos := ⟨1, 17⟩, kind := .closeParen, text := ")" },
    { pos := ⟨1, 18⟩, kind := .closeParen, text := ")" },
    { pos := ⟨2, 1⟩, kind := .name, text := "assert" },
    { pos := ⟨2, 7⟩, kind := .openParen, text := "(" },
    { pos := ⟨2, 8⟩, kind := .boolLit, text := "false" },
    { pos := ⟨2, 13⟩, kind := .closeParen, text := ")" },
    { pos := .endOfInput, kind := .endOfInput, text := "" }]

def echoProgram (pi : Float) : Program :=
  { root := [.call ⟨1, 1⟩ 0 [.call ⟨1, 9⟩ 3 []], .call ⟨2, 1⟩ 1 [.literal ⟨2, 8⟩ (.bool false)]]
    constants := [{ name := "pi", type := .float, value := .float pi }]
    vars :=
      [{ name := "value", type := .any, owner := some 0, slot := 0, default := none },
        { name := "condition", type := .bool, owner := some 1, slot := 0, default := none },
        { name := "expected", type := .any, owner := some 2, slot := 0, default := none },
        { name := "actual", type := .any, owner := some 2, slot := 1, default := none }]
    functions :=
      [{ name := "writeLn", params := [⟨0, .any⟩], result := .none, body := none, localCount := 1 },
        { name := "assert", params := [⟨1, .bool⟩], result := .none, body := none, localCount := 1 },
        { name := "assertEquals", params := [⟨2, .any⟩, ⟨3, .any⟩], result := .none, body := none
          localCount := 2 },
        { name := "readInt", params := [], result := .int, body := none, localCount := 0 }]
    globalCount := 0
    globals := [.function 0, .function 1, .function 2, .function 3, .const 0] }

theorem lex_echo : lex echoSource = { tokens := echoTokens, errors := [] } := by
  decide +kernel

theorem parse_echo (pi : Float) :
    parse (Prelude.Builtin.all.map Prelude.Builtin.declaration ++ [.const "pi" .float (.float pi)] :
      List (Extern (Native Host))) echoTokens =
        .ok { program := echoProgram pi, warnings := [] } := by
  -- The constant is left open, so that it is not computed here.
  cbv

theorem optimize_echo (pi : Float) : (echoProgram pi).optimize Program.defaultQuota =
    .ok { program := echoProgram pi
          stats := { foldedExprs := 0, elidedCalls := 0, removedBlocks := 0 } } := by
  rfl

def echoObservation : Observation :=
  { lines := ["5"]
    reports := [{ passed := false, pos := ⟨2, 1⟩, message := "assertion failed" }]
    outcome := .ok { result := none, leaked := [] } }

theorem shows_echo (pi : Float) : Shows (echoProgram pi) "5\r\n" echoObservation :=
  ⟨1, rfl⟩

theorem reports_echo (mode : RunMode) :
    Reports mode (.ok echoSource) (echoProgram Prelude.pi) := by
  have hparses : Parses (.ok echoSource)
      { program := echoProgram Prelude.pi, warnings := [] } := by
    refine .source (by rw [lex_echo]) ?_
    rw [lex_echo]
    exact parse_echo Prelude.pi
  by_cases hmode : mode = .plain
  · exact .parsed hparses hmode
  · exact .optimized hparses hmode (optimize_echo _)

def echoSurroundings : Surroundings :=
  { color := false, stdin := "5\r\n", file := fun _ => .ok echoSource }

theorem ends_echo (p : Program) (h : Runs .compared (.ok echoSource) p) :
    exists o, Shows p "5\r\n" o := by
  have hp : p = echoProgram Prelude.pi := by
    cases h with
    | inl hreports => exact hreports.unique (reports_echo .compared)
    | inr hplain => exact hplain.2.unique (reports_echo .plain)
  rw [hp]
  exact ⟨echoObservation, shows_echo _⟩

theorem run_status_and_output_echo :
    Request.ofArguments ["run", "--compare", "echo.tl"] =
      .ok ⟨.human, .run .compared "echo.tl"⟩ ∧
    (forall p, Runs .compared (.ok echoSource) p -> exists o, Shows p "5\r\n" o) ∧
    exists enough t, t.stdout = "5\n" ∧ t.status.code = 2 ∧ forall fuel, enough ≤ fuel ->
      perform fuel echoSurroundings ["run", "--compare", "echo.tl"] = some t ∧
      perform fuel echoSurroundings ["run", "echo.tl"] = some t := by
  have hargs := ofArguments_run .compared "echo.tl" (by decide)
  have hargs' := ofArguments_run .optimized "echo.tl" (by decide)
  refine ⟨hargs, ends_echo, ?_⟩
  obtain ⟨enough, t, hperform, hverdict, hdefault⟩ :=
    run_status_and_output echoSurroundings hargs ends_echo
  have hverdict : Verdict .compared (.ok echoSource) "5\r\n" t := hverdict
  have hshows := shows_echo Prelude.pi
  have hsame : ¬ Diverges (.ok echoSource) "5\r\n" := by
    intro hdiverges
    obtain ⟨p, q, o, o', hp, hq, ho, ho', hdiffer⟩ := hdiverges
    cases (reports_echo .plain).observation hshows hp ho
    cases (reports_echo .compared).observation hshows hq ho'
    exact hdiffer (by decide)
  refine ⟨enough, t, hverdict.output _ _ (reports_echo .compared) hshows, ?_, ?_⟩
  · rw [hverdict.assertion, fails_iff (reports_echo .compared) hshows fun _ => hsame,
      failsAssertion_iff (reports_echo .compared) hshows]
    constructor
    · intro herror
      cases herror with
      | intro e he => cases he
    · rfl
  · intro fuel hfuel
    exact ⟨hperform fuel hfuel, hdefault rfl hsame _ hargs' fuel hfuel⟩

end Echo

end CommandLine
end Scriptlet
