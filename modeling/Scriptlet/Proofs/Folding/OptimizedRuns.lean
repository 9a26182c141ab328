import Scriptlet.Proofs.Evaluation.Sessions
import Scriptlet.Proofs.Folding.FoldedRuns

/-!
# Sessions of optimized programs

A session of an optimized predictable program goes step by step as one of the program itself:
the machines between the steps are the same, and each step ends alike, with the same value or
with the same error at the same place.  The program itself may need more fuel, by what the
calls at compile time were given.
-/

namespace Scriptlet

/-!
# Runs with enough fuel
-/

def EndsAs {σ α : Type} (x : Nat -> Eval σ α) (m : Machine σ)
    (outcome : Outcome RuntimeError (Machine σ) α) : Prop :=
  outcome ≠ .unfinished ∧ exists fuel, x fuel m = outcome

section EndsAs

variable {σ α : Type} {x y : Nat -> Eval σ α} {m : Machine σ}

theorem Outcome.Matches.eq_of_ended {ε τ : Type} {a b : Outcome ε τ α}
    (h : a.Matches Eq Eq True b) (hended : a ≠ .unfinished) : b = a := by
  cases h with
  | done hsame => rw [hsame]
  | failed he hsame => rw [he, hsame]
  | unfinished => rfl
  | cut _ => exact absurd rfl hended

theorem EndsAs.matched {outcome : Outcome RuntimeError (Machine σ) α} (h : EndsAs x m outcome)
    (more : Nat) (hxy : forall fuel, (x fuel m).Matches Eq Eq True (y (fuel + more) m)) :
    EndsAs y m outcome := by
  rcases h with ⟨hended, fuel, rfl⟩
  exact ⟨hended, fuel + more, (hxy fuel).eq_of_ended hended⟩

theorem endsAs_iff {more : Nat} (h : forall fuel, (x fuel m).Matches Eq Eq True (y fuel m))
    (hback : forall fuel, (y fuel m).Matches Eq Eq True (x (fuel + more) m))
    (outcome : Outcome RuntimeError (Machine σ) α) : EndsAs y m outcome <-> EndsAs x m outcome :=
  ⟨fun hends => hends.matched more hback, fun hends => hends.matched 0 h⟩

theorem endsAs_of_state {fuel : Nat} {m' : Machine σ} (h : (x fuel m).state? = some m') :
    EndsAs x m (x fuel m) := by
  refine ⟨?_, fuel, rfl⟩
  intro hunfinished
  rw [hunfinished] at h
  cases h

end EndsAs

/-!
# Steps of a session
-/

section Steps

variable {σ : Type} {loose : Prop}

theorem matches_bind_behind {α β : Type} {x y : Eval σ α} {m : Machine σ}
    (h : (x m).Matches Eq Eq loose (y m)) (f : α -> Eval σ β) :
    ((x >>= f) m).Matches Eq Eq loose ((y >>= f) m) := by
  rw [Run.bind_apply, Run.bind_apply]
  generalize x m = first at h
  generalize y m = second at h
  cases h with
  | done hsame =>
      cases hsame
      exact .refl _
  | failed he hsame => exact .failed he hsame
  | unfinished => exact .unfinished
  | cut hloose => exact .cut hloose

variable {l l' : Loaded σ} (h : l.program.SameShell l'.program) {fuel fuel' : Nat}
  {m : Machine σ}

include h

theorem matches_run
    (hroot : (Eval.stmts l.program fuel (l.invoke fuel) l.program.root m).Matches Eq Eq loose
      (Eval.stmts l'.program fuel' (l'.invoke fuel') l'.program.root m)) :
    (l.run fuel m).Matches Eq Eq loose (l'.run fuel' m) := by
  have hleaks : Loaded.takeLeaks l'.program =
      (Loaded.takeLeaks l.program : Eval σ (List LeakedTask)) := by
    funext m
    rw [Loaded.takeLeaks, h.variableName, ← Loaded.takeLeaks]
  rw [Loaded.run, Loaded.run, hleaks]
  exact matches_bind_behind hroot _

theorem Program.SameShell.initial (host : σ) :
    Machine.initial l'.program host = (Machine.initial l.program host : Machine σ) := by
  simp only [Machine.initial, Machine.initialGlobals, h.globalCount, h.vars]

theorem checkArguments_shell (f : FunId) (pos : Pos) :
    forall (params : List Param) (values : List Value),
      Loaded.checkArguments l'.program f pos params values =
        (Loaded.checkArguments l.program f pos params values : Eval σ Unit)
  | param :: params, value :: values => by
      rw [Loaded.checkArguments, Loaded.checkArguments, Eval.checkArgument, Eval.checkArgument,
        h.variableAt, h.name, checkArguments_shell f pos params values]
  | [], _ => rfl
  | _ :: _, [] => rfl

theorem matches_callFunction {f : FunId} {args : List Value}
    (hinvoke : forall pos m, m.Shaped l.program ->
      (l.invoke fuel f args pos m).Matches Eq Eq loose (l'.invoke fuel' f args pos m))
    (hm : m.Shaped l.program) :
    (l.callFunction fuel f args m).Matches Eq Eq loose (l'.callFunction fuel' f args m) := by
  simp only [Loaded.callFunction, h.params, h.name, h.entryPos, checkArguments_shell h]
  split
  · exact .refl _
  · rw [Run.bind_apply, Run.bind_apply]
    have hcheck := keeps_checkArguments (p := l.program) f (l.program.function f).entryPos
      (l.program.function f).params args m hm
    cases hchecked : Loaded.checkArguments l.program f (l.program.function f).entryPos
      (l.program.function f).params args m with
    | done _ m' =>
        rw [hchecked] at hcheck
        exact hinvoke _ m' hcheck.2
    | failed e m' => exact .refl _
    | unfinished => exact .unfinished

end Steps

/-!
# Sessions of rebuilt programs
-/

/-- All bodies of the second program, that of the outermost level as well, may stand in the
place of those of the first one. -/
structure Program.RebuildsAll (p q : Program) (least : Nat) : Prop
    extends p.Rebuilds q (fun _ => True) least where
  root : p.BodyReplaced least p.root q.root

section Sessions

variable {σ : Type} {l l' : Loaded σ} {least : Nat}
  (h : l.program.RebuildsAll l'.program least) (hwell : l.program.WellFormed)
  (hnatives : l'.natives = l.natives) {m : Machine σ} (hm : m.Shaped l.program)

include h hwell hnatives hm

theorem Program.RebuildsAll.run (fuel : Nat) :
    (l.run fuel m).Matches Eq Eq True (l'.run fuel m) := by
  apply matches_run h.shell
  rw [stmts_shell h.shell]
  exact h.root.stmts (fun _ _ _ _ => trivial) hm hwell.tables
    (h.toRebuilds.invoke hwell.tables hnatives fuel)

theorem Program.RebuildsAll.run_back (fuel : Nat) :
    (l'.run fuel m).Matches Eq Eq True (l.run (fuel + least) m) := by
  apply matches_run h.shell.symm
  rw [stmts_shell h.shell]
  exact h.root.stmts_back (fun _ _ _ _ => trivial) hm (h.keepsShaped hwell.tables fuel)
    (h.toRebuilds.invoke_back hwell.tables hnatives fuel)

theorem Program.RebuildsAll.callFunction (fuel : Nat) (f : FunId) (args : List Value) :
    (l.callFunction fuel f args m).Matches Eq Eq True (l'.callFunction fuel f args m) :=
  matches_callFunction h.shell
    (fun pos => h.toRebuilds.invoke hwell.tables hnatives fuel f args pos trivial) hm

theorem Program.RebuildsAll.callFunction_back (fuel : Nat) (f : FunId) (args : List Value) :
    (l'.callFunction fuel f args m).Matches Eq Eq True
      (l.callFunction (fuel + least) f args m) := by
  apply matches_callFunction h.shell.symm
  · intro pos m hm
    rw [h.shell.shaped] at hm
    exact h.toRebuilds.invoke_back hwell.tables hnatives fuel f args pos trivial m hm
  · rw [h.shell.shaped]
    exact hm

end Sessions

/-!
# Sessions
-/

/-- At a machine each step of a session ends in the same ways with both programs. -/
structure StepsAlike {σ : Type} (l l' : Loaded σ) (m : Machine σ) : Prop where
  run : forall outcome, EndsAs l'.run m outcome <-> EndsAs l.run m outcome
  call : forall f args outcome, EndsAs (fun fuel => l'.callFunction fuel f args) m outcome <->
    EndsAs (fun fuel => l.callFunction fuel f args) m outcome

section Between

variable {σ : Type} {l l' : Loaded σ} {host : σ}

theorem StepsAlike.symm {m : Machine σ} (h : StepsAlike l l' m) : StepsAlike l' l m :=
  ⟨fun outcome => (h.run outcome).symm, fun f args outcome => (h.call f args outcome).symm⟩

/-- Where all steps end alike the machines of one session are those of the other one. -/
theorem between_of_stepsAlike (hshell : l.program.SameShell l'.program)
    (hsteps : forall m, l.Between host m -> l'.Between host m -> StepsAlike l l' m)
    {m : Machine σ} (hm : l.Between host m) : l'.Between host m := by
  induction hm with
  | start =>
      rw [← hshell.initial host]
      exact .start
  | run fuel hbefore hrun ih =>
      have hends := ((hsteps _ hbefore ih).run _).mpr (endsAs_of_state hrun)
      rcases hends with ⟨-, fuel', hrun'⟩
      exact ih.run fuel' ((congrArg Outcome.state? hrun').trans hrun)
  | call fuel args hbefore hglobal hcall ih =>
      have hends := ((hsteps _ hbefore ih).call _ args _).mpr (endsAs_of_state hcall)
      rcases hends with ⟨-, fuel', hcall'⟩
      exact ih.call fuel' args (hshell.globals ▸ hglobal)
        ((congrArg Outcome.state? hcall').trans hcall)

end Between

theorem Program.RebuildsAll.stepsAlike {σ : Type} {l l' : Loaded σ} {least : Nat}
    (h : l.program.RebuildsAll l'.program least) (hwell : l.program.WellFormed)
    (hnatives : l'.natives = l.natives) {m : Machine σ} (hm : m.Shaped l.program) :
    StepsAlike l l' m where
  run := endsAs_iff (h.run hwell hnatives hm) (h.run_back hwell hnatives hm)
  call := fun f args => endsAs_iff (fun fuel => h.callFunction hwell hnatives hm fuel f args)
    fun fuel => h.callFunction_back hwell hnatives hm fuel f args

/-!
# Optimized programs
-/

namespace Fold

theorem served_root {p : Program} (hp : p.Predictable) (quota : Nat) :
    Yields (root quota p) { program := p, known := .empty, stats := .none } fun kept s =>
      exists least, p.Open [] least s.program ∧
        p.BodyReplaced (quota + 1 + least) p.root kept := by
  have hstart : FoldPoint.Faithful p (FoldPoint.start quota p) :=
    ⟨⟨.refl p, fun _ _ hv => nomatch hv⟩, .refl, fun _ _ => rfl⟩
  have hlater := DeclaresLater.nil p
  have haround := Program.openAround_nil p
  have henter := entersServed_functionWithin hp quota p.functions.length [] hlater haround
  have hroot := served_stmts hp _ _ hlater (haround.followed hp) henter p.root hstart
    (Program.open_nil p)
  apply hroot.bind
  rintro result s ⟨least, -, hserved⟩
  refine ⟨least, hserved.table, ?_⟩
  cases result with
  | none => exact bodyReplaced_self p _ _
  | some kept => exact Stmt.ListServedBy.bodyReplaced (hserved.runs kept rfl)

end Fold

/-- The bodies that the pass leaves may stand in the place of those that it was given. -/
theorem optimize_rebuilds {p : Program} (hp : p.Predictable) {quota : Nat} {o : Optimized}
    (h : p.optimize quota = .ok o) : exists least, p.RebuildsAll o.program least := by
  simp only [Program.optimize] at h
  split at h
  · rename_i root s hroot
    cases h
    rcases (Fold.served_root hp quota).of_ok hroot with ⟨least, htable, hreplaced⟩
    have hmore : least ≤ quota + 1 + least := Nat.le_add_left _ _
    have hshell := htable.shell
    exact ⟨quota + 1 + least,
      { shell := ⟨hshell.constants, hshell.vars, hshell.globalCount, hshell.globals,
          hshell.functions⟩
        within := fun _ _ _ _ => trivial
        bodies := fun f _ => (htable.bodies f List.not_mem_nil).mono hmore
        root := hreplaced }⟩
  · cases h

/-- A session of the optimized program of a predictable one goes by the same machines, and at
each of them a run or a call ends in the same ways: with the same value and the same unawaited
calls, or with the same error at the same place, and in both cases with the same globals and
the same host. -/
theorem optimize_runs_alike {p : Program} (hp : p.Predictable) {quota : Nat} {o : Optimized}
    (h : p.optimize quota = .ok o) {σ : Type} {l l' : Loaded σ} (hl : l.program = p)
    (hl' : l'.program = o.program) (hnatives : l'.natives = l.natives) (host : σ)
    (m : Machine σ) :
    (l'.Between host m <-> l.Between host m) ∧ (l.Between host m -> StepsAlike l l' m) := by
  subst hl
  rcases optimize_rebuilds hp h with ⟨least, hrebuilds⟩
  rw [← hl'] at hrebuilds
  have hwell := hp.wellFormed
  have hsteps : forall m, l.Between host m -> StepsAlike l l' m :=
    fun m hm => hrebuilds.stepsAlike hwell hnatives (typed_between hwell hm).shaped
  refine ⟨⟨?_, ?_⟩, hsteps m⟩
  · exact between_of_stepsAlike hrebuilds.shell.symm fun m _ hm => (hsteps m hm).symm
  · exact between_of_stepsAlike hrebuilds.shell fun m hm _ => hsteps m hm

/-!
# Programs without inner functions
-/

def Program.Flat (p : Program) : Prop :=
  forall f g, ¬p.Nests f g

section Flat

variable {p : Program} (h : p.Flat)

include h

theorem Program.Flat.plain (f : FunId) :
    Admitted (fun m => m.function? = none) (p.mentionsOf f) := by
  intro m hm
  cases hdeclares : m.function? with
  | none => rfl
  | some g =>
      rw [Mention.function?_eq_some] at hdeclares
      subst hdeclares
      exact absurd hm (h f g)

theorem Program.Flat.surrounds {f g : FunId} (hsurrounds : p.Surrounds f g) : f = g := by
  rcases Relation.ReflTransGen.cases_head hsurrounds with heq | ⟨_, hnests, _⟩
  · exact heq
  · exact absurd hnests (h _ _)

theorem Program.Flat.callsBelow {n k : Nat} {ms : List Mention} (hnumbers : p.Numbers n ms k)
    {f : FunId} (hn : n ≤ f) (hk : f < k) :
    Admitted (Mention.CallsBelow (f + 1)) (p.mentionsOf f) := by
  induction hnumbers with
  | nil => exact absurd hk (Nat.not_lt.mpr hn)
  | plain _ _ _ ih => exact ih hn hk
  | @declare n ms mid k hbody hrest _ ih =>
      rcases hbody.of_plain (h.plain n) with ⟨rfl, hcalls⟩
      rcases Nat.eq_or_lt_of_le hn with rfl | hgt
      · exact hcalls
      · exact ih hgt hk

theorem Program.Flat.numbered {n : Nat} (hnumbered : p.Numbered n) (f : FunId) :
    p.CallsBelow (f + 1) := by
  intro g hg m hm
  rcases Nat.lt_or_ge g n with hlt | hge
  · rw [Program.mentionsOf, Program.bodyOf_of_native (hnumbered.native g hlt)] at hm
    cases hm
  · have hlt := Program.lt_of_mem_mentionsOf hm
    exact (h.callsBelow hnumbered.numbers hge hlt m hm).mono hg

theorem Program.Flat.storesHome (hwell : p.WellFormed) : p.StoresHome := by
  intro f m id hm hstored
  cases howner : (p.variableAt id).owner with
  | none => exact .inl rfl
  | some o =>
      have hsurrounds := hwell.surrounds hm (Mention.variable?_of_stored hstored) howner
      exact .inr (congrArg some (h.surrounds hsurrounds))

theorem Program.Flat.recursOutward {n : Nat} (hnumbered : p.Numbered n) : p.RecursOutward := by
  intro f m g f' hm hcallee hsurrounds hreaches
  cases h.surrounds hsurrounds
  have hle : g < f + 1 := h.numbered hnumbered f f (Nat.lt_succ_self f) m hm g hcallee
  have hge : f < g + 1 := (h.numbered hnumbered g).reaches_lt (Nat.lt_succ_self g) hreaches
  rw [Nat.le_antisymm (Nat.le_of_lt_succ hle) (Nat.le_of_lt_succ hge)]

end Flat

/-- Where functions are declared at the outermost level only, nothing is left to ask for but
that native calls skip no others. -/
theorem Program.Flat.predictable {body : Type} {externs : List (Extern body)}
    {tokens : List Token} {parsed : Parsed} (hparse : parse externs tokens = .ok parsed)
    (h : parsed.program.Flat) (hskips : parsed.program.SkipsNative) :
    parsed.program.Predictable := by
  rcases numbered_of_parse hparse with ⟨n, hnumbered⟩
  have hwell := wellFormed_of_parse hparse
  exact
    { wellFormed := hwell
      nested := wellNested_of_parse hparse
      storesHome := h.storesHome hwell
      recursOutward := h.recursOutward hnumbered
      skipsNative := hskips }

section Lazy

theorem predictable_lazyOriginal : lazyOriginal.Predictable := by
  apply Program.Flat.predictable parse_lazyTokens
  · intro f g hnests
    have hlt : f < 2 := Program.lt_of_mem_mentionsOf hnests
    have hdeclares : .declareFunction g ∈ lazyOriginal.mentionsOf f := hnests
    interval_cases f
    · cases hdeclares
    · cases List.mem_singleton.mp hdeclares
  · intro f
    match f with
    | 0 => exact ⟨trivial, trivial⟩
    | 1 => exact ⟨fun hnative => Bool.noConfusion hnative, trivial⟩
    | _ + 2 => exact trivial

def lazyLoaded (p : Program) : Loaded Unit :=
  { program := p, natives := [] }

theorem optimize_runs_alike_lazy : lazyOriginal.optimize 8 = .ok lazyOptimized ∧
    forall m : Machine Unit, (lazyLoaded lazyOptimized.program).Between () m <->
      (lazyLoaded lazyOriginal).Between () m := by
  have hl : (lazyLoaded lazyOriginal).program = lazyOriginal := rfl
  have hl' : (lazyLoaded lazyOptimized.program).program = lazyOptimized.program := rfl
  refine ⟨optimize_lazyOriginal, ?_⟩
  intro m
  exact (optimize_runs_alike predictable_lazyOriginal optimize_lazyOriginal hl hl' rfl () m).1

end Lazy
end Scriptlet
