import Scriptlet.Proofs.Evaluation.StaticLinks

/-!
# Innermost frames are lexical

The links of running code lead to the innermost frames of their functions: the frame of a
call hides only frames of its own function, and the static link of the call leads to other
ones.  So the evaluator finds in the innermost frame of the owner what static links find,
and agrees with the evaluator that follows them.
-/

namespace Scriptlet

def SameStack {σ : Type} (owners : List FunId) (m m' : Machine σ) : Prop :=
  m = m' ∧ m.owners = owners

abbrev AgreeOn {σ α : Type} (owners : List FunId) (x y : Eval σ α) : Prop :=
  Run.Matches Eq (SameStack owners) False x y

section Rules

variable {σ α : Type} {owners : List FunId}

theorem agree_of_eq {x y : Eval σ α} {good : α -> Prop}
    (hx : Keeps (fun m => m.owners = owners) x good)
    (h : forall m, m.owners = owners -> x m = y m) : AgreeOn owners x y := by
  rintro m _ ⟨rfl, hm⟩
  have hkeeps := hx m hm
  rw [← h m hm]
  cases houtcome : x m with
  | done a m' =>
      rw [houtcome] at hkeeps
      exact .done ⟨rfl, hkeeps.2⟩
  | failed e m' =>
      rw [houtcome] at hkeeps
      exact .failed rfl ⟨rfl, hkeeps⟩
  | unfinished => exact .unfinished

theorem agree_refl {x : Eval σ α} {good : α -> Prop}
    (hx : Keeps (fun m => m.owners = owners) x good) : AgreeOn owners x x :=
  agree_of_eq hx fun _ _ => rfl

theorem Run.Matches.eq {x y : Eval σ α} (h : AgreeOn owners x y) {m : Machine σ}
    (hm : m.owners = owners) : x m = y m := by
  have hmatches := h m m ⟨rfl, hm⟩
  generalize x m = first at hmatches
  generalize y m = second at hmatches
  cases hmatches with
  | done hsame => rw [hsame.1]
  | failed he hsame => rw [he, hsame.1]
  | unfinished => rfl
  | cut hnever => exact hnever.elim

theorem Run.Matches.congr {x y z : Eval σ α} (h : AgreeOn owners x y)
    (hz : forall m, m.owners = owners -> z m = y m) : AgreeOn owners x z := by
  rintro m _ ⟨rfl, hm⟩
  rw [hz m hm]
  exact h m m ⟨rfl, hm⟩

theorem agree_inFrame {p : Program} {frame : Frame} {body body' : Eval σ α}
    (h : AgreeOn (frame.owner :: owners) body body') :
    AgreeOn owners (Eval.inFrame p frame body) (Eval.inFrame p frame body') := by
  apply Run.Matches.around h
  · rintro m _ ⟨rfl, hm⟩
    exact ⟨rfl, congrArg (frame.owner :: ·) hm⟩
  · rintro m _ ⟨rfl, hm⟩
    exact ⟨rfl, owners_pop _ hm⟩

theorem agree_asTask {call call' : Eval σ (Option Value)} (h : AgreeOn [] call call') :
    AgreeOn owners (Eval.asTask call) (Eval.asTask call') := by
  rintro m _ ⟨rfl, hm⟩
  unfold Eval.asTask
  rw [h.eq rfl]
  cases call' m.forTask with
  | done value task => exact .done ⟨rfl, hm⟩
  | failed e task => exact .done ⟨rfl, hm⟩
  | unfinished => exact .unfinished

end Rules

/-!
# Variables and tasks
-/

section Access

variable {σ : Type} {p : Program} {links : Links} {owners : List FunId}
  (hlinks : links.Innermost owners) {m : Machine σ} (hm : m.owners = owners)

include hlinks hm

section Frames

variable {owner : FunId} (howner : links.LeadTo owner)

include howner

theorem frame?_eq : exists frame, links.frame? owner m.frames = some frame ∧
    m.frameOf owner = some frame := by
  rcases Links.height?_eq hlinks howner with ⟨height, hheight, hof⟩
  have hfound : (m.frameOf owner).isSome := by
    rw [Machine.frameOf, List.find?_isSome]
    rcases List.mem_map.mp (hm ▸ mem_of_heightOf hof) with ⟨frame, hmem, hframe⟩
    exact ⟨frame, hmem, by simpa using hframe⟩
  rcases Option.isSome_iff_exists.mp hfound with ⟨frame, hframe⟩
  refine ⟨frame, ?_, hframe⟩
  rw [← hm] at hof
  rw [← hframe, Links.frame?, hheight]
  exact frameAt_heightOf hof

theorem change?_eq (change : Frame -> Frame) :
    links.change? owner change m.frames = Machine.updateFrame owner change m.frames := by
  rcases Links.height?_eq hlinks howner with ⟨height, hheight, hof⟩
  rw [← hm] at hof
  rw [Links.change?, hheight]
  exact changeAt_heightOf hof change

theorem changeFrame_eq (change : Frame -> Frame) : exists frames,
    Machine.updateFrame owner change m.frames = some frames ∧
      Linked.changeFrame links owner change m = .done () { m with frames := frames } := by
  rcases frame?_eq hlinks hm howner with ⟨frame, -, hframe⟩
  have hmem : owner ∈ m.frames.map (·.owner) := by
    refine List.mem_map.mpr ⟨frame, List.mem_of_find?_eq_some hframe, ?_⟩
    simpa using List.find?_some hframe
  rcases Option.isSome_iff_exists.mp (isSome_updateFrame change hmem) with ⟨frames, hframes⟩
  refine ⟨frames, hframes, ?_⟩
  rw [Linked.changeFrame, change?_eq hlinks hm howner, hframes]

end Frames

variable {id : VarId}
  (howner : forall o, (p.variableAt id).owner = some o -> links.LeadTo o)

include howner

theorem readVar_eq (pos : Pos) : Eval.readVar p id pos m = Linked.readVar p links id pos m := by
  unfold Linked.readVar
  cases hof : (p.variableAt id).owner with
  | none => rfl
  | some o =>
      rcases frame?_eq hlinks hm (howner o hof) with ⟨frame, hlink, hframe⟩
      cases hslot : frame.slot (p.variableAt id).slot <;>
        simp only [Eval.readVar, Machine.read, hof, hframe, hlink, hslot, Option.bind_some]

theorem writeVar_eq (v : Value) (pos : Pos) :
    Eval.writeVar p id v pos m = Linked.writeVar p links id v pos m := by
  unfold Linked.writeVar
  cases hof : (p.variableAt id).owner with
  | none => rfl
  | some o =>
      rcases changeFrame_eq hlinks hm (howner o hof) (·.setSlot (p.variableAt id).slot v) with
        ⟨frames, hupdate, hchange⟩
      by_cases htype : (p.variableAt id).type = v.type
      · simp only [Eval.writeVar, Machine.store?, hof, if_pos htype, hupdate, Option.map_some, hchange]
      · simp only [Eval.writeVar, if_neg htype]

theorem takeTask_eq (pos : Pos) : Eval.takeTask p id pos m = Linked.takeTask p links id pos m := by
  unfold Linked.takeTask
  cases hof : (p.variableAt id).owner with
  | none => rfl
  | some o =>
      rcases frame?_eq hlinks hm (howner o hof) with ⟨frame, hlink, hframe⟩
      rcases changeFrame_eq hlinks hm (howner o hof) (·.mapTasks (·.erase id)) with
        ⟨frames, hupdate, hchange⟩
      simp only [Eval.takeTask, Machine.tasksFor, Machine.updateTasks?, hof, hframe, hlink, hupdate,
        Option.map_some, Option.bind_some]
      cases frame.tasks.find? id with
      | none => rfl
      | some task => simp only [Run.bind_apply, hchange, Run.pure_apply]

theorem checkTarget_eq (pos : Pos) :
    Eval.checkTarget p id pos m = Linked.checkTarget p links id pos m := by
  unfold Linked.checkTarget
  cases hof : (p.variableAt id).owner with
  | none => rfl
  | some o =>
      rcases frame?_eq hlinks hm (howner o hof) with ⟨frame, hlink, hframe⟩
      simp only [Eval.checkTarget, Machine.tasksFor, hof, hframe, hlink, Option.map_some]

theorem addTask_eq {task : PendingTask} (htask : task.target = id) :
    Eval.addTask p task m = Linked.addTask p links task m := by
  subst htask
  unfold Linked.addTask
  cases hof : (p.variableAt task.target).owner with
  | none => rfl
  | some o =>
      rcases changeFrame_eq hlinks hm (howner o hof)
        (·.mapTasks (·.insert (Eval.variableName p) task)) with ⟨frames, hupdate, hchange⟩
      simp only [Eval.addTask, Machine.updateTasks?, hof, hupdate, Option.map_some, hchange]

end Access

/-!
# Trees and calls
-/

section Calls

variable {σ : Type} {l : Loaded σ}

def LinksAgree (l : Loaded σ) (fuel : Nat) : Prop :=
  forall (owners : List FunId) (link : Links) f values pos, link.Innermost owners ->
    link.Chain l.program -> (forall o, l.program.Encloses o f <-> link.LeadTo o) ->
    AgreeOn owners (l.invoke fuel f values pos) (l.linkedInvoke fuel link f values pos)

section Actions

variable {fuel : Nat} (hcalls : LinksAgree l fuel) (hnested : l.program.Nested) {links : Links}
  {owners : List FunId} (hlinks : links.Innermost owners) (hchain : links.Chain l.program)

include hlinks

theorem agree_writeVar {id : VarId}
    (howner : forall o, (l.program.variableAt id).owner = some o -> links.LeadTo o) (v : Value)
    (pos : Pos) :
    AgreeOn owners (Eval.writeVar l.program id v pos : Eval σ Unit)
      (Linked.writeVar l.program links id v pos) := by
  have hstored : (Mention.assign id).stored? = some id := rfl
  have hkeeps := keeps_writeVar (invariant_owners l 0 owners) trivial hstored v pos
  exact agree_of_eq hkeeps fun m hm => writeVar_eq hlinks hm howner v pos

theorem agree_awaitTask {target : VarId}
    (howner : forall o, (l.program.variableAt target).owner = some o -> links.LeadTo o) (pos : Pos) :
    AgreeOn owners (Eval.awaitTask l.program pos target : Eval σ Unit)
      (Linked.awaitTask l.program links pos target) := by
  have htake : AgreeOn owners (Eval.takeTask l.program target pos : Eval σ PendingTask)
      (Linked.takeTask l.program links target pos) :=
    agree_of_eq (keeps_takeTask (invariant_owners l 0 owners) pos trivial)
      fun m hm => takeTask_eq hlinks hm howner pos
  apply htake.bind
  intro task
  cases task.result with
  | error e => exact matches_fail rfl
  | ok result =>
      cases result with
      | none => exact matches_fail rfl
      | some value => exact agree_writeVar hlinks howner value pos

include hcalls hnested hchain

theorem actions_match :
    (Actions.plain l.program (l.invoke fuel)).Match (Mention.InReach l.program links.LeadTo) Eq
      (SameStack owners) False (Linked.actions l.program links (l.linkedInvoke fuel)) where
  raise := fun _ => matches_fail rfl
  reads := by
    intro id pos hmention
    exact agree_of_eq (keeps_readVar id pos) fun m hm =>
      readVar_eq hlinks hm (fun o => hmention.owner rfl) pos
  writes := by
    intro mention id v pos hmention hstored
    exact agree_writeVar hlinks (fun o => hmention.owner (Mention.variable?_of_stored hstored)) v pos
  calls := by
    intro f arity values pos hmention
    rcases Links.toCall_spec hnested hchain fun o => hmention.callee rfl with ⟨hcall, hsub, hspec⟩
    exact hcalls owners _ f values pos (fun a ha => hlinks a (hsub a ha)) hcall hspec
  starts := by
    intro target f arity pos values hmention
    have hcall : AgreeOn [] (l.invoke fuel f values pos) (l.linkedInvoke fuel [] f values pos) := by
      refine hcalls [] [] f values pos (fun a ha => absurd ha List.not_mem_nil) .nil ?_
      intro o
      refine iff_of_false (hmention.task rfl o) ?_
      intro hnone
      rcases hnone with ⟨a, ha, -⟩
      cases ha
    have hcheck : AgreeOn owners (Eval.checkTarget l.program target pos)
        (Linked.checkTarget l.program links target pos : Eval σ Unit) := by
      refine agree_of_eq (keeps_checkTarget target pos) ?_
      exact fun m hm => checkTarget_eq hlinks hm (fun o => hmention.owner rfl) pos
    apply hcheck.bind
    intro _
    apply (agree_asTask hcall).bind
    intro result
    refine agree_of_eq (keeps_addTask (invariant_owners l 0 owners) ⟨f, arity, trivial⟩) ?_
    exact fun m hm => addTask_eq hlinks hm (fun o => hmention.owner rfl) rfl
  awaits := by
    intro target pos hmention
    exact agree_awaitTask hlinks (fun o => hmention.owner rfl) pos
  exhausted := fun _ _ _ => .unfinished

end Actions

variable (hwell : l.program.WellFormed) (hnested : l.program.WellNested)
  (htasks : l.program.TasksOutermost)

include hwell hnested htasks

theorem linksAgree_invoke (fuel : Nat) : LinksAgree l fuel := by
  -- By induction on the fuel: the links of a body lead to the frame of the call, which is the
  -- innermost one, and to those frames to which the static link leads.
  induction fuel with
  | zero => exact fun _ _ _ _ _ _ _ _ _ _ _ => .unfinished
  | succ fuel ih =>
      intro owners link f values pos hlink hchain hnear
      cases hbody : (l.program.function f).body with
      | none =>
          have hsame : l.linkedInvoke (fuel + 1) link f values pos = l.invoke (fuel + 1) f values pos := by
            simp only [Loaded.linkedInvoke, hbody]
          rw [hsame]
          exact agree_refl (keepsOwners_invoke l (fuel + 1) f values pos owners)
      | some block =>
          let links : Links := { function := f, height := owners.length } :: link
          let acts := Linked.actions l.program links (l.linkedInvoke fuel)
          have hlinks : links.Innermost (f :: owners) := hlink.push hnested.nested hnear
          have hinside : forall o, l.program.Surrounds o f -> links.LeadTo o := by
            intro o ho
            rcases ho.eq_or_encloses with rfl | hencloses
            · exact ⟨_, List.mem_cons_self, rfl⟩
            · rcases (hnear o).mp hencloses with ⟨a, ha, hof⟩
              exact ⟨a, List.mem_cons_of_mem _ ha, hof⟩
          have hadmits := inReach_body hwell hnested htasks hinside
          rw [Program.mentionsOf_of_body hbody] at hadmits
          have hmatch := actions_match ih hnested.nested hlinks (.cons hnear hchain)
          have hstmts := matches_stmts (p := l.program) hmatch fuel block.body hadmits
          rw [walk_stmts_plain] at hstmts
          have hcall : AgreeOn owners (l.invoke (fuel + 1) f values pos) (do
              let flow ← Eval.inFrame l.program (Eval.callFrame l.program f values)
                (Walk.stmts acts l.program fuel block.body)
              Eval.checkResult (l.program.function f) pos flow.value?) := by
            simp only [Loaded.invoke, hbody]
            apply (agree_inFrame hstmts).bind
            intro flow
            exact agree_refl (keeps_checkResult _ pos _)
          apply hcall.congr
          intro m hm
          have hlength : m.frames.length = owners.length := by
            rw [← hm, Machine.owners, List.length_map]
          simp only [Loaded.linkedInvoke, hbody, Run.bind_apply, Run.get_apply, hlength]
          rfl

theorem agree_run (fuel : Nat) : AgreeOn [] (l.run fuel) (l.linkedRun fuel) := by
  have hlinks : Links.Innermost [] [] := fun _ ha => absurd ha List.not_mem_nil
  have hmatch :=
    actions_match (linksAgree_invoke hwell hnested htasks fuel) hnested.nested hlinks .nil
  have hadmits := inReach_root hwell hnested htasks (Links.LeadTo [])
  have hroot := matches_stmts (p := l.program) hmatch fuel l.program.root hadmits
  rw [walk_stmts_plain] at hroot
  apply hroot.bind
  intro flow
  have hleaks : KeepsAll (fun m : Machine σ => m.owners = []) (Loaded.takeLeaks l.program) :=
    fun _ hm => ⟨trivial, hm⟩
  exact (agree_refl hleaks).bind fun _ => matches_pure _

theorem agree_callFunction (fuel : Nat) {f : FunId} (hf : .function f ∈ l.program.globals)
    (args : List Value) :
    AgreeOn [] (l.callFunction fuel f args) (l.linkedCallFunction fuel f args) := by
  unfold Loaded.callFunction Loaded.linkedCallFunction
  by_cases harity : args.length ≠ (l.program.function f).params.length
  · simp only [if_pos harity]
    exact matches_fail rfl
  · simp only [if_neg harity]
    apply (agree_refl (keeps_checkArguments f _ _ args)).bind
    intro _
    have hlinks : Links.Innermost [] [] := fun _ ha => absurd ha List.not_mem_nil
    apply linksAgree_invoke hwell hnested htasks fuel [] [] f args _ hlinks .nil
    intro o
    refine iff_of_false ((hnested.globals hf).not_encloses o) ?_
    intro hnone
    rcases hnone with ⟨a, ha, -⟩
    cases ha

end Calls

section Captured

def capturedTokens : List Token :=
  [(.funWord, "fun"), (.name, "outer"), (.openParen, "("), (.name, "n"), (.colon, ":"),
    (.intType, "int"), (.closeParen, ")"), (.colon, ":"), (.intType, "int"), (.openBrace, "\x7b"),
    (.funWord, "fun"), (.name, "inner"), (.openParen, "("), (.closeParen, ")"), (.colon, ":"),
    (.intType, "int"), (.openBrace, "\x7b"), (.returnWord, "return"), (.name, "n"),
    (.closeBrace, "\x7d"), (.returnWord, "return"), (.name, "inner"), (.openParen, "("),
    (.closeParen, ")"), (.closeBrace, "\x7d"), (.asyncWord, "async"), (.name, "x"), (.colon, ":"),
    (.intType, "int"), (.equal, "="), (.name, "outer"), (.openParen, "("), (.intLit, "2"),
    (.closeParen, ")"), (.awaitWord, "await"), (.name, "x")].map fun word =>
      { pos := .endOfInput, kind := word.1, text := word.2 }

def innerBlock : Block where
  head := { scope := 2, pos := .endOfInput }
  body := [.ret .endOfInput (.var .endOfInput 0)]

def outerBlock : Block where
  head := { scope := 1, pos := .endOfInput }
  body := [.funDecl .endOfInput 1, .ret .endOfInput (.call .endOfInput 1 [])]

def capturedProgram : Program :=
  let outer : Function :=
    { name := "outer", params := [{ var := 0, type := .int }], result := .int, localCount := 1
      body := some outerBlock }
  let inner : Function :=
    { name := "inner", params := [], result := .int, localCount := 0, body := some innerBlock }
  { root :=
      [.funDecl .endOfInput 0, .async .endOfInput 1 0 [.literal .endOfInput (.int 2)],
        .await .endOfInput 1]
    constants := []
    vars :=
      [{ name := "n", type := .int, owner := some 0, slot := 0, default := none },
        { name := "x", type := .int, owner := none, slot := 0, default := none }]
    functions := [outer, inner]
    globalCount := 1
    globals := [.function 0, .var 1] }

theorem parse_capturedTokens :
    parse ([] : List (Extern Unit)) capturedTokens =
      .ok { program := capturedProgram, warnings := [] } := by
  cbv

def capturedLoaded : Loaded Unit :=
  { program := capturedProgram, natives := [] }

theorem tasksOutermost_captured : capturedProgram.TasksOutermost := by
  intro target f arity h
  have hroot : Stmt.listMentions capturedProgram.root =
      [.declareFunction 0, .start 1 0 1, .await 1] := rfl
  rcases h with h | ⟨c, h⟩
  · have hstart : target = 1 ∧ f = 0 ∧ arity = 1 := by simpa [hroot] using h
    rw [hstart.2.1]
    exact (wellNested_of_parse parse_capturedTokens).globals List.mem_cons_self
  · -- The bodies start no tasks.
    match c with
    | 0 => exact absurd h (of_decide_eq_false rfl)
    | 1 => exact absurd h (of_decide_eq_false rfl)
    | c + 2 => exact absurd h List.not_mem_nil

theorem reaches_captured : exists m : Machine Unit,
    capturedLoaded.Reaches () ⟨0, .expr (.var .endOfInput 0), m⟩ ∧ m.owners = [1, 0] := by
  let start : Machine Unit := .initial capturedProgram ()
  let outer := start.forTask.push (Eval.callFrame capturedProgram 0 [.int 2])
  have hroot : capturedLoaded.Reaches () ⟨2, .stmts capturedProgram.root, start⟩ := .run 2 .start
  have hdeclared : Eval.stmt capturedProgram 2 (capturedLoaded.invoke 2) (.funDecl .endOfInput 0)
      start = .done .next start := rfl
  have hargument : Eval.arguments capturedProgram (capturedLoaded.invoke 2) 0 .endOfInput
      [{ var := 0, type := .int }] [.literal .endOfInput (.int 2)] start = .done [.int 2] start := rfl
  have hasync := (hroot.step (.next hdeclared)).step .first
  have houter : (capturedLoaded.program.function 0).body = some outerBlock := rfl
  have hbody : capturedLoaded.Reaches () ⟨1, .stmts outerBlock.body, outer⟩ :=
    (hasync.step (.task hargument)).step (.body houter)
  have hnested : Eval.stmt capturedProgram 1 (capturedLoaded.invoke 1) (.funDecl .endOfInput 1)
      outer = .done .next outer := rfl
  have hreturn := ((hbody.step (.next hnested)).step .first).step .returned
  have hnone : Eval.arguments capturedProgram (capturedLoaded.invoke 1) 1 .endOfInput [] [] outer =
      .done [] outer := rfl
  have hinner : (capturedLoaded.program.function 1).body = some innerBlock := rfl
  have hcalled := (hreturn.step (.callee hnone)).step (.body hinner)
  exact ⟨_, (hcalled.step .first).step .returned, rfl⟩

end Captured
end Scriptlet
