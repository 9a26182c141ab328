import Mathlib
import Scriptlet.Proofs.Evaluation.SafeSystems
import Scriptlet.Proofs.Evaluation.Sessions

/-!
# Sessions with running tasks

A session goes on while its tasks run, and tasks start tasks of their own.  In every state that
comes up, whatever a thread sees is typed, and what it looks up next is there.
-/

namespace Scriptlet

def Operation.InRange {σ ρ : Type} (p : Program) (m : Machine σ ρ) : Operation -> Prop
  | .read id _ => m.HasSlot p id
  | .write id _ _ => m.HasSlot p id
  | .native f _ _ => p.HasParams f
  | .push f _ => p.HasParams f
  | .pop => m.frames ≠ []
  | .start _ _ target f _ => m.HasSlot p target ∧ p.HasParams f
  | .await _ target => m.HasSlot p target
  | .takeLeaks => m.frames = []

def Program.Mentions (p : Program) (mention : Mention) : Prop :=
  mention ∈ Stmt.listMentions p.root ∨ exists f, mention ∈ p.mentionsOf f

/-- What a thread of a session has to do with the tables and the slots of a program. -/
structure Thread.Safe {σ : Type} (p : Program) (t : Thread) (m : Machine σ Nat) : Prop where
  typed : m.Typed p
  globals : forall id, .var id ∈ p.globals -> m.HasSlot p id
  mentions : forall mention, p.Mentions mention -> mention.InRange p m
  next : forall op next, t.code = .ask op next -> op.InRange p m
  /-- The host is given control only where all frames are left. -/
  idle : t.Idle -> m.frames = []

section Safety

variable {σ : Type} {p : Program}

theorem Operation.Fits.inRange {ρ : Type} {m : Machine σ ρ} (htables : p.Tables) (hm : m.Typed p)
    {op : Operation} (h : op.Fits p m.frames.length) : op.InRange p m := by
  cases op with
  | read id pos =>
      rcases h with ⟨owners, hfits⟩
      exact hm.hasSlot htables hfits.1
  | write id value pos =>
      rcases h with ⟨mention, hfits, hstored⟩
      exact hm.hasSlot htables (Program.lt_of_stored hfits hstored)
  | native f values pos => exact htables.hasParams h.1
  | push f values => exact htables.hasParams h.1
  | pop => exact List.ne_nil_of_length_pos h
  | start fuel pos target f values =>
      rcases h with ⟨⟨arity, owners, hfits⟩, -⟩
      exact hfits.inRange htables hm
  | await pos target =>
      rcases h with ⟨owners, hfits⟩
      exact hm.hasSlot htables hfits.1
  | takeLeaks => exact List.eq_nil_of_length_eq_zero h

theorem Program.WellFormed.fit_mentions (hwell : p.WellFormed) {mention : Mention}
    (h : p.Mentions mention) : mention.FitsSomewhere p := by
  rcases h with hroot | ⟨f, hbody⟩
  · exact hwell.root.fit mention hroot
  · exact hwell.fit f mention hbody

theorem System.SafeThread.safe {s : System σ} {t : Thread} (hwell : p.WellFormed)
    (h : s.SafeThread p t) : t.Safe p (s.view t).machine where
  typed := h.machine.typed
  globals := fun _ hid => h.machine.typed.hasSlot hwell.tables (hwell.globals _ hid).1
  mentions := by
    intro mention hmention
    rcases hwell.fit_mentions hmention with ⟨owners, hfits⟩
    exact hfits.inRange hwell.tables h.machine.typed
  next := by
    intro op next hask
    have hsound := h.code
    rw [hask] at hsound
    exact hsound.1.inRange hwell.tables h.machine.typed
  idle := fun hidle => List.eq_nil_of_length_eq_zero (h.idle hidle)

end Safety

/-- In every session of an accepted program, whichever threads take their steps and in whatever
order: what is stored has the type of the one variable that owns the slot, and nothing is looked
up that is not there.  The same holds between the steps of sessions that run each task at once,
and at every point of them. -/
theorem session_safe {σ body : Type} {externs : List (Extern body)} {tokens : List Token}
    {parsed : Parsed} (hparse : parse externs tokens = .ok parsed) {l : Loaded σ}
    (hl : l.program = parsed.program) (host : σ) :
    (forall owner slot id other, l.program.Owns owner slot id ->
      l.program.Owns owner slot other -> id = other) ∧
    (forall s, System.Reachable l host s -> forall t, t ∈ s.threads ->
      t.Safe l.program (s.view t).machine) ∧
    (forall m, l.Between host m -> m.Typed l.program ∧
      forall id, .var id ∈ l.program.globals -> m.HasSlot l.program id) ∧
    (forall point, l.Reaches host point -> point.machine.Typed l.program ∧
      (forall mention, mention ∈ point.work.mentions ->
        mention.InRange l.program point.machine) ∧
      (forall m, point.end? l = some m -> m.Typed l.program)) := by
  have hwell : l.program.WellFormed := hl ▸ wellFormed_of_parse hparse
  refine ⟨fun _ _ _ _ => hwell.tables.owns_unique, ?_, ?_, ?_⟩
  · intro s hs t ht
    exact ((hs.safe hwell).threads t ht).safe hwell
  · intro m hm
    have htyped := typed_between hwell hm
    exact ⟨htyped, fun id hid => htyped.hasSlot hwell.tables (hwell.globals _ hid).1⟩
  · intro point hreaches
    have hsafe := hreaches.safe hwell
    exact ⟨hsafe.typed, hsafe.inRange hwell.tables, fun m => hsafe.typed_end hwell⟩

section Same

def sameTwiceTokens : List Token :=
  [(.funWord, "fun"), (.name, "same"), (.openParen, "("), (.name, "n"), (.colon, ":"),
    (.intType, "int"), (.closeParen, ")"), (.colon, ":"), (.intType, "int"), (.openBrace, "\x7b"),
    (.returnWord, "return"), (.name, "n"), (.closeBrace, "\x7d"), (.asyncWord, "async"),
    (.name, "x"), (.colon, ":"), (.intType, "int"), (.equal, "="), (.name, "same"),
    (.openParen, "("), (.intLit, "2"), (.closeParen, ")"), (.asyncWord, "async"),
    (.name, "y"), (.colon, ":"), (.intType, "int"), (.equal, "="), (.name, "same"),
    (.openParen, "("), (.intLit, "3"), (.closeParen, ")")].map fun word =>
      { pos := .endOfInput, kind := word.1, text := word.2 }

def sameTwiceProgram : Program :=
  let same : Function :=
    { name := "same", params := [{ var := 0, type := .int }], result := .int, localCount := 1
      body := some sameBlock }
  { root :=
      [.funDecl .endOfInput 0, .async .endOfInput 1 0 [.literal .endOfInput (.int 2)],
        .async .endOfInput 2 0 [.literal .endOfInput (.int 3)]]
    constants := []
    vars :=
      [{ name := "n", type := .int, owner := some 0, slot := 0, default := none },
        { name := "x", type := .int, owner := none, slot := 0, default := none },
        { name := "y", type := .int, owner := none, slot := 1, default := none }]
    functions := [same]
    globalCount := 2
    globals := [.function 0, .var 1, .var 2] }

theorem parse_sameTwiceTokens :
    parse ([] : List (Extern Unit)) sameTwiceTokens =
      .ok { program := sameTwiceProgram, warnings := [] } := by
  cbv

def sameTwiceLoaded : Loaded Unit :=
  { program := sameTwiceProgram, natives := [] }

theorem session_safe_tasks :
    parse ([] : List (Extern Unit)) sameTwiceTokens =
      .ok { program := sameTwiceProgram, warnings := [] } ∧
    exists s : System Unit, System.Reachable sameTwiceLoaded () s ∧
      (s.threads.map fun t => t.frames.map (·.slots)) =
        [[], [[some (.int 2)]], [[some (.int 3)]]] ∧
      forall t, t ∈ s.threads -> t.Safe sameTwiceProgram (s.view t).machine := by
  have hframes : ((System.running sameTwiceProgram () 1).schedule sameTwiceLoaded [0, 1, 0, 2]).map
      (fun s => s.threads.map fun t => t.frames.map (·.slots)) =
        some [[], [[some (.int 2)]], [[some (.int 3)]]] := rfl
  rcases Option.map_eq_some_iff.mp hframes with ⟨s, hschedule, hslots⟩
  have hreaches := (System.reachable_running sameTwiceLoaded () 1).steps
    (System.steps_of_schedule hschedule)
  have hsafe := (session_safe (l := sameTwiceLoaded) parse_sameTwiceTokens rfl ()).2.1
  exact ⟨parse_sameTwiceTokens, s, hreaches, hslots, hsafe s hreaches⟩

end Same
end Scriptlet
