import Scriptlet.Proofs.Evaluation.CallBoundaries
import Scriptlet.Proofs.Linking.Bindings
import Scriptlet.Proofs.Linking.Exports
import Scriptlet.Proofs.Linking.Sessions

/-!
# An exported module is one live instance

Behind its run a module lives on as one instance.  Whatever consumers do, their calls into
the module are a session of its own evaluator: they get the answers that it gives, an error
comes as one of a native function, and between the calls the instance is what the session
leaves.
-/

namespace Scriptlet

/-- A function of a consumer is bound to an entry that modules export. -/
structure Importer.Binds {bound : Nat} (c : Importer bound) (ms : Modules) (g : FunId)
    (entry : Extern (Native Linked)) : Prop where
  provides : c.program.Provides (.function g) entry
  body : entry.body? = some ((ms.load c).nativeBody g)

/-- How a call that the module's own evaluator answers ends for the consumer: nothing but the
instances changes on its machine, and an error is one of the native function. -/
def Linked.surface (name : String) (pos : Pos) (rest : List (Machine Host)) (m : Machine Linked) :
    Outcome RuntimeError (Machine Linked) (Option Value) ->
      Outcome RuntimeError (Machine Linked) (Option Value)
  | .done value served =>
      .done value { m with host := { m.host with instances := instantiate served ++ rest } }
  | .failed e served =>
      .failed { cause := .native name e.outside, pos := pos }
        { m with host := { m.host with instances := instantiate served ++ rest } }
  | .unfinished => .unfinished

/-!
# Stacks between the calls
-/

section Frames

variable {σ : Type} (l : Loaded σ) (fuel : Nat) (owners : List FunId)

theorem keepsOwners_run : KeepsAll (fun m => m.owners = owners) (l.run fuel) := by
  apply (keeps_stmts (invariant_owners l fuel owners) fuel _ fun _ _ => trivial).bind
  intro flow _ m hm
  exact ⟨trivial, hm⟩

theorem keepsOwners_callFunction (f : FunId) (args : List Value) :
    KeepsAll (fun m => m.owners = owners) (l.callFunction fuel f args) := by
  apply Keeps.ite
  · intro _
    exact keeps_failAt _ _
  · intro _
    apply (keeps_checkArguments f _ _ args).bind
    intro _ _
    exact keepsOwners_invoke l fuel f args _ owners

end Frames

/-- Between the calls no frame is left, also behind a call that failed. -/
theorem Modules.Session.frames {ms : Modules} {index : Nat} {start m : Machine Linked}
    {calls : List Served} (h : ms.Session index start calls m) (hstart : start.frames = []) :
    m.frames = [] := by
  have hkeeps : forall {f args} {m m' : Machine Linked}, m.frames = [] ->
      (ms.call index f args m).state? = some m' -> m'.frames = [] := by
    intro f args m m' hm hcall
    have howners : m.owners = [] := List.map_eq_nil_iff.mpr hm
    exact List.map_eq_nil_iff.mp ((keepsOwners_callFunction _ _ [] f args).of_state howners hcall)
  induction h with
  | start => exact hstart
  | returned _ hcall ih => exact hkeeps ih (congrArg Outcome.state? hcall)
  | failed _ hcall ih => exact hkeeps ih (congrArg Outcome.state? hcall)
  | besideReturned _ _ _ ih => exact ih
  | besideFailed _ _ _ ih => exact ih

/-!
# Calls of consumers
-/

section Calls

variable {ms : Modules} {index : Nat}

theorem function_eq_native {f : FunId}
    (hf : ((ms index).program.function f).isNative = false) :
    (Export.function (ms.loadAt index) (ms index).fuel index f).body? =
      some (ms.native index f) := by
  have hf' : ((ms.loadAt index).program.function f).isNative = false := hf
  simp [Export.function, Extern.body?, hf', ms.native_eq]

theorem binds_of_given {bound : Nat} {c : Importer bound} {externs : List (Extern (Native Linked))}
    {tokens : List Token} {parsed : Parsed} (hparse : parse externs tokens = .ok parsed)
    (hprogram : c.program = parsed.program)
    (hnatives : (ms.load c).natives = Extern.bodies externs) {entry : Extern (Native Linked)}
    (hentry : entry ∈ externs) (hfunction : entry.category = .function) :
    exists g, c.Binds ms g entry := by
  cases entry with
  | const name type value => cases hfunction
  | var name type default => cases hfunction
  | function name params result given =>
      obtain ⟨g, hg, hprovides⟩ := binds_of_parse hparse hentry rfl
      refine ⟨g, hprogram ▸ hprovides, ?_⟩
      rw [Loaded.nativeBody, hnatives, List.getD_eq_getElem?_getD, hg]
      rfl

variable (ms) in
/-- A native function behind which a function of the module stands. -/
theorem native_eq_surface (function : Function) (f : FunId) (values : List Value) (pos : Pos)
    {m own : Machine Linked} {rest : List (Machine Host)}
    (hcarries : Linked.Carries index m.host.own rest m.host own) :
    Eval.native function (ms.native index f) values pos m =
      Linked.surface function.name pos rest m (ms.call index f values own) := by
  have hcall := ms.native_carries index f { pos := pos, args := values } m.host.own rest m.host own
    hcarries
  unfold Eval.native
  generalize ms.native index f { pos := pos, args := values } m.host = outcome at hcall ⊢
  generalize ms.call index f values own = outcome' at hcall ⊢
  cases hcall with
  | done hafter =>
      obtain ⟨rfl, -⟩ := hafter
      rfl
  | failed he hafter =>
      subst he
      obtain ⟨rfl, -⟩ := hafter
      rfl
  | unfinished => rfl
  | cut hnever => exact hnever.elim

theorem invoke_eq_surface {f : FunId} (hf : ((ms index).program.function f).isNative = false)
    {bound : Nat} {c : Importer bound} {g : FunId}
    (hg : c.Binds ms g (Export.function (ms.loadAt index) (ms index).fuel index f)) (fuel : Nat)
    (values : List Value) (pos : Pos) {m own : Machine Linked} {rest : List (Machine Host)}
    (hcarries : Linked.Carries index m.host.own rest m.host own) :
    (ms.load c).invoke (fuel + 1) g values pos m =
      Linked.surface ((ms index).program.function f).name pos rest m
        (ms.call index f values own) := by
  obtain ⟨hname, hresult, hnative, -⟩ :
      (c.program.function g).IsGiven ((ms index).program.function f).name _ _ := hg.provides
  have hbody : (ms.load c).nativeBody g = ms.native index f :=
    Option.some.inj (hg.body.symm.trans (function_eq_native hf))
  have hnone : (c.program.function g).body = none := Option.isNone_iff_eq_none.mp hnative
  have hcall := native_eq_surface ms (c.program.function g) f values pos hcarries
  have hof : (ms.load c).program.function g = c.program.function g := rfl
  rw [hname] at hcall
  unfold Loaded.invoke
  simp only [hof, hnone, hbody, Run.bind_apply, hcall]
  cases hown : ms.call index f values own with
  | done value own' =>
      -- What the module yields has the type that the consumer knows.
      have hfits := resultFits_callFunction hown
      have htype : yieldType value = (c.program.function g).result := hfits.type.trans hresult.symm
      simp only [Linked.surface]
      by_cases hempty : (c.program.function g).result = .none
      · rw [if_pos hempty]
        rw [hempty, yieldType_eq_none] at htype
        rw [htype]
        rfl
      · rw [if_neg hempty, Eval.checkResult, if_pos htype]
        rfl
  | failed e own' => rfl
  | unfinished => rfl

end Calls

theorem host_writeVar {σ : Type} {p : Program} {id : VarId} {v : Value} {pos : Pos}
    {m m' : Machine σ} (h : (Eval.writeVar p id v pos m).state? = some m') : m'.host = m.host := by
  unfold Eval.writeVar at h
  by_cases htype : (p.variableAt id).type = v.type
  · simp only [if_pos htype] at h
    cases hstore : m.store? p id v with
    | some stored =>
        simp only [hstore] at h
        cases h
        exact host_store? hstore
    | none =>
        simp only [hstore] at h
        cases h
        rfl
  · simp only [if_neg htype] at h
    cases h
    rfl

/-!
# Exported modules
-/

/-- The instance of a module that was run on the machine and then exported. -/
structure Modules.Lives (ms : Modules) (index : Nat) (m : Machine Linked) (inst : Instantiated) :
    Prop where
  /-- Consumers come by the same in a world that records their calls into modules. -/
  steps : forall {bound} (c : Importer bound) {fuel work r fuel' work' m'},
    EvalPoint.Step (ms.load c) ⟨fuel, work, Recorded.erase r⟩ ⟨fuel', work', m'⟩ <->
      exists r', Recorded.erase r' = m' ∧
        EvalPoint.Step (ms.loadRecorded index c) ⟨fuel, work, r⟩ ⟨fuel', work', r'⟩
  ends : forall {bound} (c : Importer bound) fuel work r,
    EvalPoint.end? (ms.load c) ⟨fuel, work, Recorded.erase r⟩ =
      (EvalPoint.end? (ms.loadRecorded index c) ⟨fuel, work, r⟩).map Recorded.erase
  /-- Whatever consumers do, their calls are a session of the module's own evaluator behind its
  run, with its answers, and its machine is that of the instance. -/
  sessions : forall {r}, ms.Consumed index inst.instances r -> exists own rest,
    ms.Session index m r.calls own ∧ Linked.Carries index r.world.own rest r.world own ∧
      own.frames = []
  exports : forall {f}, .function f ∈ (ms index).program.globals ->
    Export.function (ms.loadAt index) (ms index).fuel index f ∈ inst.exports
  /-- A program that was parsed with an exported function among its names is bound to it. -/
  consumers : forall {bound} {c : Importer bound} {externs tokens parsed},
    parse externs tokens = .ok parsed -> c.program = parsed.program ->
    (ms.load c).natives = Extern.bodies externs ->
    forall {f}, Export.function (ms.loadAt index) (ms index).fuel index f ∈ externs ->
      exists g, c.Binds ms g (Export.function (ms.loadAt index) (ms index).fuel index f)
  /-- A call of a consumer ends as the call on the module's own machine does. -/
  calls : forall {f}, ((ms index).program.function f).isNative = false ->
    forall {bound} {c : Importer bound} {g},
      c.Binds ms g (Export.function (ms.loadAt index) (ms index).fuel index f) ->
      forall fuel values pos {consumer own : Machine Linked} {rest},
        Linked.Carries index consumer.host.own rest consumer.host own ->
        (ms.load c).invoke (fuel + 1) g values pos consumer =
          Linked.surface ((ms index).program.function f).name pos rest consumer
            (ms.call index f values own)
  /-- Assignments of a consumer stay on its machine. -/
  assignments : forall (p : Program) id v pos {consumer consumer' : Machine Linked},
    (Eval.writeVar p id v pos consumer).state? = some consumer' ->
    consumer'.host = consumer.host

theorem instances_run (ms : Modules) {index : Nat} {host : Linked}
    (hhost : host.instances.length = index) {report : RunReport} {m : Machine Linked}
    (hrun : (ms.loadAt index).run (ms index).fuel (.initial (ms.loadAt index).program host) =
      .done report m) : m.host.instances.length = index := by
  have halike := beside_run (ms.longer_alike (ms index).toImporter []) (ms index).fuel
  have hinitial : (Machine.initial (ms.loadAt index).program host).Beside (Linked.Longer index [])
      (Machine.initial (ms.loadAt index).program host) :=
    ⟨host, ⟨by rw [List.append_nil]; rfl, hhost⟩, rfl⟩
  obtain ⟨_, -, ⟨host', hafter, -⟩⟩ := halike.of_done hinitial hrun
  rw [hafter.world, List.append_nil]
  exact hafter.length

section Tally

def tallyModules : Modules
  | 0 => { program := tallyProgram, natives := [], fuel := 1 }
  | _ + 1 => { program := .empty, natives := [], fuel := 0 }

def readerTokens : List Token :=
  [(.varWord, "var"), (.name, "seen"), (.colon, ":"), (.intType, "int"), (.name, "seen"),
    (.assign, ":="), (.name, "next"), (.openParen, "("), (.intLit, "2"), (.closeParen, ")"),
    (.name, "total"), (.assign, ":="), (.intLit, "9")].map
      fun word => { pos := .endOfInput, kind := word.1, text := word.2 }

def reader : Importer 1 :=
  let next : Function :=
    { name := "next", params := [{ var := 2, type := .int }], result := .int, localCount := 1
      body := none }
  { program :=
      { root := [.varDecl .endOfInput 3 none,
          .assign .endOfInput 3 (.call .endOfInput 0 [.literal .endOfInput (.int 2)]),
          .assign .endOfInput 0 (.literal .endOfInput (.int 9))]
        constants := [{ name := "step", type := .int, value := .int 3 }]
        vars :=
          [{ name := "total", type := .int, owner := none, slot := 0, default := some (.int 1) },
            { name := "open", type := .bool, owner := none, slot := 1, default := none },
            { name := "by", type := .int, owner := some 0, slot := 0, default := none },
            { name := "seen", type := .int, owner := none, slot := 2, default := none }]
        functions := [next]
        globalCount := 3
        globals := [.const 0, .var 0, .var 1, .function 0, .var 3] }
    natives := [.function 0 0] }

theorem parse_readerTokens :
    parse tallyExports readerTokens = .ok { program := reader.program, warnings := [] } := by
  cbv

def tallyMachine (total : Int64) : Machine Linked :=
  { host := { own := default, instances := [] }, globals := [some (.int total), none], frames := []
    tasks := .empty }

def readerMachine (total : Int64) : Machine Linked :=
  .initial reader.program
    { own := default, instances := Linked.instantiate (tallyMachine total) }

end Tally
end Scriptlet
