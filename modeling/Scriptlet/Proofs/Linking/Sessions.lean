import Scriptlet.Proofs.Linking.Modules

/-!
# What is called in a module, and what the module does by itself

A world beside which all calls into a module are recorded, as they are made from outside of
the module and with the answers to them.  Whatever programs run in such a world, the calls
are a session of the module's own evaluator, with the same answers, and the machine of its
instance is the one that the session leaves.
-/

namespace Scriptlet

/-- A call of a module's function and the answer to it. -/
structure Served where
  index : Nat
  function : FunId
  args : List Value
  answer : Except String (Option Value)

/-- A world with the calls that were made so far. -/
structure Recorded where
  world : Linked
  calls : List Served

namespace Recorded

instance : HasHost Recorded where
  host r := r.world.own
  withHost host r := { r with world := HasHost.withHost host r.world }

def note (index : Nat) (f : FunId) (body : Native Linked) : Native Recorded := fun call r =>
  let noted (world : Linked) (answer : Except String (Option Value)) : Recorded :=
    { world := world
      calls := r.calls ++ [{ index := index, function := f, args := call.args, answer := answer }] }
  match body call r.world with
  | .done value world => .done value (noted world (.ok value))
  | .failed text world => .failed text (noted world (.error text))
  | .unfinished => .unfinished

def machineOf (r : Recorded) (index : Nat) : Machine Recorded :=
  let m := r.world.machineOf index
  m.withHost { r with world := m.host }

def putBack (own : Host) (index : Nat) (m : Machine Recorded) : Recorded :=
  { m.host with world := Linked.putBack own index (m.withHost m.host.world) }

/-- A call of a module's function that notes nothing but what the module calls. -/
def native (l : Loaded Recorded) (fuel index : Nat) (f : FunId) : Native Recorded := fun call r =>
  match l.callFunction fuel f call.args (r.machineOf index) with
  | .done value m => .done value (putBack r.world.own index m)
  | .failed e m => .failed e.outside (putBack r.world.own index m)
  | .unfinished => .unfinished

end Recorded

namespace Modules

variable (ms : Modules) (last : Nat)

/-- A function of a module.  Calls into the modules up to the last one are noted; the modules
behind that one are consumers like any other. -/
def recorded (index : Nat) (f : FunId) : Native Recorded :=
  if index ≤ last then
    Recorded.note index f (ms.native index f)
  else
    let l : Loaded Recorded :=
      { program := (ms index).program
        natives := (ms index).natives.map fun
          | .host body => body.lift
          | .function before g => recorded before g }
    Recorded.native l (ms index).fuel index f
termination_by index
decreasing_by exact before.isLt

def recordedBody {bound : Nat} : Import bound -> Native Recorded
  | .host body => body.lift
  | .function index f => ms.recorded last index f

def loadRecorded {bound : Nat} (c : Importer bound) : Loaded Recorded :=
  { program := c.program, natives := c.natives.map (ms.recordedBody last) }

variable {last}

theorem recorded_of_le {index : Nat} (h : index ≤ last) (f : FunId) :
    ms.recorded last index f = Recorded.note index f (ms.native index f) := by
  rw [recorded, if_pos h]

theorem recorded_of_lt {index : Nat} (h : last < index) (f : FunId) :
    ms.recorded last index f =
      Recorded.native (ms.loadRecorded last (ms index).toImporter) (ms index).fuel index f := by
  rw [recorded, if_neg (Nat.not_le.mpr h)]
  have hbodies :
      (fun | .host body => body.lift | .function before g => ms.recorded last before g) =
        (ms.recordedBody last : Import index -> Native Recorded) := by
    funext entry
    cases entry <;> rfl
  rw [hbodies]
  rfl

end Modules

/-!
# Notes change nothing
-/

def Recorded.Shows (r : Recorded) (w : Linked) : Prop :=
  r.world = w

namespace Recorded

theorem shows_note (index : Nat) (f : FunId) (body : Native Linked) :
    (note index f body).Alike Shows body := by
  rintro call r _ rfl
  unfold note
  cases body call r.world with
  | done value world => exact .done rfl
  | failed text world => exact .failed rfl rfl
  | unfinished => exact .unfinished

theorem shows_native {l : Loaded Recorded} {l' : Loaded Linked} (h : l.Alike Shows l')
    (fuel index : Nat) (f : FunId) :
    (native l fuel index f).Alike Shows (Export.native l' fuel index f) := by
  rintro call r _ rfl
  have hcall := beside_callFunction h fuel f call.args (r.machineOf index) (r.world.machineOf index)
    ⟨(r.world.machineOf index).host, rfl, rfl⟩
  unfold native Export.native
  generalize l.callFunction fuel f call.args (r.machineOf index) = first at hcall ⊢
  generalize l'.callFunction fuel f call.args (r.world.machineOf index) = second at hcall ⊢
  cases hcall with
  | done hafter =>
      obtain ⟨_, rfl, rfl⟩ := hafter
      exact .done rfl
  | failed he hafter =>
      subst he
      obtain ⟨_, rfl, rfl⟩ := hafter
      exact .failed rfl rfl
  | unfinished => exact .unfinished
  | cut hnever => exact hnever.elim

end Recorded

namespace Modules

variable (ms : Modules) (last : Nat)

theorem shows_body_of {bound : Nat}
    (hbefore : forall index, index < bound -> forall f,
      (ms.recorded last index f).Alike Recorded.Shows (ms.native index f)) (entry : Import bound) :
    (ms.recordedBody last entry).Alike Recorded.Shows (ms.body entry) := by
  cases entry with
  | host body =>
      refine Native.alike_lift ?_ body
      rintro r _ rfl
      exact ⟨rfl, fun host => rfl⟩
  | function index f => exact hbefore index index.isLt f

theorem shows_recorded (index : Nat) (f : FunId) :
    (ms.recorded last index f).Alike Recorded.Shows (ms.native index f) := by
  induction index using Nat.strongRecOn generalizing f with
  | ind index ih =>
      by_cases hlast : index ≤ last
      · rw [ms.recorded_of_le hlast]
        exact Recorded.shows_note index f _
      · rw [ms.recorded_of_lt (Nat.lt_of_not_le hlast), ms.native_eq]
        exact Recorded.shows_native (Loaded.alike_map _ _ (ms.shows_body_of last ih)) _ index f

theorem shows_load {bound : Nat} (c : Importer bound) :
    (ms.loadRecorded last c).Alike Recorded.Shows (ms.load c) :=
  Loaded.alike_map _ _ (ms.shows_body_of last fun index _ f => ms.shows_recorded last index f)

end Modules

def Recorded.erase (m : Machine Recorded) : Machine Linked :=
  m.withHost m.host.world

theorem Recorded.beside_iff {m : Machine Linked} {r : Machine Recorded} :
    m.Beside (fun w r => Shows r w) r <-> erase r = m := by
  constructor
  · rintro ⟨host, hshows, rfl⟩
    have hworld : host.world = m.host := hshows
    rw [erase, Machine.withHost, Machine.withHost, hworld]
  · rintro rfl
    exact ⟨r.host, rfl, rfl⟩

theorem Recorded.beside_erase (r : Machine Recorded) : r.Beside Shows (erase r) :=
  ⟨r.host.world, rfl, rfl⟩

namespace Modules

variable (ms : Modules) (last : Nat) {bound : Nat} (c : Importer bound)

theorem recorded_step_iff {fuel fuel' : Nat} {work work' : EvalWork} {r : Machine Recorded}
    {m : Machine Linked} :
    EvalPoint.Step (ms.load c) ⟨fuel, work, Recorded.erase r⟩ ⟨fuel', work', m⟩ <->
      exists r', Recorded.erase r' = m ∧
        EvalPoint.Step (ms.loadRecorded last c) ⟨fuel, work, r⟩ ⟨fuel', work', r'⟩ := by
  constructor
  · intro hstep
    obtain ⟨r', hr', hstep'⟩ :=
      hstep.beside (ms.shows_load last c).symm (Recorded.beside_iff.mpr rfl)
    exact ⟨r', Recorded.beside_iff.mp hr', hstep'⟩
  · rintro ⟨r', rfl, hstep⟩
    obtain ⟨m, ⟨_, rfl, rfl⟩, hstep'⟩ :=
      hstep.beside (ms.shows_load last c) (Recorded.beside_erase r)
    exact hstep'

theorem recorded_end (fuel : Nat) (work : EvalWork) (r : Machine Recorded) :
    EvalPoint.end? (ms.load c) ⟨fuel, work, Recorded.erase r⟩ =
      (EvalPoint.end? (ms.loadRecorded last c) ⟨fuel, work, r⟩).map Recorded.erase := by
  cases hend : EvalPoint.end? (ms.loadRecorded last c) ⟨fuel, work, r⟩ with
  | some r' =>
      obtain ⟨m, hm, ⟨_, rfl, rfl⟩⟩ :=
        EvalPoint.beside_end (ms.shows_load last c) (Recorded.beside_erase r) hend
      exact hm
  | none =>
      cases hplain : EvalPoint.end? (ms.load c) ⟨fuel, work, Recorded.erase r⟩ with
      | none => rfl
      | some m =>
          obtain ⟨r', hr', -⟩ := EvalPoint.beside_end (ms.shows_load last c).symm
            (Recorded.beside_iff.mpr rfl) hplain
          rw [hend] at hr'
          cases hr'

end Modules

/-!
# Sessions of a module's own evaluator
-/

/-- Calls on the machine of a module, beside calls into the modules that it may import from,
which are made from outside of it.  A call that fails leaves the machine as it is at that
point. -/
inductive Modules.Session (ms : Modules) (last : Nat) (start : Machine Linked) :
    List Served -> Machine Linked -> Prop where
  | start : Session ms last start [] start
  | returned {calls : List Served} {m m' : Machine Linked} {f : FunId} {args : List Value}
      {value : Option Value} :
      Session ms last start calls m -> ms.call last f args m = .done value m' ->
      Session ms last start
        (calls ++ [{ index := last, function := f, args := args, answer := .ok value }]) m'
  | failed {calls : List Served} {m m' : Machine Linked} {f : FunId} {args : List Value}
      {e : RuntimeError} :
      Session ms last start calls m -> ms.call last f args m = .failed e m' ->
      Session ms last start
        (calls ++ [{ index := last, function := f, args := args, answer := .error e.outside }]) m'
  | besideReturned {calls : List Served} {m : Machine Linked} {host : Linked} {index : Nat}
      {f : FunId} {call : NativeCall} {value : Option Value} :
      Session ms last start calls m -> index < last ->
      ms.native index f call m.host = .done value host ->
      Session ms last start
        (calls ++ [{ index := index, function := f, args := call.args, answer := .ok value }])
        { m with host := host }
  | besideFailed {calls : List Served} {m : Machine Linked} {host : Linked} {index : Nat}
      {f : FunId} {call : NativeCall} {text : String} :
      Session ms last start calls m -> index < last ->
      ms.native index f call m.host = .failed text host ->
      Session ms last start
        (calls ++ [{ index := index, function := f, args := call.args, answer := .error text }])
        { m with host := host }

def Recorded.Replays (ms : Modules) (last : Nat) (start : Machine Linked) (r : Recorded) : Prop :=
  exists m own rest, ms.Session last start r.calls m ∧ Linked.Carries last own rest r.world m

structure Recorded.Replayed (ms : Modules) (last : Nat) (start : Machine Linked) (r r' : Recorded) :
    Prop where
  same : r = r'
  replays : r.Replays ms last start

section Replay

variable {ms : Modules} {last : Nat} {start : Machine Linked}

theorem replays_own (f : FunId) :
    (Recorded.note last f (ms.native last f)).Alike (Recorded.Replayed ms last start)
      (Recorded.note last f (ms.native last f)) := by
  rintro call r _ ⟨rfl, m, own, rest, hsession, hcarries⟩
  have hnative := ms.native_carries last f call own rest r.world m hcarries
  unfold Recorded.note
  generalize ms.native last f call r.world = outcome at hnative ⊢
  generalize houtcome : ms.call last f call.args m = outcome' at hnative
  cases hnative with
  | done hafter => exact .done ⟨rfl, _, own, rest, hsession.returned houtcome, hafter⟩
  | failed he hafter =>
      subst he
      exact .failed rfl ⟨rfl, _, own, rest, hsession.failed houtcome, hafter⟩
  | unfinished => exact .unfinished
  | cut hnever => exact hnever.elim

theorem Linked.Wider.carries {own : Host} {rest : List (Machine Host)} {w₁ host : Linked}
    {m : Machine Linked} {x : Machine Host}
    (h : Linked.Wider last own m.host.own ([x] ++ rest) w₁ host) (hx : x = m.withHost m.host.own) :
    Linked.Carries last own rest w₁ { m with host := host } where
  world := by
    rw [h.world, hx, ← h.own, Linked.instantiate, List.append_assoc]
    rfl
  length := h.length

theorem replays_beside {index : Nat} (hindex : index < last) (f : FunId) :
    (Recorded.note index f (ms.native index f)).Alike (Recorded.Replayed ms last start)
      (Recorded.note index f (ms.native index f)) := by
  rintro call r _ ⟨rfl, m, own, rest, hsession, hcarries⟩
  have hworld : Linked.Wider last own m.host.own ([m.withHost m.host.own] ++ rest) r.world
      m.host := by
    refine ⟨?_, rfl, hcarries.length⟩
    rw [hcarries.world, Linked.instantiate, List.append_assoc]
  have hnative := ms.native_wider hindex f call _ _ _ r.world m.host hworld
  unfold Recorded.note
  generalize ms.native index f call r.world = outcome at hnative ⊢
  generalize houtcome : ms.native index f call m.host = outcome' at hnative
  cases hnative with
  | done hafter =>
      exact .done ⟨rfl, _, own, rest, hsession.besideReturned hindex houtcome, hafter.carries rfl⟩
  | failed he hafter =>
      subst he
      exact .failed rfl
        ⟨rfl, _, own, rest, hsession.besideFailed hindex houtcome, hafter.carries rfl⟩
  | unfinished => exact .unfinished
  | cut hnever => exact hnever.elim

theorem Recorded.Replays.of_take {r r' : Recorded} (h : r.Replays ms last start)
    (hcalls : r'.calls = r.calls)
    (htake : r'.world.instances.take (last + 1) = r.world.instances.take (last + 1)) :
    r'.Replays ms last start := by
  obtain ⟨m, own, rest, hsession, hcarries⟩ := h
  have hlength : (Linked.instantiate m).length = last + 1 := by
    simp [Linked.instantiate, hcarries.length]
  have hfirst : r.world.instances.take (last + 1) = Linked.instantiate m := by
    rw [hcarries.world, ← hlength, List.take_left]
  refine ⟨m, r'.world.own, r'.world.instances.drop (last + 1), hcalls ▸ hsession, ?_,
    hcarries.length⟩
  rw [← hfirst, ← htake, List.take_append_drop]

theorem replays_native {l : Loaded Recorded}
    (hl : l.Alike (Recorded.Replayed ms last start) l) (fuel : Nat) {index : Nat}
    (hindex : last < index) (f : FunId) :
    (Recorded.native l fuel index f).Alike (Recorded.Replayed ms last start)
      (Recorded.native l fuel index f) := by
  rintro call r _ ⟨rfl, hreplays⟩
  have hinside : (r.machineOf index).host.Replays ms last start := hreplays.of_take rfl rfl
  have hcall := beside_callFunction hl fuel f call.args (r.machineOf index) (r.machineOf index)
    ⟨_, ⟨rfl, hinside⟩, rfl⟩
  have hback : forall own m m', Machine.Beside (Recorded.Replayed ms last start) m m' ->
      Recorded.Replayed ms last start (Recorded.putBack own index m)
        (Recorded.putBack own index m') := by
    rintro own m _ ⟨_, ⟨rfl, hafter⟩, rfl⟩
    refine ⟨rfl, hafter.of_take rfl ?_⟩
    exact List.take_set_of_le hindex
  unfold Recorded.native
  generalize l.callFunction fuel f call.args (r.machineOf index) = outcome at hcall ⊢
  cases hcall with
  | done hafter => exact .done (hback _ _ _ hafter)
  | failed he hafter => exact .failed rfl (hback _ _ _ hafter)
  | unfinished => exact .unfinished
  | cut hnever => exact hnever.elim

theorem replayed_body_of {bound : Nat}
    (hbefore : forall index, index < bound -> forall f,
      (ms.recorded last index f).Alike (Recorded.Replayed ms last start)
        (ms.recorded last index f)) (entry : Import bound) :
    (ms.recordedBody last entry).Alike (Recorded.Replayed ms last start)
      (ms.recordedBody last entry) := by
  cases entry with
  | host body =>
      refine Native.alike_lift ?_ body
      rintro r _ ⟨rfl, hreplays⟩
      exact ⟨rfl, fun host => ⟨rfl, hreplays.of_take rfl rfl⟩⟩
  | function index f => exact hbefore index index.isLt f

theorem replayed_recorded (index : Nat) (f : FunId) :
    (ms.recorded last index f).Alike (Recorded.Replayed ms last start)
      (ms.recorded last index f) := by
  -- By strong induction on the number of the module that is called.
  induction index using Nat.strongRecOn generalizing f with
  | ind index ih =>
      rcases Nat.lt_trichotomy index last with hindex | rfl | hindex
      · rw [ms.recorded_of_le (Nat.le_of_lt hindex)]
        exact replays_beside hindex f
      · rw [ms.recorded_of_le (Nat.le_refl _)]
        exact replays_own f
      · rw [ms.recorded_of_lt hindex]
        exact replays_native (Loaded.alike_map _ _ (replayed_body_of ih)) _ hindex f

/-- Whatever a program does in a recorded world, the calls are replayed. -/
theorem replayed_load {bound : Nat} (c : Importer bound) :
    (ms.loadRecorded last c).Alike (Recorded.Replayed ms last start) (ms.loadRecorded last c) :=
  Loaded.alike_map _ _ (replayed_body_of fun index _ f => replayed_recorded index f)

end Replay

/-!
# Consumers
-/

/-- The recorded worlds that consumers can come to, once there are the given instances.  Any
program may be at work, on any machine and at any point of it; whatever happens to hosts and
to instances of later modules is left open. -/
inductive Modules.Consumed (ms : Modules) (last : Nat) (instances : List (Machine Host)) :
    Recorded -> Prop where
  | start (own : Host) :
      Consumed ms last instances
        { world := { own := own, instances := instances }, calls := [] }
  | step {bound : Nat} (c : Importer bound) {a b : EvalPoint Recorded} :
      Consumed ms last instances a.machine.host -> a.Step (ms.loadRecorded last c) b ->
      Consumed ms last instances b.machine.host
  | leave {bound : Nat} (c : Importer bound) {point : EvalPoint Recorded} {m : Machine Recorded} :
      Consumed ms last instances point.machine.host ->
      point.end? (ms.loadRecorded last c) = some m -> Consumed ms last instances m.host
  | elsewhere {r r' : Recorded} :
      Consumed ms last instances r -> r'.calls = r.calls ->
      r'.world.instances.take (last + 1) = r.world.instances.take (last + 1) ->
      Consumed ms last instances r'

theorem Modules.Consumed.replays {ms : Modules} {last : Nat} {instances : List (Machine Host)}
    {start : Machine Linked} (hstart : start.host.instances.length = last)
    (hinstances : instances = Linked.instantiate start) {r : Recorded}
    (h : ms.Consumed last instances r) : r.Replays ms last start := by
  induction h with
  | start own =>
      refine ⟨start, own, [], .start, ?_, hstart⟩
      rw [hinstances, List.append_nil]
  | step c _ hstep ih =>
      obtain ⟨m', ⟨_, ⟨rfl, hreplays⟩, rfl⟩, -⟩ :=
        hstep.beside (replayed_load c) ⟨_, ⟨rfl, ih⟩, rfl⟩
      exact hreplays
  | leave c _ hend ih =>
      obtain ⟨m', -, ⟨_, ⟨rfl, hreplays⟩, rfl⟩⟩ :=
        EvalPoint.beside_end (replayed_load c) ⟨_, ⟨rfl, ih⟩, rfl⟩ hend
      exact hreplays
  | elsewhere _ hcalls htake ih => exact ih.of_take hcalls htake

end Scriptlet
