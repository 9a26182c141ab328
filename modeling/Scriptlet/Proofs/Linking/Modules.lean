import Scriptlet.Linking
import Scriptlet.Proofs.Evaluation.Hosts

/-!
# Modules that import modules

The modules of a system are numbered as their instances are.  Behind a native function of a
program stands a function of the host or a function of a module, and a module imports only
from those before it.  A call of a module's function is a call on the machine of its
instance, and depends on no instance behind that one.
-/

namespace Scriptlet

/-- What stands behind a native function: a function of the host, or one of the first
modules. -/
inductive Import (bound : Nat) where
  | host (body : Native Host)
  | function (index : Fin bound) (f : FunId)

/-- A program with what stands behind its native functions. -/
structure Importer (bound : Nat) where
  program : Program
  natives : List (Import bound)

/-- A module imports from the modules before it.  Calls of its functions have its fuel. -/
structure Module (index : Nat) extends Importer index where
  fuel : Nat

def RuntimeError.outside (e : RuntimeError) : String :=
  e.message ++ " (at " ++ e.pos.text ++ ")"

abbrev Modules :=
  (index : Nat) -> Module index

namespace Modules

variable (ms : Modules)

def native (index : Nat) (f : FunId) : Native Linked :=
  let l : Loaded Linked :=
    { program := (ms index).program
      natives := (ms index).natives.map fun
        | .host body => body.lift
        | .function before g => native before g }
  Export.native l (ms index).fuel index f
termination_by index
decreasing_by exact before.isLt

def body {bound : Nat} : Import bound -> Native Linked
  | .host body => body.lift
  | .function index f => ms.native index f

def load {bound : Nat} (c : Importer bound) : Loaded Linked :=
  { program := c.program, natives := c.natives.map ms.body }

def loadAt (index : Nat) : Loaded Linked :=
  ms.load (ms index).toImporter

def call (index : Nat) (f : FunId) (args : List Value) : Eval Linked (Option Value) :=
  (ms.loadAt index).callFunction (ms index).fuel f args

theorem native_eq (index : Nat) (f : FunId) :
    ms.native index f = Export.native (ms.loadAt index) (ms index).fuel index f := by
  rw [native]
  have hbodies : (fun | .host body => body.lift | .function before g => ms.native before g) =
      (ms.body : Import index -> Native Linked) := by
    funext entry
    cases entry <;> rfl
  rw [hbodies]
  rfl

end Modules

/-!
# Instances
-/

/-- The world holds the machine of the module at an index, with the instances that the machine
knows before it. -/
structure Linked.Carries (index : Nat) (own : Host) (rest : List (Machine Host)) (w : Linked)
    (m : Machine Linked) : Prop where
  world : w = { own := own, instances := Linked.instantiate m ++ rest }
  length : m.host.instances.length = index

structure Linked.Longer (count : Nat) (rest : List (Machine Host)) (w w' : Linked) : Prop where
  world : w = { w' with instances := w'.instances ++ rest }
  length : w'.instances.length = count

/-- The worlds of two callers, the first with more instances behind those of the second. -/
structure Linked.Wider (count : Nat) (own own' : Host) (rest : List (Machine Host))
    (w w' : Linked) : Prop where
  world : w = { own := own, instances := w'.instances ++ rest }
  own : w'.own = own'
  length : w'.instances.length = count

namespace Linked

variable {index : Nat} {own : Host} {rest : List (Machine Host)} {w : Linked} {m : Machine Linked}

theorem exists_carries (hindex : index < w.instances.length) :
    exists m, Carries index w.own (w.instances.drop (index + 1)) w m := by
  let instance_ := w.instances[index]
  refine ⟨instance_.withHost { own := instance_.host, instances := w.instances.take index }, ?_, ?_⟩
  · have hsplit : w.instances = w.instances.take index ++ [instance_] ++
        w.instances.drop (index + 1) := by
      simp [instance_]
    exact congrArg (Linked.mk w.own) hsplit
  · exact List.length_take_of_le (Nat.le_of_lt hindex)

theorem Carries.append (h : Carries index own rest w m) (more : List (Machine Host))
    (own' : Host) :
    Carries index own' (rest ++ more) { own := own', instances := w.instances ++ more } m where
  world := by rw [h.world, List.append_assoc]
  length := h.length

theorem Carries.machineOf (h : Carries index own rest w m) :
    w.machineOf index = m.withHost
      { m.host with instances := m.host.instances ++ ([m.withHost m.host.own] ++ rest) } := by
  have hat : w.instanceAt index = m.withHost m.host.own := by
    rw [instanceAt, h.world, instantiate]
    simp [List.getD_eq_getElem?_getD, ← h.length]
  rw [Linked.machineOf, hat, h.world, instantiate, List.append_assoc]
  rfl

theorem Longer.putBack {m' : Machine Linked} {host : Linked} {x : Machine Host}
    (h : Longer index ([x] ++ rest) m'.host host) (own : Host) :
    Carries index own rest (putBack own index m') (m'.withHost host) where
  world := by
    have hown : m'.host.own = host.own := by rw [h.world]
    have hinstances : m'.host.instances = host.instances ++ ([x] ++ rest) := by rw [h.world]
    rw [Linked.putBack, hinstances, hown, ← h.length, List.set_append_right _ _ (Nat.le_refl _),
      Nat.sub_self, List.singleton_append, List.set_cons_zero, instantiate, List.append_assoc]
    rfl
  length := h.length

theorem longer_alike_lift (body : Native Host) :
    (body.lift : Native Linked).Alike (Longer index rest) body.lift := by
  refine Native.alike_lift ?_ body
  rintro _ w ⟨rfl, hlength⟩
  exact ⟨rfl, fun host => ⟨rfl, hlength⟩⟩

end Linked

theorem Outcome.Matches.mono {ε ε' σ τ α : Type} {errors : ε -> ε' -> Prop}
    {states states' : σ -> τ -> Prop} {loose : Prop} {x : Outcome ε σ α} {y : Outcome ε' τ α}
    (h : x.Matches errors states loose y) (himp : forall s t, states s t -> states' s t) :
    x.Matches errors states' loose y := by
  cases h with
  | done hstates => exact .done (himp _ _ hstates)
  | failed he hstates => exact .failed he (himp _ _ hstates)
  | unfinished => exact .unfinished
  | cut hloose => exact .cut hloose

theorem Outcome.Matches.meet {ε ε' σ τ υ α : Type} {errors : ε -> ε' -> Prop}
    {states : σ -> υ -> Prop} {states' : τ -> υ -> Prop}
    (herrors : forall e e' u, errors e u -> errors e' u -> e = e') {x : Outcome ε σ α}
    {y : Outcome ε τ α} {z : Outcome ε' υ α} (hx : x.Matches errors states False z)
    (hy : y.Matches errors states' False z) :
    x.Matches Eq (fun s t => exists u, states s u ∧ states' t u) False y := by
  cases hx with
  | done hs =>
      cases hy with
      | done ht => exact .done ⟨_, hs, ht⟩
      | cut hnever => exact hnever.elim
  | failed he hs =>
      cases hy with
      | failed he' ht => exact .failed (herrors _ _ _ he he') ⟨_, hs, ht⟩
      | cut hnever => exact hnever.elim
  | unfinished =>
      cases hy with
      | unfinished => exact .unfinished
      | cut hnever => exact hnever.elim
  | cut hnever => exact hnever.elim

/-!
# Calls of a module's functions
-/

namespace Modules

variable (ms : Modules)

theorem native_carries_of {index : Nat}
    (halike : forall rest, (ms.loadAt index).Alike (Linked.Longer index rest) (ms.loadAt index))
    (f : FunId) (call : NativeCall) (own : Host) (rest : List (Machine Host)) :
    Run.Matches (fun text e => text = e.outside) (Linked.Carries index own rest) False
      (ms.native index f call) (ms.call index f call.args) := by
  rintro w m hcarries
  have hmachine := hcarries.machineOf
  have hbeside : (w.machineOf index).Beside
      (Linked.Longer index ([m.withHost m.host.own] ++ rest)) m := by
    rw [hmachine]
    exact ⟨m.host, ⟨rfl, hcarries.length⟩, rfl⟩
  have hcall := beside_callFunction (halike ([m.withHost m.host.own] ++ rest)) (ms index).fuel f
    call.args _ m hbeside
  have hown : w.own = own := by rw [hcarries.world]
  rw [native_eq]
  unfold Export.native Modules.call
  rw [hown]
  generalize (ms.loadAt index).callFunction (ms index).fuel f call.args (w.machineOf index) =
    first at hcall ⊢
  generalize (ms.loadAt index).callFunction (ms index).fuel f call.args m = second at hcall ⊢
  cases hcall with
  | done hafter =>
      obtain ⟨host, hlonger, rfl⟩ := hafter
      exact .done (hlonger.putBack own)
  | failed he hafter =>
      subst he
      obtain ⟨host, hlonger, rfl⟩ := hafter
      exact .failed rfl (hlonger.putBack own)
  | unfinished => exact .unfinished
  | cut hnever => exact hnever.elim

theorem native_wider_of {index count : Nat} {f : FunId} {call : NativeCall}
    (hindex : index < count)
    (hcarries : forall own rest,
      Run.Matches (fun text e => text = e.outside) (Linked.Carries index own rest) False
        (ms.native index f call) (ms.call index f call.args))
    (own own' : Host) (rest : List (Machine Host)) :
    Run.Matches Eq (Linked.Wider count own own' rest) False (ms.native index f call)
      (ms.native index f call) := by
  rintro _ w ⟨rfl, rfl, hlength⟩
  obtain ⟨m, hm⟩ := Linked.exists_carries (hlength ▸ hindex)
  have hshort := hcarries _ _ w m hm
  have hlong := hcarries _ _ _ m (hm.append rest own)
  have herrors : forall text text' (e : RuntimeError), text = e.outside ->
      text' = e.outside -> text = text' := fun _ _ _ h h' => h.trans h'.symm
  refine (Outcome.Matches.meet herrors hlong hshort).mono ?_
  rintro w₁ w₂ ⟨u, hu, hu'⟩
  have hcount : (Linked.instantiate u ++ w.instances.drop (index + 1)).length = count := by
    simp only [Linked.instantiate, List.length_append, List.length_singleton,
      List.length_drop, hu.length, hlength]
    omega
  refine ⟨?_, by rw [hu'.world], hu'.world ▸ hcount⟩
  rw [hu.world, hu'.world, List.append_assoc]

/-- A module cannot tell how many instances stand behind those that it imports from. -/
theorem longer_alike_of {count : Nat}
    (hbefore : forall index, index < count -> forall f call own rest,
      Run.Matches (fun text e => text = e.outside) (Linked.Carries index own rest) False
        (ms.native index f call) (ms.call index f call.args))
    (c : Importer count) (rest : List (Machine Host)) :
    (ms.load c).Alike (Linked.Longer count rest) (ms.load c) := by
  apply Loaded.alike_map
  intro entry
  cases entry with
  | host body => exact Linked.longer_alike_lift body
  | function index f =>
      rintro call _ w ⟨rfl, hlength⟩
      have hwider := ms.native_wider_of index.isLt (hbefore index index.isLt f call) w.own w.own
        rest _ w ⟨rfl, rfl, hlength⟩
      refine hwider.mono ?_
      rintro _ w' ⟨rfl, hown, hlength'⟩
      exact ⟨by rw [← hown], hlength'⟩

theorem native_carries (index : Nat) (f : FunId) (call : NativeCall) (own : Host)
    (rest : List (Machine Host)) :
    Run.Matches (fun text e => text = e.outside) (Linked.Carries index own rest) False
      (ms.native index f call) (ms.call index f call.args) := by
  -- By strong induction on the number of the module.
  induction index using Nat.strongRecOn generalizing f call own rest with
  | ind index ih =>
      refine ms.native_carries_of (fun rest => ?_) f call own rest
      exact ms.longer_alike_of (fun before hbefore f call own rest =>
        ih before hbefore f call own rest) (ms index).toImporter rest

theorem native_wider {index count : Nat} (hindex : index < count) (f : FunId) (call : NativeCall)
    (own own' : Host) (rest : List (Machine Host)) :
    Run.Matches Eq (Linked.Wider count own own' rest) False (ms.native index f call)
      (ms.native index f call) :=
  ms.native_wider_of hindex (fun own rest => ms.native_carries index f call own rest) own own' rest

theorem longer_alike {count : Nat} (c : Importer count) (rest : List (Machine Host)) :
    (ms.load c).Alike (Linked.Longer count rest) (ms.load c) :=
  ms.longer_alike_of (fun index _ f call own rest => ms.native_carries index f call own rest) c rest

end Modules
end Scriptlet
