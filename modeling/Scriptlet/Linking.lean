import Scriptlet.Evaluation.Session
import Scriptlet.Program.Extern

/-!
# Linking

A module that was run hands its names to other programs: constants, variables
with their current values, and functions.  A function of the module runs on the
machine of the module, which lives on as one instance for all who call it.  A
native function runs on the host of its caller.
-/

namespace Scriptlet

/-- The host of a linked program beside the machines of the modules it imports. -/
structure Linked where
  own : Host
  instances : List (Machine Host)

namespace Linked

instance : HasHost Linked where
  host l := l.own
  withHost host l := { l with own := host }

def instanceAt (l : Linked) (index : Nat) : Machine Host :=
  l.instances.getD index { host := default, globals := [], frames := [], tasks := .empty }

def machineOf (l : Linked) (index : Nat) : Machine Linked :=
  let m := l.instanceAt index
  m.withHost { l with own := m.host }

def putBack (own : Host) (index : Nat) (m : Machine Linked) : Linked :=
  { own := own, instances := m.host.instances.set index (m.withHost m.host.own) }

def instantiate (m : Machine Linked) : List (Machine Host) :=
  m.host.instances ++ [m.withHost m.host.own]

end Linked

namespace Export

def native (l : Loaded Linked) (fuel index : Nat) (f : FunId) : Native Linked := fun call host =>
  match l.callFunction fuel f call.args (host.machineOf index) with
  | .done value m => .done value (Linked.putBack host.own index m)
  | .failed e m =>
      .failed (e.message ++ " (at " ++ e.pos.text ++ ")") (Linked.putBack host.own index m)
  | .unfinished => .unfinished

def function (l : Loaded Linked) (fuel index : Nat) (f : FunId) : Extern (Native Linked) :=
  let function := l.program.function f
  let params := function.params.map fun q => ((l.program.variableAt q.var).name, q.type)
  let body := if function.isNative then l.nativeBody f else native l fuel index f
  .function function.name (if params.isEmpty then none else some params) function.result body

def global (l : Loaded Linked) (fuel index : Nat) (m : Machine Linked) :
    Global -> Extern (Native Linked)
  | .const id =>
      let c := l.program.constant id
      .const c.name c.type c.value
  | .var id =>
      let v := l.program.variableAt id
      .var v.name v.type (m.globalValue l.program id)
  | .function id => function l fuel index id

def all (l : Loaded Linked) (fuel index : Nat) (m : Machine Linked) :
    List (Extern (Native Linked)) :=
  l.program.globals.map (global l fuel index m)

end Export

/-- A module that was run: its exports, and the instances for those who import. -/
structure Instantiated where
  exports : List (Extern (Native Linked))
  instances : List (Machine Host)

/-- Runs a module on its host beside the instances that it may call. -/
def exportModule (l : Loaded Linked) (fuel : Nat) (host : Linked) :
    Outcome RuntimeError (Machine Linked) Instantiated :=
  match l.run fuel (.initial l.program host) with
  | .done _ m =>
      .done { exports := Export.all l fuel m.host.instances.length m
              instances := Linked.instantiate m } m
  | .failed e m => .failed e m
  | .unfinished => .unfinished

end Scriptlet
