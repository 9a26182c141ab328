import Mathlib.Logic.Relation
import Scriptlet.Proofs.Program.Mention

/-!
# Functions that a call comes by

A call comes by the functions that the body of its function mentions, and by those that
their bodies mention in turn.
-/

namespace Scriptlet

def Mention.callee? : Mention -> Option FunId
  | .call f _ => some f
  | .start _ f _ => some f
  | _ => none

namespace Program

def Calls (p : Program) (f g : FunId) : Prop :=
  exists m, m ∈ p.mentionsOf f ∧ m.callee? = some g

abbrev Reaches (p : Program) : FunId -> FunId -> Prop :=
  Relation.ReflTransGen p.Calls

theorem Reaches.of_callee {p : Program} {f g h : FunId} {m : Mention} (hm : m ∈ p.mentionsOf f)
    (hcallee : m.callee? = some g) (hreaches : p.Reaches g h) : p.Reaches f h :=
  .head ⟨m, hm, hcallee⟩ hreaches

end Program
end Scriptlet
