import Scriptlet.Program.Tables

/-!
# What a tree mentions

The mentions of a tree are the table entries that it names, with the way in which
it names each.  Conditions on programs are conditions on the mentions of their
statements, so a pass that only drops parts of a tree keeps all of them.
-/

namespace Scriptlet

inductive Mention where
  | const (id : ConstId)
  | read (id : VarId)
  | call (callee : FunId) (arity : Nat)
  | declareConst (id : ConstId)
  | declareVar (id : VarId)
  | declareFunction (id : FunId)
  | assign (id : VarId)
  | start (target : VarId) (callee : FunId) (arity : Nat)
  | await (target : VarId)
deriving DecidableEq, Repr

def Mention.stored? : Mention -> Option VarId
  | .declareVar id => some id
  | .assign id => some id
  | .await target => some target
  | _ => none

def Mention.variable? : Mention -> Option VarId
  | .read id => some id
  | .declareVar id => some id
  | .assign id => some id
  | .start target _ _ => some target
  | .await target => some target
  | _ => none

theorem Mention.variable?_of_stored {m : Mention} {id : VarId} (h : m.stored? = some id) :
    m.variable? = some id := by
  cases m <;> first | exact h | cases h

mutual

def Expr.mentions : Expr -> List Mention
  | .literal _ _ => []
  | .const _ id => [.const id]
  | .var _ id => [.read id]
  | .unary _ _ operand => operand.mentions
  | .binary _ _ left right => left.mentions ++ right.mentions
  | .call _ f args => .call f args.length :: Expr.listMentions args

def Expr.listMentions : List Expr -> List Mention
  | [] => []
  | e :: rest => e.mentions ++ Expr.listMentions rest

end

@[simp] theorem Expr.mentions_withPos (pos : Pos) (e : Expr) :
    (e.withPos pos).mentions = e.mentions := by
  cases e <;> simp [Expr.withPos, Expr.mentions]

mutual

def Stmt.mentions : Stmt -> List Mention
  | .constDecl _ id => [.declareConst id]
  | .varDecl _ id none => [.declareVar id]
  | .varDecl _ id (some init) => .declareVar id :: init.mentions
  | .funDecl _ f => [.declareFunction f]
  | .block _ body => Stmt.listMentions body
  | .ifThen _ cond _ body => cond.mentions ++ Stmt.listMentions body
  | .whileDo _ cond _ body => cond.mentions ++ Stmt.listMentions body
  | .ret _ value => value.mentions
  | .assign _ target value => .assign target :: value.mentions
  | .call _ f args => .call f args.length :: Expr.listMentions args
  | .async _ target f args => .start target f args.length :: Expr.listMentions args
  | .await _ target => [.await target]

def Stmt.listMentions : List Stmt -> List Mention
  | [] => []
  | s :: rest => s.mentions ++ Stmt.listMentions rest

end

def Program.mentionsOf (p : Program) (f : FunId) : List Mention :=
  Stmt.listMentions (p.bodyOf f)

theorem Program.mentionsOf_of_body {p : Program} {f : FunId} {block : Block}
    (h : (p.function f).body = some block) : p.mentionsOf f = Stmt.listMentions block.body := by
  rw [mentionsOf, bodyOf, h]

/-!
# What trees may mention
-/

def Admitted (admits : Mention -> Prop) (ms : List Mention) : Prop :=
  forall m, m ∈ ms -> admits m

section Admitted

variable {admits : Mention -> Prop} {m : Mention} {ms ms' : List Mention}

theorem Admitted.left (h : Admitted admits (ms ++ ms')) : Admitted admits ms :=
  fun m hm => h m (List.mem_append_left ms' hm)

theorem Admitted.right (h : Admitted admits (ms ++ ms')) : Admitted admits ms' :=
  fun m hm => h m (List.mem_append_right ms hm)

theorem Admitted.head (h : Admitted admits (m :: ms)) : admits m :=
  h m List.mem_cons_self

theorem Admitted.tail (h : Admitted admits (m :: ms)) : Admitted admits ms :=
  fun m' hm' => h m' (List.mem_cons_of_mem m hm')

theorem admitted_nil : Admitted admits [] := by
  simp [Admitted]

theorem admitted_cons : Admitted admits (m :: ms) <-> admits m ∧ Admitted admits ms := by
  simp only [Admitted, List.mem_cons, forall_eq_or_imp]

theorem admitted_append :
    Admitted admits (ms ++ ms') <-> Admitted admits ms ∧ Admitted admits ms' := by
  simp only [Admitted, List.mem_append, or_imp, forall_and]

end Admitted

end Scriptlet
