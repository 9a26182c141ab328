import Scriptlet.Proofs.Folding.Repetition

/-!
# Expressions that are folded again

A literal is in the place of an expression only where folding the expression left all known
values as they were, so the pass comes by the same values when it folds the new tree.  It
finds the same value and keeps the tree.
-/

namespace Scriptlet
namespace Fold

section Again

variable {n : Nat} {q : Program}

/-!
# The same expression
-/

section Names

variable {quiet : Prop} (mode : FoldMode) (pos : Pos)

theorem repeatable_const (id : ConstId) : Repeatable quiet n q (expr mode (.const pos id)) :=
  repeatable_program (fun r hr => by simp only [hr.entries.constant]) (repeatable_pure _)

theorem repeatable_var (id : VarId) : Repeatable quiet n q (expr mode (.var pos id)) :=
  repeatable_get (fun _ _ => rfl) fun _ _ => repeatable_pure _

end Names

mutual

theorem repeatable_expr (hq : q.CallsBelow n) (mode : FoldMode) : forall e : Expr,
    Admitted (Mention.CallsBelow n) e.mentions -> Repeatable False n q (expr mode e)
  | .literal _ _, _ => repeatable_pure _
  | .const pos id, _ => repeatable_const mode pos id
  | .var pos id, _ => repeatable_var mode pos id
  | .unary pos op operand, he => by
      apply (repeatable_expr hq mode operand he).bind
      intro x
      apply (repeatable_settle x).bind
      intro tree
      cases x.known with
      | none => exact repeatable_pure _
      | some k => exact (repeatable_operator pos k.elidable _).bind fun _ => repeatable_pure _
  | .binary pos op left right, he => by
      apply (repeatable_expr hq mode left he.left).bind
      intro l
      apply (repeatable_settle l).bind
      intro lTree
      cases l.known with
      | none => exact repeatable_pure _
      | some lk =>
          apply (repeatable_expr hq mode right he.right).bind
          intro r
          apply (repeatable_settle r).bind
          intro rTree
          cases r.known with
          | none => exact repeatable_pure _
          | some rk => exact (repeatable_operator pos _ _).bind fun _ => repeatable_pure _
  | .call pos f args, he => by
      apply (repeatable_arguments hq mode args he.tail).bind
      intro xs
      exact (repeatable_callWith hq (he.head f rfl) pos xs).bind fun _ => repeatable_pure _

theorem repeatable_arguments (hq : q.CallsBelow n) (mode : FoldMode) : forall args : List Expr,
    Admitted (Mention.CallsBelow n) (Expr.listMentions args) ->
    Repeatable False n q (arguments mode args)
  | [], _ => repeatable_pure _
  | arg :: rest, hargs => by
      rw [arguments_cons]
      have hslot : Repeatable False n q (slot mode arg) :=
        (repeatable_expr hq mode arg hargs.left).bind fun _ => repeatable_settleSlot mode _
      apply hslot.bind
      intro x
      apply repeatable_ite
      · exact repeatable_pure _
      · exact (repeatable_arguments hq mode rest hargs.right).bind fun _ => repeatable_pure _

end

theorem repeatable_slot (hq : q.CallsBelow n) (mode : FoldMode) (e : Expr)
    (he : Admitted (Mention.CallsBelow n) e.mentions) : Repeatable False n q (slot mode e) :=
  (repeatable_expr hq mode e he).bind fun _ => repeatable_settleSlot mode _

theorem repeatable_asyncArguments (hq : q.CallsBelow n) (mode : FoldMode) : forall args : List Expr,
    Admitted (Mention.CallsBelow n) (Expr.listMentions args) ->
    Repeatable False n q (asyncArguments mode args)
  | [], _ => repeatable_pure _
  | arg :: rest, hargs => by
      apply (repeatable_slot hq mode arg hargs.left).bind
      intro x
      exact (repeatable_asyncArguments hq mode rest hargs.right).bind fun _ => repeatable_pure _

/-!
# The new tree
-/

def StillOperand (mode : FoldMode) (n : Nat) (q : Program) (before : Valuation)
    (known : Option Known) (tree : Expr) (after : Valuation) : Prop :=
  exists y : FoldedExpr, y.known = known ∧ Answers True n q (expr mode tree) before y after ∧
    forall v, Answers True n q (settle y) v tree v

theorem settle_known {x : FoldedExpr} {k : Known} (h : x.known = some k) :
    settle x = replace k x.tree := by
  simp only [settle, h]

theorem settle_unknown {x : FoldedExpr} (h : x.known = none) : settle x = pure x.tree := by
  simp only [settle, h]

section Settled

variable {mode : FoldMode} {before : Valuation} {x : FoldedExpr} {s : FoldState}
  (hstill : Answers True n q (expr mode x.tree) before x s.known)
  (hidle : forall k, x.known = some k -> k.elidable = true -> s.known = before)

include hstill hidle

theorem still_settle :
    Yields (settle x) s fun tree s' => s'.program = s.program ∧
      StillOperand mode n q before x.known tree s'.known := by
  cases hknown : x.known with
  | none =>
      have hsame := settle_unknown hknown
      rw [hsame]
      exact ⟨rfl, x, hknown, hstill, fun v => hsame ▸ answers_pure x.tree v⟩
  | some k =>
      have hsame := settle_known hknown
      rw [hsame]
      apply Ensures.ite
      · intro hstays
        refine ⟨rfl, x, hknown, hstill, fun v => ?_⟩
        rw [hsame, replace, if_pos hstays]
        exact answers_pure x.tree v
      · intro hput
        have helidable : k.elidable = true := by
          cases helidable : k.elidable with
          | true => rfl
          | false => simp [helidable] at hput
        have hliteral : StillOperand mode n q before (some k) (.literal x.tree.pos k.value)
            s.known := by
          rw [hidle k hknown helidable]
          refine ⟨{ tree := .literal x.tree.pos k.value,
                    known := some { value := k.value, elidable := true } }, ?_, ?_, ?_⟩
          · rw [← helidable]
          · exact answers_pure _ before
          · exact fun v => answers_pure _ v
        generalize x.tree = tree at hliteral
        cases tree <;> exact ⟨rfl, hliteral⟩

theorem still_settleSlot (hs : q.SameBelow n s.program) :
    Yields (settleSlot mode x) s fun y s' => s'.program = s.program ∧
      Answers True n q (slot mode y.tree) before y s'.known := by
  cases hknown : x.known with
  | none =>
      have hsame : settleSlot mode x =
          if !mode.constantOnly && x.tree.hasCall then (do
            forgetGlobals
            return x)
          else return x := by
        simp only [settleSlot, hknown]
      rw [hsame]
      apply Ensures.ite
      · intro hforgets
        apply (repeatable_forgetGlobals.yields hs).bind
        rintro _ s' ⟨hprogram, hagain⟩
        refine ⟨hprogram, hstill.bind ?_⟩
        rw [hsame, if_pos hforgets]
        exact hagain.bind (answers_pure x _)
      · intro hkeeps
        refine ⟨rfl, hstill.bind ?_⟩
        rw [hsame, if_neg hkeeps]
        exact answers_pure x _
  | some k =>
      have hsame : forall y : FoldedExpr, y.known = some k -> settleSlot mode y = do
          let tree ← settle y
          return { tree := tree, known := some k } := by
        intro y hy
        simp only [settleSlot, settle, hy]
      rw [hsame x hknown]
      apply (still_settle hstill hidle).bind
      rintro tree s' ⟨hprogram, y, hy, hfolded, hsettle⟩
      refine ⟨hprogram, hfolded.bind ?_⟩
      rw [hsame y (hy.trans hknown)]
      exact (hsettle _).bind (answers_pure _ _)

end Settled

theorem still_operand {β : Type} {mode : FoldMode} {e : Expr} {s : FoldState}
    {f : FoldedExpr -> Expr -> Fold β} {post : β -> FoldState -> Prop}
    (he : Yields (expr mode e) s fun x s' => Answers True n q (expr mode x.tree) s.known x s'.known)
    (hsound : s.program.Sound)
    (hf : forall x tree s', s'.program = s.program ->
      StillOperand mode n q s.known x.known tree s'.known -> Yields (f x tree) s' post) :
    Yields (expr mode e >>= fun x => settle x >>= f x) s post := by
  apply (he.and (yields_expr mode e hsound)).bind
  rintro x s₁ ⟨hx, hfolded⟩
  apply (still_settle hx fun k hk helidable => (hfolded.sound k hk helidable).1).bind
  rintro tree s₂ ⟨hprogram, hstill⟩
  exact hf x tree s₂ (hprogram.trans hfolded.program) hstill

mutual

theorem still_expr (hq : q.CallsBelow n) (mode : FoldMode) : forall (e : Expr) {s : FoldState},
    s.program.Sound -> q.SameBelow n s.program -> Admitted (Mention.CallsBelow n) e.mentions ->
    Yields (expr mode e) s fun x s' => Answers True n q (expr mode x.tree) s.known x s'.known
  | .literal _ _, _, _, _, _ => answers_pure _ _
  | .const pos id, s, _, hs, _ => by
      have hagain : Repeatable True n q (expr mode (.const pos id)) := repeatable_const mode pos id
      exact hagain s hs
  | .var pos id, s, _, hs, _ => by
      have hagain : Repeatable True n q (expr mode (.var pos id)) := repeatable_var mode pos id
      exact hagain s hs
  | .unary pos op operand, s, hsound, hs, he => by
      apply still_operand (still_expr hq mode operand hsound hs he) hsound
      rintro x tree s₂ hprogram ⟨y, hy, hagain, hsettle⟩
      cases hknown : x.known with
      | none =>
          refine hagain.bind ((hsettle _).bind ?_)
          simp only [hy, hknown]
          exact answers_pure _ _
      | some k =>
          apply (repeatable_operator pos k.elidable _ s₂ (hprogram ▸ hs)).bind
          intro known s₃ hop
          refine hagain.bind ((hsettle _).bind ?_)
          simp only [hy, hknown]
          exact hop.bind (answers_pure _ _)
  | .binary pos op left right, s, hsound, hs, he => by
      apply still_operand (still_expr hq mode left hsound hs he.left) hsound
      rintro l lTree s₂ hprogram₂ ⟨y, hy, hagain, hsettle⟩
      cases hlk : l.known with
      | none =>
          refine hagain.bind ((hsettle _).bind ?_)
          simp only [hy, hlk]
          exact answers_pure _ _
      | some lk =>
          have hsound₂ : s₂.program.Sound := hprogram₂ ▸ hsound
          have hs₂ : q.SameBelow n s₂.program := hprogram₂ ▸ hs
          apply still_operand (still_expr hq mode right hsound₂ hs₂ he.right) hsound₂
          rintro r rTree s₄ hprogram₄ ⟨z, hz, hagain', hsettle'⟩
          cases hrk : r.known with
          | none =>
              refine hagain.bind ((hsettle _).bind ?_)
              simp only [hy, hlk]
              refine hagain'.bind ((hsettle' _).bind ?_)
              simp only [hz, hrk]
              exact answers_pure _ _
          | some rk =>
              have hs₄ : q.SameBelow n s₄.program := hprogram₄ ▸ hs₂
              apply (repeatable_operator pos (lk.elidable && rk.elidable) _ s₄ hs₄).bind
              intro known s₅ hop
              refine hagain.bind ((hsettle _).bind ?_)
              simp only [hy, hlk]
              refine hagain'.bind ((hsettle' _).bind ?_)
              simp only [hz, hrk]
              exact hop.bind (answers_pure _ _)
  | .call pos f args, s, hsound, hs, he => by
      have hargs := (still_arguments hq mode args hsound hs he.tail).and
        (yields_arguments mode args hsound)
      apply hargs.bind
      rintro xs s₁ ⟨hagain, hfolded⟩
      have hs₁ : q.SameBelow n s₁.program := hfolded.program ▸ hs
      apply (repeatable_callWith hq (he.head f rfl) pos xs s₁ hs₁).bind
      intro call s₂ hcall
      exact hagain.bind (hcall.bind (answers_pure _ _))

theorem still_arguments (hq : q.CallsBelow n) (mode : FoldMode) :
    forall (args : List Expr) {s : FoldState}, s.program.Sound -> q.SameBelow n s.program ->
    Admitted (Mention.CallsBelow n) (Expr.listMentions args) ->
    Yields (arguments mode args) s fun xs s' =>
      Answers True n q (arguments mode xs.trees) s.known xs s'.known
  | [], _, _, _, _ => answers_pure _ _
  | arg :: rest, s, hsound, hs, hargs => by
      have harg := (still_expr hq mode arg hsound hs hargs.left).and (yields_expr mode arg hsound)
      apply harg.bind
      rintro e s₁ ⟨harg, hfolded⟩
      have hidle : forall k, e.known = some k -> k.elidable = true -> s₁.known = s.known :=
        fun k hk helidable => (hfolded.sound k hk helidable).1
      apply (still_settleSlot harg hidle (hfolded.program ▸ hs)).bind
      rintro x s₂ ⟨hprogram, hx⟩
      rw [hfolded.program] at hprogram
      apply Ensures.ite
      · intro hends
        show Answers True n q (arguments mode (x.tree :: rest)) _ _ _
        rw [arguments_cons]
        refine hx.bind ?_
        rw [if_pos hends]
        exact answers_pure _ _
      · intro hgoes
        apply (still_arguments hq mode rest (hprogram ▸ hsound) (hprogram ▸ hs) hargs.right).bind
        intro xs s₃ hxs
        show Answers True n q (arguments mode (x.tree :: xs.trees)) _ (FoldedArgs.cons x xs) _
        rw [arguments_cons]
        refine hx.bind ?_
        rw [if_neg hgoes]
        exact hxs.bind (answers_pure _ _)

end

theorem still_slot (hq : q.CallsBelow n) (mode : FoldMode) (e : Expr) {s : FoldState}
    (hsound : s.program.Sound) (hs : q.SameBelow n s.program)
    (he : Admitted (Mention.CallsBelow n) e.mentions) :
    Yields (slot mode e) s fun x s' => s'.program = s.program ∧
      Answers True n q (slot mode x.tree) s.known x s'.known := by
  apply ((still_expr hq mode e hsound hs he).and (yields_expr mode e hsound)).bind
  rintro x s₁ ⟨hx, hfolded⟩
  have hs₁ : q.SameBelow n s₁.program := hfolded.program ▸ hs
  apply (still_settleSlot hx (fun k hk helidable => (hfolded.sound k hk helidable).1) hs₁).mono
  rintro y s₂ ⟨hprogram, hy⟩
  exact ⟨hprogram.trans hfolded.program, hy⟩

theorem still_asyncArguments (hq : q.CallsBelow n) (mode : FoldMode) :
    forall (args : List Expr) {s : FoldState}, s.program.Sound -> q.SameBelow n s.program ->
    Admitted (Mention.CallsBelow n) (Expr.listMentions args) ->
    Yields (asyncArguments mode args) s fun trees s' =>
      Answers True n q (asyncArguments mode trees) s.known trees s'.known
  | [], _, _, _, _ => answers_pure _ _
  | arg :: rest, s, hsound, hs, hargs => by
      apply (still_slot hq mode arg hsound hs hargs.left).bind
      rintro x s₁ ⟨hprogram, hx⟩
      apply (still_asyncArguments hq mode rest (hprogram ▸ hsound) (hprogram ▸ hs) hargs.right).bind
      intro trees s₂ hrest
      exact hx.bind (hrest.bind (answers_pure _ _))

end Again
end Fold
end Scriptlet
