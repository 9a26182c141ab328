import Scriptlet.Proofs.Folding.RefoldedStatements

/-!
# Folding a folded program

The pass takes the body of a function out of the table and puts back what it made of it.
When it comes by the declaration again, it finds that body, and makes the same of it, so a
second pass over the program that the first one left changes nothing.
-/

namespace Scriptlet

namespace Program

variable {p q : Program} {n k : Nat}

theorem SameShell.sameTables (h : p.SameShell q) : p.SameTables q where
  constants := h.constants
  vars := h.vars
  params := h.params
  result := h.result

theorem Numbered.foldedTo (h : p.Numbered n) (hsound : p.Sound) : p.FoldedTo n p where
  shell := .refl p
  sound := hsound
  calls := by
    intro f hf
    rw [mentionsOf, bodyOf_of_native (h.native f hf)]
    exact admitted_nil
  ahead := fun _ _ => rfl

end Program

namespace Fold

section Bodies

variable {p q r : Program} {n k : Nat} {body kept : List Stmt}

theorem withBody_back (p : Program) (f : FunId) :
    withBody (withBody p f []) f (p.bodyOf f) = p := by
  unfold withBody
  cases hblock : (p.function f).body with
  | none => simp only [hblock]
  | some block =>
      have hf := Program.lt_of_body hblock
      have hget : p.function f = p.functions[f] := by
        rw [Program.function, List.getD_eq_getElem?_getD, List.getElem?_eq_getElem hf]
        rfl
      have hbody : p.bodyOf f = block.body := by rw [Program.bodyOf, hblock]
      have hsame : ({ p.function f with body := some block } : Function) = p.functions[f] := by
        rw [← hblock, ← hget]
      simp only [Program.function_setFunction p hf, if_pos, hbody]
      simp only [Program.setFunction, List.set_set, hsame, List.set_getElem_self]

theorem bodyOf_withBody_nil (p : Program) (f : FunId) : (withBody p f []).bodyOf f = [] := by
  cases hnative : (p.function f).isNative with
  | false => exact Program.bodyOf_withBody_self [] hnative
  | true =>
      have hshell := Program.sameShell_withBody p f []
      exact Program.bodyOf_of_native ((hshell.isNative f).trans hnative)

theorem foldedTo_entered {s : FoldState} (hs : p.FoldedTo n s.program) :
    p.FoldedTo (n + 1) (entered s n).program where
  shell := hs.shell.trans (Program.sameShell_withBody s.program n [])
  sound := (kept_entered hs.sound n).sound
  calls := by
    intro f hf
    rcases Nat.lt_succ_iff_lt_or_eq.mp hf with hlt | rfl
    · rw [Program.mentionsOf, entered, bodyOf_withBody_ne s.program (Nat.ne_of_lt hlt)]
      exact fun m hm => (hs.calls f hlt m hm).mono (Nat.le_succ n)
    · rw [Program.mentionsOf, entered, bodyOf_withBody_nil]
      exact admitted_nil
  ahead := by
    intro f hf
    rw [entered, bodyOf_withBody_ne s.program (Nat.ne_of_gt hf)]
    exact hs.ahead f (Nat.le_of_succ_le hf)

theorem faithful_entered (hnested : p.Nested) {s : FoldState} (hs : p.FoldedTo n s.program)
    (quota depth : Nat) (folding : List FunId) :
    FoldPoint.Faithful p ⟨bodyMode quota folding n, depth, .stmts (p.bodyOf n), entered s n⟩ where
  typed := ⟨(foldedTo_entered hs).shell.sameTables, fun _ _ hv => nomatch hv⟩
  stands := .refl
  intact := by
    intro g hg
    have hlater : n < g := hg.encloses.lt hnested
    exact (foldedTo_entered hs).ahead g hlater

theorem declaresLater_body (hnested : p.Nested) {folding : List FunId}
    (hopen : forall f, f ∈ folding -> f < n) : DeclaresLater p (n :: folding) := by
  intro f hf g hg
  have hlater : n < f := (hnested.later hf).1
  rcases List.mem_cons.mp hg with rfl | hg
  · exact hlater
  · exact Nat.lt_trans (hopen g hg) hlater

section PutBack

variable (hon : p.FoldsOn (n + 1) k (withBody q n []) r) {d : Drops}
  (hkept : Stmt.ListEdited d (p.bodyOf n) kept)

include hon

theorem sameBelow_putBack (kept : List Stmt) : q.SameBelow n (withBody r n kept) where
  toSameShell := ((Program.sameShell_withBody q n []).trans hon.same.toSameShell).trans
    (Program.sameShell_withBody r n kept)
  bodies := by
    intro f hf
    have hne := Nat.ne_of_lt hf
    rw [bodyOf_withBody_ne r hne, hon.same.bodies f (Nat.lt_succ_of_lt hf),
      bodyOf_withBody_ne q hne]

include hkept

theorem bodyOf_putBack : (withBody r n kept).bodyOf n = kept := by
  cases hnative : (r.function n).isNative with
  | false => exact Program.bodyOf_withBody_self kept hnative
  | true =>
      have hnative' := (hon.folded.shell.isNative n).symm.trans hnative
      rw [Program.bodyOf_of_native hnative'] at hkept
      rw [hkept.of_nil]
      exact bodyOf_withBody_nil r n

theorem foldsOn_putBack (hs : p.FoldedTo n q) (hbody : p.Numbers (n + 1) (p.mentionsOf n) k) :
    p.FoldsOn n k q (withBody r n kept) := by
  have hmentions := hkept.mentions_sublist
  have hn : n < k := hbody.le
  have hown : DeclaresOwn r n (Stmt.listMentions kept) := by
    have hq : DeclaresOwn q n (Stmt.listMentions (p.bodyOf n)) := by
      rw [← hs.ahead n (Nat.le_refl n)]
      exact hs.sound.own n
    have hshell := (Program.sameShell_withBody q n []).trans hon.same.toSameShell
    exact (hq.from fun id hid => hmentions.subset hid).of_vars hshell.vars
  have hfolded : p.FoldedTo k (withBody r n kept) := by
    refine ⟨hon.folded.shell.trans (Program.sameShell_withBody r n kept),
      (hon.folded.sound.withBody hown).sound, ?_, ?_⟩
    · intro f hf
      by_cases hself : f = n
      · rw [Program.mentionsOf, hself, bodyOf_putBack hon hkept]
        exact fun m hm => hbody.callsBelow m (hmentions.subset hm)
      · rw [Program.mentionsOf, bodyOf_withBody_ne r hself]
        exact hon.folded.calls f hf
    · intro f hf
      rw [bodyOf_withBody_ne r (Nat.ne_of_gt (Nat.lt_of_lt_of_le hn hf))]
      exact hon.folded.ahead f hf
  exact ⟨hfolded, sameBelow_putBack hon kept, Nat.le_of_lt hn⟩

end PutBack

theorem functionWithin_again {quota depth : Nat} {folding : List FunId} {v : Valuation}
    (hr : r.bodyOf n = []) (hput : (withBody r n kept).bodyOf n = kept)
    (hstill : Answers True k r (stmts (bodyMode quota folding n)
      (functionWithin quota depth (n :: folding)) kept) .empty (some kept) v)
    {t : FoldState} (ht : (withBody r n kept).SameBelow k t.program) (hn : n < k) :
    functionWithin quota (depth + 1) folding n t = .ok ((), t) := by
  have hbody : t.program.bodyOf n = kept := (ht.bodies n hn).trans hput
  have hentered : r.SameBelow k (entered t n).program := by
    refine ⟨?_, ?_⟩
    · exact ((Program.sameShell_withBody r n kept).trans ht.toSameShell).trans
        (Program.sameShell_withBody t.program n [])
    · intro f hf
      by_cases hself : f = n
      · rw [hself, hr]
        exact bodyOf_withBody_nil t.program n
      · rw [entered, bodyOf_withBody_ne t.program hself, ht.bodies f hf, bodyOf_withBody_ne r hself]
  rcases hstill (entered t n) rfl hentered with ⟨stats, hstmts, hquiet⟩
  cases hquiet trivial
  let putBack (result : Option (List Stmt)) : Fold Unit := modify fun s =>
    { s with program := withBody s.program n (result.getD (t.program.bodyOf n)), known := t.known }
  have hrun : functionWithin quota (depth + 1) folding n t =
      (stmts (bodyMode quota folding n) (functionWithin quota depth (n :: folding))
        (t.program.bodyOf n) >>= putBack) (entered t n) := rfl
  have hback : withBody (withBody t.program n []) n kept = t.program := by
    rw [← hbody]
    exact withBody_back t.program n
  rw [hrun, hbody, state_bind_of_ok hstmts]
  show Except.ok ((), { t with program := withBody (withBody t.program n []) n kept }) = .ok ((), t)
  rw [hback]

end Bodies

theorem entersInOrder_functionWithin {p : Program} (hnested : p.WellNested) (quota depth : Nat) :
    forall folding : List FunId,
      EntersInOrder p (functionWithin quota depth folding) folding := by
  -- By induction on the number of bodies that may still be opened.
  induction depth with
  | zero =>
      intro folding n k s hs _ hbody
      have hskipped : p.FoldsOn n k s.program s.program := hs.stay.skip (.declare hbody .nil)
      exact ⟨hskipped, rfl, fun _ _ => rfl⟩
  | succ depth ih =>
      intro folding n k s hs hopen hbody
      have hentered := foldedTo_entered hs
      have hlater := declaresLater_body hnested.nested hopen
      have hinner : forall f, f ∈ n :: folding -> f < n + 1 := by
        intro f hf
        rcases List.mem_cons.mp hf with rfl | hf
        · exact Nat.lt_succ_self f
        · exact Nat.lt_succ_of_lt (hopen f hf)
      have hrefolds := refolds_stmts (bodyMode quota folding n) (ih (n :: folding)) (p.bodyOf n)
        hentered hinner hbody
      have hedits := edits_stmts hnested (bodyMode quota folding n) depth hlater
        (entersEditing_functionWithin hnested quota depth (n :: folding) hlater) (p.bodyOf n)
        (faithful_entered hnested.nested hs quota depth folding)
      have hcomplete : Yields (stmts (bodyMode quota folding n)
          (functionWithin quota depth (n :: folding)) (p.bodyOf n)) (entered s n) fun r _ =>
          r ≠ none := folds_stmts rfl (p.bodyOf n) (entered s n)
      apply Ensures.get_bind
      apply Ensures.set_bind
      rw [hs.ahead n (Nat.le_refl n)]
      apply ((hrefolds.and hedits).and hcomplete).bind
      rintro result s₁ ⟨⟨hrefolds, hedits⟩, hsome⟩
      cases result with
      | none => exact absurd rfl hsome
      | some kept =>
          have hkept := hedits.tree kept rfl
          have htaken : s₁.program.bodyOf n = [] := by
            rw [hrefolds.on.same.bodies n (Nat.lt_succ_self n)]
            exact bodyOf_withBody_nil s.program n
          refine ⟨foldsOn_putBack hrefolds.on hkept hs hbody, rfl, ?_⟩
          intro t ht
          exact functionWithin_again htaken (bodyOf_putBack hrefolds.on hkept) hrefolds.still ht
            hbody.le

theorem refolds_root {p : Program} {n : Nat} (hnested : p.WellNested) (hsound : p.Sound)
    (hnumbered : p.Numbered n) (quota : Nat) :
    Yields (root quota p) { program := p, known := .empty, stats := .none } fun kept s =>
      Program.optimize { s.program with root := kept } quota =
        .ok { program := { s.program with root := kept }, stats := .none } := by
  let mode : FoldMode := { quota := quota, constantOnly := false, folding := [] }
  let enter := functionWithin quota p.functions.length []
  let start : FoldState := { program := p, known := .empty, stats := .none }
  have henter : EntersInOrder p enter mode.folding :=
    entersInOrder_functionWithin hnested quota p.functions.length []
  have hrefolds : Yields (stmts mode enter p.root) start
      (ListRefolds p mode enter n p.functions.length p.root start) :=
    refolds_stmts mode henter p.root (hnumbered.foldedTo hsound) (fun _ hf => nomatch hf)
      hnumbered.numbers
  have hcomplete : Yields (stmts mode enter p.root) start fun r _ => r ≠ none :=
    folds_stmts rfl p.root start
  apply (hrefolds.and hcomplete).bind
  rintro result s ⟨hrefolds, hsome⟩
  cases result with
  | none => exact absurd rfl hsome
  | some kept =>
      have hlength := hrefolds.on.folded.shell.length
      let again : FoldState :=
        { program := { s.program with root := kept }, known := .empty, stats := .none }
      have hsame : s.program.SameBelow p.functions.length again.program :=
        ⟨⟨rfl, rfl, rfl, rfl, rfl⟩, fun _ _ => rfl⟩
      rcases hrefolds.still again rfl hsame with ⟨stats, hstmts, hquiet⟩
      cases hquiet trivial
      have hroot : root quota again.program again =
          .ok (kept, { again with known := s.known }) := by
        show (stmts mode (functionWithin quota s.program.functions.length []) kept >>= fun result =>
          pure (result.getD kept)) again = _
        rw [hlength, state_bind_of_ok hstmts]
        rfl
      show Program.optimize again.program quota = _
      simp only [Program.optimize, StateT.run]
      rw [hroot]
      rfl

end Fold

/-- A second pass over the program that the pass makes of an accepted one succeeds, changes
nothing and counts nothing. -/
theorem optimize_idempotent {body : Type} {externs : List (Extern body)} {tokens : List Token}
    {parsed : Parsed} (h : parse externs tokens = .ok parsed) {quota : Nat} {o : Optimized}
    (ho : parsed.program.optimize quota = .ok o) :
    o.program.optimize quota = .ok { program := o.program, stats := .none } := by
  rcases numbered_of_parse h with ⟨n, hnumbered⟩
  have hagain := Fold.refolds_root (wellNested_of_parse h) (wellFormed_of_parse h).sound hnumbered
    quota
  simp only [Program.optimize] at ho
  split at ho
  · rename_i kept s hroot
    cases ho
    exact hagain.of_ok hroot
  · cases ho

theorem optimize_idempotent_lazy :
    parse ([] : List (Extern Unit)) lazyTokens = .ok { program := lazyOriginal, warnings := [] } ∧
      lazyOriginal.optimize 8 = .ok lazyOptimized ∧
      lazyOptimized.program.optimize 8 =
        .ok { program := lazyOptimized.program, stats := .none } :=
  ⟨parse_lazyTokens, optimize_lazyOriginal,
    optimize_idempotent parse_lazyTokens optimize_lazyOriginal⟩

end Scriptlet
