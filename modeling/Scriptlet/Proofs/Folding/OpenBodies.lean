import Scriptlet.Proofs.Folding.FoldedTrees
import Scriptlet.Proofs.Folding.FollowedCalls

/-!
# Tables while bodies are open

While the pass folds a body, the body is out of the table, and so are those around it.  All
other bodies are the original ones, or folded ones that may stand in their place.  So a call
that comes by no open body is followed as the original program would run it.  In a predictable
program the pass follows no others.
-/

namespace Scriptlet

/-!
# Predictable programs
-/

namespace Program

def RecursOutward (p : Program) : Prop :=
  forall f m g h, m ∈ p.mentionsOf f -> m.callee? = some g -> p.Surrounds h f -> p.Reaches g h ->
    p.Surrounds g f

/-- A program in whose runs all that the pass finds out holds. -/
structure Predictable (p : Program) : Prop where
  wellFormed : p.WellFormed
  nested : p.WellNested
  storesHome : p.StoresHome
  recursOutward : p.RecursOutward
  skipsNative : p.SkipsNative

end Program

/-!
# Edits and native calls
-/

section Edits

variable {p q : Program} {d : Drops}

theorem admitted_callsNative (h : p.SameShell q) {ms ms' : List Mention} (hsub : ms' ⊆ ms)
    (hcalls : Admitted (Mention.CallsNative p) ms) : Admitted (Mention.CallsNative q) ms' := by
  intro m hm
  have hcalls := hcalls m (hsub hm)
  cases m with
  | call f arity =>
      rw [Mention.CallsNative, h.isNative]
      exact hcalls
  | _ => exact hcalls

mutual

theorem Stmt.Edited.skipsNative (h : p.SameShell q) : forall {s s' : Stmt}, s.Edited d s' ->
    s.SkipsNative p -> s'.SkipsNative q
  | _, _, .constDecl, _ => trivial
  | _, _, .varDecl, _ => trivial
  | _, _, .initialized _, _ => trivial
  | _, _, .funDecl, _ => trivial
  | _, _, .block hbody, hs => hbody.skipsNative h hs
  | _, _, .ifThen _ _ hbody, hs => hbody.skipsNative h hs
  | _, _, .whileDo _ _ hbody, hs => hbody.skipsNative h hs
  | _, _, .ret _, _ => trivial
  | _, _, .assign _, _ => trivial
  | _, _, .call hargs, hs => fun hcallee =>
      admitted_callsNative h hargs.mentions_sublist.subset
        (hs ((h.isNative _).symm.trans hcallee))
  | _, _, .async _, _ => trivial
  | _, _, .await, _ => trivial

theorem Stmt.ListEdited.skipsNative (h : p.SameShell q) : forall {body body' : List Stmt},
    Stmt.ListEdited d body body' -> Stmt.ListSkipsNative p body -> Stmt.ListSkipsNative q body'
  | _, _, .nil, _ => trivial
  | _, _, .keep hs hrest, hbody => ⟨hs.skipsNative h hbody.1, hrest.skipsNative h hbody.2⟩
  | _, _, .dropCall _ hrest, hbody => hrest.skipsNative h hbody.2
  | _, _, .dropBlock _ hrest, hbody => hrest.skipsNative h hbody.2
  | _, _, .dropDeclaration _ hrest, hbody => hrest.skipsNative h hbody.2

end

end Edits

/-!
# Open bodies
-/

/-- The table of the pass while some bodies are open.  Those that are not may stand in the
place of the original ones. -/
structure Program.Open (p : Program) (folding : List FunId) (least : Nat) (q : Program) :
    Prop where
  shell : p.SameShell q
  edited : forall f, q.bodyOf f = [] ∨ exists d, Stmt.ListEdited d (p.bodyOf f) (q.bodyOf f)
  bodies : forall f, f ∉ folding -> p.BodyReplaced least (p.bodyOf f) (q.bodyOf f)

theorem bodyReplaced_self (p : Program) (least : Nat) (body : List Stmt) :
    p.BodyReplaced least body body :=
  fun _ _ _ _ => endsAlike_self fun _ _ _ _ _ => trivial

theorem Program.BodyReplaced.mono {p : Program} {least least' : Nat} {body body' : List Stmt}
    (h : p.BodyReplaced least body body') (hle : least ≤ least') :
    p.BodyReplaced least' body body' :=
  fun σ l fuel hl => (h σ l fuel hl).weaken (Nat.le_trans hle)

namespace Program

variable {p q : Program} {folding : List FunId} {least least' : Nat}

theorem open_nil (p : Program) : p.Open [] 0 p where
  shell := .refl p
  edited := fun _ => .inr ⟨.nothing, .refl _ _⟩
  bodies := fun _ _ => bodyReplaced_self p 0 _

theorem Open.mono (h : p.Open folding least q) (hle : least ≤ least') :
    p.Open folding least' q :=
  ⟨h.shell, h.edited, fun f hf => (h.bodies f hf).mono hle⟩

theorem Open.mentions (h : p.Open folding least q) (f : FunId) :
    q.mentionsOf f ⊆ p.mentionsOf f := by
  rcases h.edited f with hempty | ⟨d, hedited⟩
  · rw [mentionsOf, hempty]
    exact List.nil_subset _
  · exact hedited.mentions_sublist.subset

theorem Avoids.within {others : List FunId} {f g : FunId} (h : p.Avoids others f)
    (hcalls : p.Calls f g) : p.Avoids others g :=
  fun c hc hreaches => h c hc (.head hcalls hreaches)

theorem Open.stands (h : p.Open folding least q) (hp : p.Predictable) :
    p.Stands folding least q where
  shell := h.shell
  within := by
    rintro f g havoids ⟨m, hm, hcallee⟩
    exact havoids.within ⟨m, h.mentions f hm, hcallee⟩
  bodies := fun f havoids => h.bodies f fun hopen => havoids f hopen .refl
  sound :=
    { tables := h.shell.tables hp.wellFormed.tables
      own := by
        intro f id hid
        rw [h.shell.variableAt]
        exact hp.wellFormed.sound.own f id (h.mentions f hid) }
  fit := by
    intro f m hm
    rcases hp.wellFormed.fit f m (h.mentions f hm) with ⟨owners, hfits⟩
    exact ⟨owners, h.shell.fits hfits⟩
  skips := by
    intro f
    rcases h.edited f with hempty | ⟨d, hedited⟩
    · rw [hempty]
      trivial
    · exact hedited.skipsNative h.shell (hp.skipsNative f)

theorem Open.enter (h : p.Open folding least q) (f : FunId) :
    p.Open (f :: folding) least (Fold.withBody q f []) where
  shell := h.shell.trans (sameShell_withBody q f [])
  edited := by
    intro g
    by_cases hg : g = f
    · subst hg
      cases hnative : (q.function g).isNative with
      | true =>
          have hnative' := ((sameShell_withBody q g []).isNative g).trans hnative
          exact .inl (bodyOf_of_native hnative')
      | false => exact .inl (bodyOf_withBody_self [] hnative)
    · rw [Fold.bodyOf_withBody_ne q hg]
      exact h.edited g
  bodies := by
    intro g hg
    rw [Fold.bodyOf_withBody_ne q (List.ne_of_not_mem_cons hg)]
    exact h.bodies g (List.not_mem_of_not_mem_cons hg)

theorem Open.leave {f : FunId} (h : p.Open (f :: folding) least q) {d : Drops} {kept : List Stmt}
    (hedited : Stmt.ListEdited d (p.bodyOf f) kept)
    (hreplaced : p.BodyReplaced least (p.bodyOf f) kept) :
    p.Open folding least (Fold.withBody q f kept) := by
  have hshell := h.shell.trans (sameShell_withBody q f kept)
  have hself : (Fold.withBody q f kept).bodyOf f = kept ∨
      (Fold.withBody q f kept).bodyOf f = p.bodyOf f := by
    cases hnative : (q.function f).isNative with
    | true =>
        have hnative' := ((sameShell_withBody q f kept).isNative f).trans hnative
        rw [bodyOf_of_native hnative', bodyOf_of_native ((h.shell.isNative f).symm.trans hnative)]
        exact .inr rfl
    | false => exact .inl (bodyOf_withBody_self kept hnative)
  refine ⟨hshell, ?_, ?_⟩
  · intro g
    by_cases hg : g = f
    · subst hg
      rcases hself with hkept | hsame
      · rw [hkept]
        exact .inr ⟨d, hedited⟩
      · rw [hsame]
        exact .inr ⟨d, .refl _ _⟩
    · rw [Fold.bodyOf_withBody_ne q hg]
      exact h.edited g
  · intro g hopen
    by_cases hg : g = f
    · subst hg
      rcases hself with hkept | hsame
      · rw [hkept]
        exact hreplaced
      · rw [hsame]
        exact bodyReplaced_self p least _
    · rw [Fold.bodyOf_withBody_ne q hg]
      exact h.bodies g (by simp [hg, hopen])

end Program
end Scriptlet
