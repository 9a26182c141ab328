import Scriptlet.Proofs.Folding.StatementRuns

/-!
# Runs of folded bodies

The pass folds each body where it comes by its declaration, with the bodies around it open.
In a predictable program a call comes back to an open body by functions around it only, and
these are not followed.  So all that the pass finds out holds in the runs of the original
program, and what is left of a body may stand in its place there.
-/

namespace Scriptlet

/-!
# Open bodies around a place
-/

namespace Program

def OpenAround (p : Program) (folding : List FunId) : Prop :=
  forall h, h ∈ folding <-> exists f, folding.head? = some f ∧ p.Surrounds h f

section OpenAround

variable {p : Program} {folding : List FunId}

theorem openAround_nil (p : Program) : p.OpenAround [] := by
  simp [OpenAround]

theorem OpenAround.cons (h : p.OpenAround folding) (hnested : p.WellNested) {f : FunId}
    (hf : .declareFunction f ∈ Stmt.listMentions (p.textOf folding.head?)) :
    p.OpenAround (f :: folding) := by
  have habove : forall g, p.Encloses g f <-> g ∈ folding := by
    intro g
    rw [h g]
    cases houter : folding.head? with
    | none =>
        rw [houter] at hf
        exact ⟨fun hencloses => absurd hencloses ((hnested.declared hf).not_encloses g), nofun⟩
    | some c =>
        rw [houter] at hf
        rw [hnested.nested.encloses_iff hf g]
        simp
  intro g
  rw [List.mem_cons, ← habove]
  constructor
  · rintro (rfl | hencloses)
    · exact ⟨g, rfl, .refl⟩
    · exact ⟨f, rfl, hencloses.to_reflTransGen⟩
  · rintro ⟨_, ⟨⟩, hsurrounds⟩
    exact hsurrounds.eq_or_encloses

theorem OpenAround.followed (h : p.OpenAround folding) (hp : p.Predictable) :
    Admitted (Mention.Followed p folding) (Stmt.listMentions (p.textOf folding.head?)) := by
  intro m hm
  cases folding with
  | nil => exact ⟨⟨[], hp.wellFormed.root m hm⟩, fun _ _ => .inr fun _ hopen => nomatch hopen⟩
  | cons f rest =>
      refine ⟨hp.wellFormed.fit f m hm, ?_⟩
      intro g hcallee
      by_cases hopen : p.Avoids (f :: rest) g
      · exact .inr hopen
      · simp only [Avoids, not_forall, not_not] at hopen
        rcases hopen with ⟨c, hc, hreaches⟩
        rcases (h c).mp hc with ⟨_, ⟨⟩, hsurrounds⟩
        exact .inl ((h g).mpr ⟨f, rfl, hp.recursOutward f m g c hm hcallee hsurrounds hreaches⟩)

end OpenAround
end Program

/-!
# The pass
-/

section Parts

variable {p : Program}

theorem FoldPoint.Faithful.followed {mode : FoldMode} {depth : Nat} {task : FoldTask}
    {s : FoldState} (ha : FoldPoint.Faithful p ⟨mode, depth, task, s⟩)
    (hfollowed : Admitted (Mention.Followed p mode.folding)
      (Stmt.listMentions (p.textOf mode.folding.head?))) :
    Admitted (Mention.Followed p mode.folding) task.mentions :=
  fun m hm => hfollowed m (ha.stands.sublist.subset hm)

theorem Stmt.ListServedBy.bodyReplaced {least : Nat} {body kept : List Stmt} {after : Valuation}
    (h : Stmt.ListServedBy p least .empty body kept after) : p.BodyReplaced least body kept :=
  fun σ l fuel hl => (h σ l fuel hl).mono (fun _ => knows_empty) fun _ _ _ => trivial

theorem ListServed.cons {mode : FoldMode} {st : Stmt} {rest : List Stmt} {s s₁ s₂ : FoldState}
    {least least' : Nat} {r : FoldedStmt} {left kept : List Stmt}
    (hfirst : StmtServed p mode st s least r s₁) (hle : least ≤ least')
    (hrest : ListServed p mode rest s₁ least' (some kept) s₂) (hleft : r.left? = some left) :
    ListServed p mode (st :: rest) s least' (some (left ++ kept)) s₂ := by
  have hmore := Nat.add_le_add_left hle (mode.quota + 1)
  have hbehind := hrest.runs kept rfl
  refine ⟨hrest.table, ?_, ?_⟩
  · rintro _ ⟨⟩
    cases r with
    | keep st' =>
        cases hleft
        have hruns : st.ServedBy _ _ _ st' _ := hfirst.runs
        exact (hruns.weaken hmore).keep hbehind
    | remove =>
        cases hleft
        have hruns : st.Droppable _ _ _ _ := hfirst.runs
        exact (hruns.weaken hmore).remove hbehind
    | giveUp => cases hleft
  · rintro _ ⟨⟩
    cases r with
    | keep st' =>
        cases hleft
        exact (hfirst.learns _ rfl).trans (hrest.learns kept rfl)
    | remove =>
        cases hleft
        exact (hfirst.learns _ rfl).trans (hrest.learns kept rfl)
    | giveUp => cases hleft

end Parts

namespace Fold

open FoldPoint

section Pass

variable {p : Program}

def EntersServed (p : Program) (quota depth : Nat) (folding : List FunId) : Prop :=
  forall (mode : FoldMode) (pos : Pos) (f : FunId) (s : FoldState) (least : Nat),
    mode.quota = quota -> mode.folding = folding ->
    Faithful p ⟨mode, depth, .stmt (.funDecl pos f), s⟩ -> p.Open folding least s.program ->
    Yields (functionWithin quota depth folding f) s fun _ s' => s'.known = s.known ∧
      exists least', least ≤ least' ∧ p.Open folding least' s'.program

theorem served_funDecl {mode : FoldMode} {depth : Nat} {pos : Pos} {f : FunId} {s : FoldState}
    {least : Nat} (henter : EntersServed p mode.quota depth mode.folding)
    (ha : Faithful p ⟨mode, depth, .stmt (.funDecl pos f), s⟩)
    (htable : p.Open mode.folding least s.program) :
    Yields (funDecl (functionWithin mode.quota depth mode.folding) pos f) s fun r s' =>
      exists least', least ≤ least' ∧ StmtServed p mode (.funDecl pos f) s least' r s' := by
  apply (henter mode pos f s least rfl rfl ha htable).bind
  rintro _ s₁ ⟨hknown, least', hle, htable₁⟩
  have hidle : forall stats : FoldStats,
      StmtServed p mode (.funDecl pos f) s least' (.keep (.funDecl pos f))
        { s₁ with stats := stats } ∧
      StmtServed p mode (.funDecl pos f) s least' .remove { s₁ with stats := stats } :=
    fun _ => served_idle htable₁ (fun _ _ _ => rfl) fun _ _ hv => hknown ▸ hv
  apply Ensures.get_bind
  cases (s₁.program.function f).body with
  | none => exact ⟨least', hle, (hidle s₁.stats).1⟩
  | some block =>
      apply Ensures.ite
      · intro _
        exact ⟨least', hle, (hidle _).2⟩
      · intro _
        exact ⟨least', hle, (hidle s₁.stats).1⟩

section Trees

variable (hp : p.Predictable)

include hp

mutual

theorem served_stmt (mode : FoldMode) (depth : Nat) (hlater : DeclaresLater p mode.folding)
    (hfollowed : Admitted (Mention.Followed p mode.folding)
      (Stmt.listMentions (p.textOf mode.folding.head?)))
    (henter : EntersServed p mode.quota depth mode.folding) :
    forall (st : Stmt) {s : FoldState} {least : Nat}, Faithful p ⟨mode, depth, .stmt st, s⟩ ->
    p.Open mode.folding least s.program ->
    Yields (stmt mode (functionWithin mode.quota depth mode.folding) st) s fun r s' =>
      exists least', least ≤ least' ∧ StmtServed p mode st s least' r s'
  | .constDecl _ _, _, least, _, htable =>
      ⟨least, Nat.le_refl _, (served_idle htable (fun _ _ _ => rfl) fun _ _ hv => hv).1⟩
  | .varDecl pos id none, s, least, _, htable => by
      apply (forgets_forget id s).bind
      intro _ s₁ hforgets
      exact ⟨least, Nat.le_refl _,
        (served_idle (hforgets.program ▸ htable) (fun _ _ _ => rfl) hforgets.known).1⟩
  | .varDecl pos id (some init), s, least, ha, htable => by
      have hmentions := ha.followed hfollowed
      have hid : id < p.vars.length := Program.lt_of_stored hmentions.head.fits rfl
      exact (served_assigned hp htable (fun tree => .varDecl pos id (some tree)) hid hmentions.tail
        (fun _ _ _ => rfl) (fun _ _ _ _ => rfl) fun _ => rfl).mono
          fun _ _ h => ⟨least, Nat.le_refl _, h⟩
  | .assign pos id value, s, least, ha, htable => by
      have hmentions := ha.followed hfollowed
      have hid : id < p.vars.length := Program.lt_of_stored hmentions.head.fits rfl
      exact (served_assigned hp htable (.assign pos id) hid hmentions.tail
        (fun _ _ _ => rfl) (fun _ _ _ _ => rfl) fun _ => rfl).mono
          fun _ _ h => ⟨least, Nat.le_refl _, h⟩
  | .funDecl pos f, s, least, ha, htable => served_funDecl henter ha htable
  | .block head body, s, least, ha, htable => by
      have hinner := ha.inner .block rfl
      have hbody := served_stmts mode depth hlater hfollowed henter body hinner htable
      apply hbody.bind
      rintro result s₁ ⟨least', hle, hserved⟩
      cases result with
      | none => exact ⟨least', hle, served_gaveUp hserved.table⟩
      | some kept =>
          have hruns := hserved.runs kept rfl
          have hlearns := hserved.learns kept rfl
          cases kept with
          | nil =>
              refine ⟨least', hle, hserved.table, droppable_block hruns, ?_⟩
              rintro _ ⟨⟩
              exact hlearns
          | cons first rest =>
              exact ⟨least', hle, served_kept hserved.table (servedBy_block hruns) hlearns⟩
  | .ifThen pos cond head body, s, least, ha, htable => by
      apply served_ifThen hp htable (ha.followed hfollowed).left
      intro c s₁ hslot htable₁
      have hc := slotTyped_of_ok ha.typed hslot
      exact served_stmts mode depth hlater hfollowed henter body
        (ha.behind .branch rfl hc.state hc.program) htable₁
  | .whileDo pos cond head body, s, least, ha, htable => by
      apply served_whileDo hp htable (ha.followed hfollowed)
      intro c s₁ hslot htable₁
      have hc := slotTyped_of_ok ha.typed hslot
      have hinner : Faithful p ⟨{ mode with constantOnly := true }, depth, .stmts body, s₁⟩ :=
        ha.behind .loopBody rfl hc.state hc.program
      have hedits := edits_stmts hp.nested { mode with constantOnly := true } depth hlater
        (entersEditing_functionWithin hp.nested mode.quota depth mode.folding hlater) body hinner
      exact (served_stmts { mode with constantOnly := true } depth hlater hfollowed henter body
        hinner htable₁).and hedits
  | .ret pos value, s, least, ha, htable =>
      (served_ret hp htable (ha.followed hfollowed)).mono
        fun _ _ h => ⟨least, Nat.le_refl _, h⟩
  | .call pos f args, s, least, ha, htable =>
      (served_callStmt hp htable (ha.followed hfollowed)).mono
        fun _ _ h => ⟨least, Nat.le_refl _, h⟩
  | .async pos target f args, s, least, ha, htable =>
      (served_asyncStmt hp htable (ha.followed hfollowed)).mono
        fun _ _ h => ⟨least, Nat.le_refl _, h⟩
  | .await pos target, s, least, ha, htable =>
      (served_awaitStmt hp htable (ha.followed hfollowed)).mono
        fun _ _ h => ⟨least, Nat.le_refl _, h⟩

theorem served_stmts (mode : FoldMode) (depth : Nat) (hlater : DeclaresLater p mode.folding)
    (hfollowed : Admitted (Mention.Followed p mode.folding)
      (Stmt.listMentions (p.textOf mode.folding.head?)))
    (henter : EntersServed p mode.quota depth mode.folding) :
    forall (body : List Stmt) {s : FoldState} {least : Nat},
    Faithful p ⟨mode, depth, .stmts body, s⟩ -> p.Open mode.folding least s.program ->
    Yields (stmts mode (functionWithin mode.quota depth mode.folding) body) s fun result s' =>
      exists least', least ≤ least' ∧ ListServed p mode body s least' result s'
  | [], s, least, _, htable => by
      refine ⟨least, Nat.le_refl _, htable, ?_, ?_⟩
      · rintro _ ⟨⟩
        exact listServedBy_done
      · rintro _ ⟨⟩
        exact learns_of_sub _ fun _ _ hv => hv
  | st :: rest, s, least, ha, htable => by
      have hst := ha.inner .first rfl
      have hfirst := (served_stmt mode depth hlater hfollowed henter st hst htable).and
        (changesBelow_stmt hp.nested hst)
      apply hfirst.bind
      rintro first s₁ ⟨⟨least₁, hle₁, hfirst⟩, hchanged⟩
      have hnext := ha.next hp.nested hchanged
      have hrest := served_stmts mode depth hlater hfollowed henter rest hnext hfirst.table
      cases first with
      | giveUp => exact ⟨least₁, hle₁, hfirst.table, nofun, nofun⟩
      | remove =>
          apply hrest.mono
          rintro result s₂ ⟨least₂, hle₂, hrest⟩
          refine ⟨least₂, Nat.le_trans hle₁ hle₂, ?_⟩
          cases result with
          | none => exact ⟨hrest.table, nofun, nofun⟩
          | some kept => exact .cons hfirst hle₂ hrest rfl
      | keep st' =>
          apply hrest.bind
          rintro result s₂ ⟨least₂, hle₂, hrest⟩
          have hle := Nat.le_trans hle₁ hle₂
          cases result with
          | none => exact ⟨least₂, hle, hrest.table, nofun, nofun⟩
          | some kept => exact ⟨least₂, hle, .cons hfirst hle₂ hrest rfl⟩

end

theorem entersServed_functionWithin (quota depth : Nat) :
    forall folding : List FunId, DeclaresLater p folding -> p.OpenAround folding ->
      EntersServed p quota depth folding := by
  -- By induction on the number of bodies that may still be opened: while a body is open, the
  -- functions below it are entered with one less.
  induction depth with
  | zero =>
      intro folding _ _ mode pos f s least _ _ _ htable
      exact ⟨rfl, least, Nat.le_refl _, htable⟩
  | succ depth ih =>
      intro folding hlater haround mode pos f s least hquota hfolding ha htable
      subst hquota hfolding
      have hdeclared := ha.stands.sublist.subset (List.mem_singleton.mpr rfl)
      have hlater' := hlater.cons hp.nested.nested hdeclared
      have haround' := haround.cons hp.nested hdeclared
      have hinner := ha.body hp.nested
      have hserved := served_stmts hp
        (bodyMode mode.quota mode.folding f) depth hlater' (haround'.followed hp)
        (ih (f :: mode.folding) hlater' haround') (s.program.bodyOf f) hinner (htable.enter f)
      have hedits := edits_stmts hp.nested (bodyMode mode.quota mode.folding f) depth hlater'
        (entersEditing_functionWithin hp.nested mode.quota depth (f :: mode.folding) hlater')
        (s.program.bodyOf f) hinner
      have horiginal : s.program.bodyOf f = p.bodyOf f :=
        ha.intact f (Program.covers_singleton.mpr .refl)
      rw [horiginal] at hserved hedits
      apply Ensures.get_bind
      apply Ensures.set_bind
      rw [horiginal]
      apply (hserved.and hedits).bind
      rintro result s₁ ⟨⟨least', hle, hserved⟩, hedits⟩
      have hmore : least' ≤ mode.quota + 1 + least' := Nat.le_add_left _ _
      refine ⟨rfl, mode.quota + 1 + least', Nat.le_trans hle hmore, ?_⟩
      cases result with
      | none =>
          exact (hserved.table.mono hmore).leave (.refl .nothing _) (bodyReplaced_self p _ _)
      | some kept =>
          exact (hserved.table.mono hmore).leave (hedits.tree kept rfl)
            (Stmt.ListServedBy.bodyReplaced (hserved.runs kept rfl))

end Trees
end Pass
end Fold
end Scriptlet
