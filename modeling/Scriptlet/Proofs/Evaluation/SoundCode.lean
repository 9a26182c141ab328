import Scriptlet.Proofs.Binding.Programs
import Scriptlet.Proofs.Evaluation.Coroutines
import Scriptlet.Proofs.Evaluation.Preservation

/-!
# Sound code

Code is sound if it asks only for operations that fit the program, whatever it is answered,
and leaves as many frames as it has found.  Once an operation has failed it can only end with
an error.  The code of an accepted program is sound, and a call ends with a result of the
declared type or with an error, never with a return.
-/

namespace Scriptlet

/-- How code ends: well, or with an error, but with no return on its way. -/
def Returns {α : Type} (good : α -> Prop) : Except Signal α -> Prop
  | .ok a => good a
  | .error s => exists e, s = .error e

def LeavesBody : Except Signal Unit -> Prop
  | .ok _ => True
  | .error s => (exists e, s = .error e) ∨ exists value, s = .returned value

namespace Operation

def depth (d : Nat) : Operation -> Nat
  | .push _ _ => d + 1
  | .pop => d - 1
  | _ => d

def MayFail : Operation -> Prop
  | .push _ _ => False
  | .pop => False
  | _ => True

def Fits (p : Program) (d : Nat) : Operation -> Prop
  | .read id _ => (Mention.read id).FitsSomewhere p
  | .write id _ _ => exists mention : Mention, mention.FitsSomewhere p ∧ mention.stored? = some id
  | .native f values _ => f < p.functions.length ∧ Accepted (p.function f).params values
  | .push f values =>
      f < p.functions.length ∧ p.ParamsExact f ∧ Accepted (p.function f).params values
  | .pop => 0 < d
  | .start _ _ target f values =>
      (exists arity, (Mention.start target f arity).FitsSomewhere p) ∧
        Accepted (p.function f).params values
  | .await _ target => (Mention.await target).FitsSomewhere p
  | .takeLeaks => d = 0

end Operation

namespace Coroutine

variable {α β : Type} {p : Program} {home d : Nat}

def Sound (p : Program) (home : Nat) :
    Nat -> (Except Signal α -> Prop) -> Coroutine α -> Prop
  | d, post, done a => d = home ∧ post (.ok a)
  | d, post, raised s => d = home ∧ post (.error s)
  | _, _, unfinished => True
  | d, post, ask op next =>
      op.Fits p d ∧ (forall answer, Sound p home (op.depth d) post (next (.ok answer))) ∧
        (op.MayFail -> forall e, Sound p home d (Returns fun _ => False) (next (.error (.error e))))

theorem Sound.mono {post post' : Except Signal α -> Prop} {x : Coroutine α}
    (h : x.Sound p home d post) (himp : forall r, post r -> post' r) : x.Sound p home d post' := by
  induction x generalizing d with
  | done a => exact ⟨h.1, himp _ h.2⟩
  | raised s => exact ⟨h.1, himp _ h.2⟩
  | unfinished => trivial
  | ask op next ih => exact ⟨h.1, fun answer => ih _ (h.2.1 answer), h.2.2⟩

theorem Sound.bind {post : Except Signal α -> Prop} {post' : Except Signal β -> Prop}
    {x : Coroutine α} {f : α -> Coroutine β} (h : x.Sound p home d post)
    (hf : forall a, post (.ok a) -> (f a).Sound p home home post')
    (hraised : forall s, post (.error s) -> post' (.error s)) :
    (x >>= f).Sound p home d post' := by
  induction x generalizing d post post' with
  | done a => exact h.1 ▸ hf a h.2
  | raised s => exact ⟨h.1, hraised s h.2⟩
  | unfinished => trivial
  | ask op next ih =>
      refine ⟨h.1, fun answer => ih _ (h.2.1 answer) hf hraised, fun hfail e => ?_⟩
      exact ih _ (h.2.2 hfail e) (fun _ hnever => hnever.elim) fun _ he => he

theorem sound_perform (op : Operation) (hop : op.Fits p d) (hdepth : op.depth d = d) :
    (perform op).Sound p d d (Returns fun _ => True) :=
  ⟨hop, fun _ => ⟨hdepth, trivial⟩, fun _ e => ⟨rfl, e, rfl⟩⟩

theorem sound_pop {post : Except Signal α -> Prop} {x : Coroutine α}
    (h : x.Sound p home d post) : (perform .pop >>= fun _ => x).Sound p home (d + 1) post :=
  ⟨Nat.succ_pos d, fun _ => h, fun hnever => hnever.elim⟩

theorem Sound.leaveFrame {post : Except Signal α -> Prop} {x : Coroutine α}
    (h : x.Sound p (home + 1) d post) : x.leaveFrame.Sound p home d post := by
  induction x generalizing d post with
  | done a => exact h.1 ▸ sound_pop ⟨rfl, h.2⟩
  | raised s => exact h.1 ▸ sound_pop ⟨rfl, h.2⟩
  | unfinished => trivial
  | ask op next ih =>
      exact ⟨h.1, fun answer => ih _ (h.2.1 answer), fun hfail e => ih _ (h.2.2 hfail e)⟩

theorem Sound.inFrame {post : Except Signal α -> Prop} {f : FunId} {values : List Value}
    {body : Coroutine α} (hf : (Operation.push f values).Fits p d)
    (h : body.Sound p (d + 1) (d + 1) post) : (inFrame f values body).Sound p d d post :=
  ⟨hf, fun _ => h.leaveFrame, fun hnever => hnever.elim⟩

theorem Sound.catchReturn {x : Coroutine Unit} (h : x.Sound p home d LeavesBody) :
    x.catchReturn.Sound p home d (Returns fun _ => True) := by
  have hcaught : forall {d : Nat} {post : Except Signal Unit -> Prop}
      {post' : Except Signal (Option Value) -> Prop} (x : Coroutine Unit), x.Sound p home d post ->
      (post (.ok ()) -> post' (.ok none)) ->
      (forall value, post (.error (.returned value)) -> post' (.ok (some value))) ->
      (forall s, post (.error s) -> (forall value, s ≠ .returned value) -> post' (.error s)) ->
      x.catchReturn.Sound p home d post' := by
    intro d post post' x h hnext hreturned hother
    induction x generalizing d post post' with
    | done a => exact ⟨h.1, hnext h.2⟩
    | raised s =>
        cases s with
        | returned value => exact ⟨h.1, hreturned value h.2⟩
        | error e => exact ⟨h.1, hother _ h.2 nofun⟩
        | strayed value => exact ⟨h.1, hother _ h.2 nofun⟩
    | unfinished => trivial
    | ask op next ih =>
        refine ⟨h.1, fun answer => ih _ (h.2.1 answer) hnext hreturned hother, fun hfail e => ?_⟩
        refine ih _ (h.2.2 hfail e) (fun hnever => hnever.elim) ?_ fun _ he _ => he
        rintro value ⟨e, he⟩
        cases he
  apply hcaught x h
  · exact fun _ => trivial
  · exact fun _ _ => trivial
  · rintro s (herror | ⟨value, hvalue⟩) hno
    · exact herror
    · exact absurd hvalue (hno value)

/-!
# Walks are sound
-/

def law (p : Program) : Walk.Law Coroutine where
  holds := fun good x => forall d, x.Sound p d d (Returns good)
  ret := fun ha _ => ⟨rfl, ha⟩
  bind := fun hx hf d => (hx d).bind (fun a ha => hf a ha d) fun _ he => he

theorem law_mono {good good' : α -> Prop} {x : Coroutine α} (h : (law p).holds good x)
    (himp : forall a, good a -> good' a) : (law p).holds good' x := by
  intro d
  apply (h d).mono
  intro r hr
  cases r with
  | ok a => exact himp a hr
  | error s => exact hr

def CallsSound (p : Program) (invoke : FunId -> List Value -> Pos -> Coroutine (Option Value)) :
    Prop :=
  forall f values pos, f < p.functions.length -> Accepted (p.function f).params values ->
    (law p).holds (fun result => yieldType result = (p.function f).result) (invoke f values pos)

section Walks

variable {fuel : Nat} {invoke : FunId -> List Value -> Pos -> Coroutine (Option Value)}

theorem obey_actions (hcalls : CallsSound p invoke) :
    (actions fuel invoke).Obey (law p) p (Mention.FitsSomewhere p) where
  raise := fun e d => ⟨rfl, e, rfl⟩
  reads := fun pos hfits d => sound_perform (.read _ pos) hfits rfl
  writes := fun v pos hfits hstored d =>
    sound_perform (.write _ v pos) ⟨_, hfits, hstored⟩ rfl
  calls := by
    intro f arity values pos hfits hvalues
    rcases hfits with ⟨owners, hcall⟩
    exact law_mono (hcalls f values pos hcall.1 hvalues) fun _ _ => trivial
  starts := fun pos hfits hvalues d =>
    sound_perform (.start fuel pos _ _ _) ⟨⟨_, hfits⟩, hvalues⟩ rfl
  awaits := fun pos hfits d => sound_perform (.await pos _) hfits rfl
  exhausted := fun d => trivial

theorem stops_actions : Raising.Stops (actions fuel invoke) leave where
  leave := fun _ _ => rfl
  exhausted := fun _ => rfl

theorem sound_stmts (hcalls : CallsSound p invoke) {body : List Stmt}
    (hfit : p.Fit (Stmt.listMentions body)) (limit d : Nat) :
    (Raising.stmts p (actions fuel invoke) leave limit body).Sound p d d LeavesBody := by
  rw [Raising.stmts_eq stops_actions]
  apply ((obey_actions hcalls).stmts limit body hfit d).bind
  · intro flow _
    cases flow with
    | next => exact ⟨rfl, trivial⟩
    | returned value => exact ⟨rfl, .inr ⟨value, rfl⟩⟩
  · exact fun s he => .inl he

theorem sound_checkResult (f : Function) (pos : Pos) (result : Option Value) :
    (law p).holds (fun r => yieldType r = f.result)
      (Walk.checkResult (actions fuel invoke) f pos result) := by
  intro d
  unfold Walk.checkResult
  split
  · rename_i htype
    exact ⟨rfl, htype⟩
  · exact ⟨rfl, _, rfl⟩

theorem sound_checkArguments (hcalls : CallsSound p invoke) (f : FunId) (pos : Pos) :
    forall (params : List Param) (values : List Value),
      (law p).holds (fun _ => Accepted params values)
        (Walk.checkArguments (actions fuel invoke) p f pos params values)
  | param :: params, value :: values => by
      apply (law p).bind ((obey_actions hcalls).checkArgument f param value pos)
      intro _ haccepts
      apply law_mono (sound_checkArguments hcalls f pos params values)
      exact fun _ hrest => accepted_cons haccepts hrest
  | [], _ => (law p).ret (accepted_of_nil (.inl rfl))
  | _ :: _, [] => (law p).ret (accepted_of_nil (.inr rfl))

end Walks
end Coroutine

/-!
# Programs are sound
-/

namespace Program.WellFormed

open Coroutine

variable {p : Program} (hwell : p.WellFormed)

include hwell

theorem sound_callCode (fuel : Nat) : CallsSound p (p.callCode fuel) := by
  -- By induction on the fuel: the calls of a body have less.
  induction fuel with
  | zero => exact fun _ _ _ _ _ _ => trivial
  | succ fuel ih =>
      intro f values pos hf haccepted
      cases hblock : (p.function f).body with
      | none =>
          simp only [callCode, hblock]
          have hnative : (law p).holdsAll (perform (.native f values pos)) :=
            fun d => sound_perform (.native f values pos) ⟨hf, haccepted⟩ rfl
          apply (law p).bind hnative
          intro result _
          split
          · rename_i hnone
            exact (law p).ret hnone.symm
          · exact sound_checkResult _ pos result
      | some block =>
          rcases hwell.body hblock with ⟨hexact, hfit⟩
          simp only [callCode, hblock]
          have hbody : (law p).holdsAll (catchReturn (inFrame f values
              (Raising.stmts p (p.codeActions fuel) leave fuel block.body))) :=
            fun d => (Sound.inFrame ⟨hf, hexact, haccepted⟩
              (sound_stmts ih hfit fuel (d + 1))).catchReturn
          apply (law p).bind hbody
          intro result _
          exact sound_checkResult _ pos result

theorem sound_runCode (fuel : Nat) : (p.runCode fuel).Sound p 0 0 (Returns fun _ => True) := by
  apply (sound_stmts (hwell.sound_callCode fuel) hwell.root.fit fuel 0).catchReturn.bind
  · intro result _
    apply (sound_perform .takeLeaks rfl rfl).bind
    · exact fun _ _ => ⟨rfl, trivial⟩
    · exact fun _ he => he
  · exact fun _ he => he

theorem sound_callFunctionCode (fuel : Nat) {f : FunId} (hf : f < p.functions.length)
    (args : List Value) :
    (law p).holds (fun result => yieldType result = (p.function f).result)
      (p.callFunctionCode fuel f args) := by
  unfold callFunctionCode
  dsimp only
  split
  · exact (obey_actions (hwell.sound_callCode fuel)).raise _
  · apply (law p).bind (sound_checkArguments (hwell.sound_callCode fuel) f _ _ args)
    intro _ haccepted
    exact hwell.sound_callCode fuel f args _ hf haccepted

end Program.WellFormed
end Scriptlet
