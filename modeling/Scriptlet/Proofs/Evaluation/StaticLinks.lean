import Scriptlet.Proofs.Evaluation.ActiveOwners
import Scriptlet.Proofs.Evaluation.Discipline
import Scriptlet.Proofs.Evaluation.Walk

/-!
# Static links

An evaluator that never searches the stack.  A call of a function that is declared in
another one gets a static link: the activation of that other function to which the links
of the calling code lead.  A variable is found in the frame of the activation to which the
links of the running code lead for its owner, wherever that frame lies in the stack.  The
evaluator has nothing to do where a link or a frame is missing, and does not end there.

It agrees with the evaluator that takes the innermost frame of the owner.
-/

namespace Scriptlet

/-- A call that is active: its function, and how many frames lie below its frame. -/
structure Activation where
  function : FunId
  height : Nat
deriving DecidableEq, Repr

/-- The activation of running code, then the one to which its static link leads, then the
one to which the link of that one leads, and so on.  The outermost level has none. -/
abbrev Links : Type :=
  List Activation

def Program.parent? (p : Program) (f : FunId) : Option FunId :=
  (List.range p.functions.length).find? fun c => (declaredFunctions (p.mentionsOf c)).contains f

namespace Links

def toCall (p : Program) (links : Links) (f : FunId) : Links :=
  match p.parent? f with
  | none => []
  | some c => links.dropWhile (·.function != c)

/-- The place of the frame to which the links lead for an owner. -/
def height? (links : Links) (owner : FunId) : Option Nat :=
  (links.find? (·.function == owner)).map (·.height)

def frameAt (height : Nat) : List Frame -> Option Frame
  | [] => none
  | frame :: rest => if rest.length = height then some frame else frameAt height rest

def changeAt (height : Nat) (change : Frame -> Frame) : List Frame -> Option (List Frame)
  | [] => none
  | frame :: rest =>
      if rest.length = height then some (change frame :: rest)
      else (changeAt height change rest).map (frame :: ·)

def frame? (links : Links) (owner : FunId) (frames : List Frame) : Option Frame :=
  (links.height? owner).bind (frameAt · frames)

def change? (links : Links) (owner : FunId) (change : Frame -> Frame) (frames : List Frame) :
    Option (List Frame) :=
  (links.height? owner).bind (changeAt · change frames)

end Links

/-!
# An evaluator with static links
-/

namespace Linked

variable {σ : Type} (p : Program) (links : Links)

def changeFrame (owner : FunId) (change : Frame -> Frame) : Eval σ Unit := fun m =>
  match links.change? owner change m.frames with
  | some frames => .done () { m with frames := frames }
  | none => .unfinished

def readVar (id : VarId) (pos : Pos) : Eval σ Value :=
  let v := p.variableAt id
  match v.owner with
  | none => Eval.readVar p id pos
  | some owner => fun m =>
      match links.frame? owner m.frames with
      | none => .unfinished
      | some frame =>
          match frame.slot v.slot with
          | some value => .done value m
          | none => Eval.failAt (.uninitialized v.name) pos m

def writeVar (id : VarId) (value : Value) (pos : Pos) : Eval σ Unit :=
  let v := p.variableAt id
  match v.owner with
  | none => Eval.writeVar p id value pos
  | some owner =>
      if v.type = value.type then
        changeFrame links owner (·.setSlot v.slot value)
      else
        Eval.mismatch (.assignment v.name) v.type value.type pos

def checkTarget (target : VarId) (pos : Pos) : Eval σ Unit :=
  match (p.variableAt target).owner with
  | none => Eval.checkTarget p target pos
  | some owner => fun m =>
      match links.frame? owner m.frames with
      | none => .unfinished
      | some _ => .done () m

def addTask (task : PendingTask) : Eval σ Unit :=
  match (p.variableAt task.target).owner with
  | none => Eval.addTask p task
  | some owner => changeFrame links owner (·.mapTasks (·.insert (Eval.variableName p) task))

def takeTask (target : VarId) (pos : Pos) : Eval σ PendingTask :=
  match (p.variableAt target).owner with
  | none => Eval.takeTask p target pos
  | some owner => fun m =>
      match links.frame? owner m.frames with
      | none => .unfinished
      | some frame =>
          match frame.tasks.find? target with
          | none => Eval.failAt (.unknownAsyncTarget (Eval.variableName p target)) pos m
          | some task =>
              (do
                changeFrame links owner (·.mapTasks (·.erase target))
                return task : Eval σ PendingTask) m

def awaitTask (pos : Pos) (target : VarId) : Eval σ Unit := do
  let task ← takeTask p links target pos
  match task.result with
  | .error e => Eval.failAt (.taskFailed task.function e.cause e.pos) pos
  | .ok none =>
      Eval.mismatch (.taskResult task.function) (p.variableAt target).type .none pos
  | .ok (some value) => writeVar p links target value pos

/-- What is done in code with the given links.  Calls are told the static link of the
callee; a task is alone with its call and has none. -/
def actions (invoke : Links -> Invoke σ) : Actions (Run RuntimeError (Machine σ)) where
  raise := Run.fail
  readVar := readVar p links
  writeVar := writeVar p links
  call := fun f values pos => invoke (links.toCall p f) f values pos
  startTask := fun pos target f values => do
    checkTarget p links target pos
    let result ← Eval.asTask (invoke [] f values pos)
    addTask p links
      { target := target, function := (p.function f).name, pos := pos, result := result }
  awaitTask := awaitTask p links
  exhausted := Run.exhausted

end Linked

namespace Loaded

variable {σ : Type}

/-- Calls a function with its static link.  The frame of the call lies above all that are
there. -/
def linkedInvoke (l : Loaded σ) : Nat -> Links -> Invoke σ
  | 0, _ => fun _ _ _ => Run.exhausted
  | fuel + 1, link => fun f args pos =>
      match (l.program.function f).body with
      | none => l.invoke (fuel + 1) f args pos
      | some block => do
          let height := (← Run.get).frames.length
          let acts :=
            Linked.actions l.program ({ function := f, height := height } :: link)
              (l.linkedInvoke fuel)
          let flow ← Eval.inFrame l.program (Eval.callFrame l.program f args)
            (Walk.stmts acts l.program fuel block.body)
          Eval.checkResult (l.program.function f) pos flow.value?

def linkedRun (l : Loaded σ) (fuel : Nat) : Eval σ RunReport := do
  let acts := Linked.actions l.program [] (l.linkedInvoke fuel)
  let flow ← Walk.stmts acts l.program fuel l.program.root
  let leaked ← takeLeaks l.program
  return { result := flow.value?, leaked := leaked }

def linkedCallFunction (l : Loaded σ) (fuel : Nat) (f : FunId) (args : List Value) :
    Eval σ (Option Value) := do
  let function := l.program.function f
  let pos := function.entryPos
  if args.length ≠ function.params.length then
    Eval.failAt (.arityMismatch function.name function.params.length args.length) pos
  else
    checkArguments l.program f pos function.params args
    l.linkedInvoke fuel [] f args pos

end Loaded

/-!
# Links that lead to innermost frames
-/

def heightOf : List FunId -> FunId -> Option Nat
  | [], _ => none
  | f :: rest, owner => if f = owner then some rest.length else heightOf rest owner

theorem heightOf_lt {owners : List FunId} {owner : FunId} {height : Nat}
    (h : heightOf owners owner = some height) : height < owners.length := by
  induction owners with
  | nil => cases h
  | cons f rest ih =>
      rw [heightOf] at h
      by_cases hf : f = owner
      · rw [if_pos hf] at h
        cases h
        exact Nat.lt_succ_self _
      · rw [if_neg hf] at h
        exact Nat.lt_succ_of_lt (ih h)

theorem mem_of_heightOf {owners : List FunId} {owner : FunId} {height : Nat}
    (h : heightOf owners owner = some height) : owner ∈ owners := by
  induction owners with
  | nil => cases h
  | cons f rest ih =>
      rw [heightOf] at h
      by_cases hf : f = owner
      · exact hf ▸ List.mem_cons_self
      · rw [if_neg hf] at h
        exact List.mem_cons_of_mem f (ih h)

section Frames

variable {frames : List Frame} {owner : FunId} {height : Nat}
  (h : heightOf (frames.map (·.owner)) owner = some height)

include h

theorem frameAt_heightOf : Links.frameAt height frames = frames.find? (·.owner == owner) := by
  induction frames with
  | nil => cases h
  | cons frame rest ih =>
      rw [List.map_cons, heightOf, List.length_map] at h
      rw [Links.frameAt, List.find?_cons]
      by_cases hf : frame.owner = owner
      · rw [if_pos hf] at h
        cases h
        rw [if_pos rfl, beq_iff_eq.mpr hf]
      · rw [if_neg hf] at h
        have hlt := heightOf_lt h
        rw [List.length_map] at hlt
        rw [if_neg (Nat.ne_of_gt hlt), ih h, beq_eq_false_iff_ne.mpr hf]

theorem changeAt_heightOf (change : Frame -> Frame) :
    Links.changeAt height change frames = Machine.updateFrame owner change frames := by
  induction frames with
  | nil => cases h
  | cons frame rest ih =>
      rw [List.map_cons, heightOf, List.length_map] at h
      rw [Links.changeAt, Machine.updateFrame]
      by_cases hf : frame.owner = owner
      · rw [if_pos hf] at h
        cases h
        rw [if_pos rfl, if_pos hf]
      · rw [if_neg hf] at h
        have hlt := heightOf_lt h
        rw [List.length_map] at hlt
        rw [if_neg (Nat.ne_of_gt hlt), if_neg hf, ih h]

end Frames

def Links.Innermost (links : Links) (owners : List FunId) : Prop :=
  forall a, a ∈ links -> heightOf owners a.function = some a.height

/-- Behind each activation stand those of the functions around its own, and no others. -/
inductive Links.Chain (p : Program) : Links -> Prop where
  | nil : Chain p []
  | cons {a : Activation} {link : Links} :
      (forall o, p.Encloses o a.function <-> exists b, b ∈ link ∧ b.function = o) ->
      Chain p link -> Chain p (a :: link)

def Links.LeadTo (links : Links) (f : FunId) : Prop :=
  exists a, a ∈ links ∧ a.function = f

section Links

variable {p : Program} {links : Links} {owners : List FunId}

theorem Links.height?_eq (h : links.Innermost owners) {owner : FunId} (howner : links.LeadTo owner) :
    exists height, links.height? owner = some height ∧ heightOf owners owner = some height := by
  rcases howner with ⟨a, ha, hof⟩
  have hfound : (links.find? (·.function == owner)).isSome := by
    rw [List.find?_isSome]
    exact ⟨a, ha, by simpa using hof⟩
  rcases Option.isSome_iff_exists.mp hfound with ⟨b, hb⟩
  have hsame : b.function = owner := by simpa using List.find?_some hb
  refine ⟨b.height, by rw [height?, hb]; rfl, ?_⟩
  rw [← hsame]
  exact h b (List.mem_of_find?_eq_some hb)

theorem Program.parent?_eq_some {c f : FunId} (h : p.parent? f = some c) : p.Nests c f := by
  have hfound := List.find?_some h
  rw [List.contains_iff_mem, mem_declaredFunctions] at hfound
  exact hfound

theorem Program.parent?_eq_none {f : FunId} (h : p.parent? f = none) (o : FunId) : ¬p.Encloses o f := by
  intro hencloses
  rcases Relation.TransGen.tail'_iff.mp hencloses with ⟨c, -, hc⟩
  have hmissing := List.find?_eq_none.mp h c (List.mem_range.mpr (lt_of_mem_mentionsOf hc))
  rw [List.contains_iff_mem, mem_declaredFunctions] at hmissing
  exact hmissing hc


theorem Links.Chain.dropWhile (h : Chain p links) {c : FunId} (hc : links.LeadTo c) :
    exists a link, links.dropWhile (·.function != c) = a :: link ∧ a.function = c ∧
      Chain p (a :: link) := by
  induction h with
  | nil =>
      rcases hc with ⟨a, ha, -⟩
      cases ha
  | @cons a link hlink hchain ih =>
      by_cases ha : a.function = c
      · exact ⟨a, link, by simp [ha], ha, .cons hlink hchain⟩
      · have hrest : Links.LeadTo link c := by
          rcases hc with ⟨b, hb, hof⟩
          rcases List.mem_cons.mp hb with rfl | hb
          · exact absurd hof ha
          · exact ⟨b, hb, hof⟩
        rcases ih hrest with ⟨b, rest, hdrop, hof, hchain⟩
        exact ⟨b, rest, by simpa [ha] using hdrop, hof, hchain⟩

theorem Links.toCall_spec (hnested : p.Nested) (hchain : Chain p links) {f : FunId}
    (hnear : forall o, p.Encloses o f -> links.LeadTo o) :
    Chain p (links.toCall p f) ∧ (forall a, a ∈ links.toCall p f -> a ∈ links) ∧
      forall o, p.Encloses o f <-> (links.toCall p f).LeadTo o := by
  cases hparent : p.parent? f with
  | none =>
      have hnone : links.toCall p f = [] := by rw [toCall, hparent]
      rw [hnone]
      refine ⟨.nil, fun _ ha => absurd ha List.not_mem_nil, ?_⟩
      intro o
      constructor
      · exact fun ho => absurd ho (Program.parent?_eq_none hparent o)
      · intro ho
        rcases ho with ⟨a, ha, -⟩
        cases ha
  | some c =>
      have hc := Program.parent?_eq_some hparent
      rcases hchain.dropWhile (hnear c (.single hc)) with ⟨a, link, hdrop, hof, htail⟩
      have hcall : links.toCall p f = a :: link := by rw [toCall, hparent, ← hdrop]
      rw [hcall]
      refine ⟨htail, fun b hb => (List.dropWhile_sublist _).subset (hdrop ▸ hb), ?_⟩
      intro o
      rw [hnested.encloses_iff hc o]
      cases htail with
      | cons hlink _ =>
          rw [hof] at hlink
          constructor
          · intro ho
            rcases ho.eq_or_encloses with rfl | hencloses
            · exact ⟨a, List.mem_cons_self, hof⟩
            · rcases (hlink o).mp hencloses with ⟨b, hb, hbof⟩
              exact ⟨b, List.mem_cons_of_mem a hb, hbof⟩
          · intro ho
            rcases ho with ⟨b, hb, hbof⟩
            rcases List.mem_cons.mp hb with rfl | hb
            · rw [← hbof, hof]
            · exact ((hlink o).mpr ⟨b, hb, hbof⟩).to_reflTransGen

theorem Links.Innermost.push (hnested : p.Nested) {f : FunId} {link : Links}
    (h : link.Innermost owners) (hlink : forall o, p.Encloses o f <-> link.LeadTo o) :
    Innermost ({ function := f, height := owners.length } :: link) (f :: owners) := by
  intro a ha
  rcases List.mem_cons.mp ha with rfl | ha
  · exact if_pos rfl
  · have hencloses := (hlink a.function).mpr ⟨a, ha, rfl⟩
    rw [heightOf, if_neg (Nat.ne_of_gt (hencloses.lt hnested))]
    exact h a ha

end Links
end Scriptlet
