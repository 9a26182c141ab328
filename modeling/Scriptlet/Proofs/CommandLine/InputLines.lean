import Scriptlet.CommandLine.Execution
import Scriptlet.Proofs.Evaluation.Hosts

/-!
# Lines that are read alike

A run takes its input line by line, while a comparison takes all of it before it starts.
Both cut the text at the same places, and what they leave at the ends of lines differs in
blanks only.  Programs read numbers, without the blanks around them, so none can tell.
-/

namespace Scriptlet

namespace Text

/-!
# Blanks at the end
-/

theorem trimBlanks_append (cs : List Char) {blanks : List Char}
    (h : forall c, c ∈ blanks -> isBlank c = true) :
    trimBlanks (String.ofList (cs ++ blanks)) = trimBlanks (String.ofList cs) := by
  simp only [trimBlanks, String.toList_ofList]
  rw [List.dropWhile_append]
  cases hcs : cs.dropWhile isBlank with
  | nil =>
      have hblanks : blanks.dropWhile isBlank = [] := List.dropWhile_eq_nil_iff.mpr h
      simp [hblanks]
  | cons c rest =>
      have hreverse : forall d, d ∈ blanks.reverse -> isBlank d = true :=
        fun d hd => h d (List.mem_reverse.mp hd)
      rw [List.isEmpty_cons, if_neg Bool.false_ne_true, List.reverse_append,
        List.dropWhile_append_of_pos hreverse]

end Text

theorem dropTrailing_append (c : Char) (cs : List Char) :
    exists trail, cs = dropTrailing c cs ++ trail ∧ forall d, d ∈ trail -> d = c := by
  refine ⟨(cs.reverse.takeWhile (· == c)).reverse, ?_, ?_⟩
  · rw [dropTrailing, ← List.reverse_append, List.takeWhile_append_dropWhile, List.reverse_reverse]
  · intro d hd
    have hall := List.all_eq_true.mp (List.all_takeWhile (p := (· == c)) (l := cs.reverse))
    simpa using hall d (List.mem_reverse.mp hd)

namespace Host

theorem dropReturn_append (line : List Char) :
    exists trail, line = dropReturn line ++ trail ∧ forall d, d ∈ trail -> d = '\r' := by
  rw [dropReturn]
  by_cases hreturn : line.getLast? = some '\r'
  · rw [if_pos hreturn]
    obtain ⟨front, rfl⟩ := List.getLast?_eq_some_iff.mp hreturn
    refine ⟨['\r'], by rw [List.dropLast_concat], ?_⟩
    intro d hd
    exact List.mem_singleton.mp hd
  · rw [if_neg hreturn]
    exact ⟨[], by rw [List.append_nil], fun d hd => by cases hd⟩

theorem trimBlanks_of_returns {line kept : List Char}
    (h : exists trail, line = kept ++ trail ∧ forall d, d ∈ trail -> d = '\r') :
    Text.trimBlanks (String.ofList kept) = Text.trimBlanks (String.ofList line) := by
  obtain ⟨trail, rfl, htrail⟩ := h
  refine (Text.trimBlanks_append kept ?_).symm
  intro c hc
  rw [htrail c hc]
  decide

theorem forall₂_cutLines {rel : List Char -> List Char -> Prop}
    {closed closed' last last' : List Char -> List Char}
    (hclosed : forall line, rel (closed line) (closed' line))
    (hlast : forall line, rel (last line) (last' line)) (lines : List (List Char)) :
    List.Forall₂ rel (cutLines closed last lines) (cutLines closed' last' lines) := by
  induction lines with
  | nil => exact .nil
  | cons line rest ih =>
      cases rest with
      | nil =>
          rw [cutLines, cutLines]
          split
          · exact .nil
          · exact .cons (hlast line) .nil
      | cons next rest => exact .cons (hclosed line) ih

theorem plainLines_alike (text : String) :
    List.Forall₂ (fun a b => Text.trimBlanks a = Text.trimBlanks b) (plainLines text)
      (trimmedLines text) := by
  have htrimmed : forall line, Text.trimBlanks (String.ofList (dropTrailing '\r' line)) =
      Text.trimBlanks (String.ofList line) :=
    fun line => trimBlanks_of_returns (dropTrailing_append '\r' line)
  rw [plainLines, trimmedLines, List.forall₂_map_left_iff, List.forall₂_map_right_iff]
  apply forall₂_cutLines
  · intro line
    exact (trimBlanks_of_returns (dropReturn_append line)).trans (htrimmed line).symm
  · intro line
    exact (htrimmed line).symm

/-!
# Hosts
-/

/-- Hosts that have shown the same and hand out lines that differ in blanks at most. -/
structure ReadAlike (h h' : Host) : Prop where
  input : List.Forall₂ (fun a b => Text.trimBlanks a = Text.trimBlanks b) h.input h'.input
  lines : h'.lines = h.lines
  reports : h'.reports = h.reports

theorem ReadAlike.writeLine {h h' : Host} (halike : h.ReadAlike h') (text : String) :
    (h.writeLine text).ReadAlike (h'.writeLine text) where
  input := halike.input
  lines := congrArg (·.push text) halike.lines
  reports := halike.reports

theorem ReadAlike.report {h h' : Host} (halike : h.ReadAlike h') (r : Report) :
    (h.report r).ReadAlike (h'.report r) where
  input := halike.input
  lines := halike.lines
  reports := congrArg (·.push r) halike.reports

end Host

/-!
# The prelude
-/

namespace Prelude

open Host (ReadAlike)

abbrev HostRun.Alike {α : Type} (x y : HostRun α) : Prop :=
  Run.Matches Eq ReadAlike False x y

theorem alike_modify {f : Host -> Host} (hf : forall h h', h.ReadAlike h' -> (f h).ReadAlike (f h')) :
    HostRun.Alike (Run.modify f) (Run.modify f) :=
  fun _ _ halike => .done (hf _ _ halike)

theorem alike_argument (b : Builtin) (call : NativeCall) (index : Nat) :
    HostRun.Alike (argument b call index) (argument b call index) := by
  unfold argument
  cases call.args[index]? with
  | some value => exact matches_pure value
  | none => exact matches_fail rfl

theorem alike_report (call : NativeCall) (passed : Bool) (message : String) :
    HostRun.Alike (report call passed message) (report call passed message) :=
  (alike_modify fun _ _ halike => halike.report _).bind fun _ => matches_pure _

theorem alike_writeLn (call : NativeCall) : HostRun.Alike (writeLn call) (writeLn call) := by
  apply (alike_argument .writeLn call 0).bind
  intro value
  exact (alike_modify fun _ _ halike => halike.writeLine _).bind fun _ => matches_pure _

theorem alike_assert (call : NativeCall) : HostRun.Alike (assert call) (assert call) := by
  apply (alike_argument .assert call 0).bind
  intro value
  cases value.truth? with
  | some passed => exact alike_report call passed _
  | none => exact matches_fail rfl

theorem alike_assertEquals (call : NativeCall) :
    HostRun.Alike (assertEquals call) (assertEquals call) := by
  apply (alike_argument .assertEquals call 0).bind
  intro expected
  apply (alike_argument .assertEquals call 1).bind
  intro actual
  exact alike_report call _ _

theorem alike_readInt (call : NativeCall) : HostRun.Alike (readInt call) (readInt call) := by
  rintro ⟨input, lines, reports⟩ ⟨input', lines', reports'⟩ ⟨hinput, hlines, hreports⟩
  cases hinput with
  | nil => exact .failed rfl ⟨.nil, hlines, hreports⟩
  | @cons line line' rest rest' hline hrest =>
      have hafter : ReadAlike ⟨rest, lines, reports⟩ ⟨rest', lines', reports'⟩ :=
        ⟨hrest, hlines, hreports⟩
      simp only [readInt, nextLine, Host.readLine, Run.bind_apply, hline]
      cases Reading.int64? (Text.trimBlanks line') with
      | some n => exact .done hafter
      | none => exact .failed rfl hafter

theorem alike_body (b : Builtin) : Native.Alike ReadAlike b.body b.body := by
  intro call
  cases b with
  | writeLn => exact alike_writeLn call
  | assert => exact alike_assert call
  | assertEquals => exact alike_assertEquals call
  | readInt => exact alike_readInt call

theorem lift_eq (body : Native Host) : (body.lift : Native Host) = body := by
  funext call h
  unfold Native.lift
  cases body call h <;> rfl

end Prelude

namespace CommandLine

theorem loaded_eq (p : Program) :
    loaded p = { program := p, natives := Prelude.Builtin.all.map (·.body) } := by
  have hbodies : Extern.bodies preludeExterns = Prelude.Builtin.all.map (·.body.lift) := rfl
  rw [loaded, hbodies]
  simp only [Prelude.lift_eq]

/-- What is observed of a program does not depend on the way in which its input is cut into
lines. -/
theorem observe_plainLines (p : Program) (fuel : Nat) (stdin : String) :
    (loaded p).observe fuel (Host.plainLines stdin) =
      (loaded p).observe fuel (Host.trimmedLines stdin) := by
  have halike : (loaded p).Alike Host.ReadAlike (loaded p) := by
    rw [loaded_eq]
    exact Loaded.alike_map p _ Prelude.alike_body
  have hbeside : (Machine.initial p (Host.ofInput (Host.plainLines stdin))).Beside Host.ReadAlike
      (Machine.initial p (Host.ofInput (Host.trimmedLines stdin))) :=
    ⟨.ofInput (Host.trimmedLines stdin), ⟨Host.plainLines_alike stdin, rfl, rfl⟩, rfl⟩
  have hrun := beside_run halike fuel _ _ hbeside
  have hprogram : (loaded p).program = p := rfl
  unfold Loaded.observe
  rw [hprogram]
  generalize (loaded p).run fuel (.initial p (.ofInput (Host.plainLines stdin))) = first at hrun
  generalize (loaded p).run fuel (.initial p (.ofInput (Host.trimmedLines stdin))) = second at hrun
  cases hrun with
  | done hmachine =>
      obtain ⟨host, hhost, rfl⟩ := hmachine
      simp only [Observation.ofHost, Machine.withHost, hhost.lines, hhost.reports]
  | failed herror hmachine =>
      obtain ⟨host, hhost, rfl⟩ := hmachine
      simp only [Observation.ofHost, Machine.withHost, hhost.lines, hhost.reports, herror]
  | unfinished => rfl
  | cut hnever => exact hnever.elim

end CommandLine
end Scriptlet
