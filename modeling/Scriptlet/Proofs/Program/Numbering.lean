import Scriptlet.Proofs.Program.Nesting

/-!
# Numbering of functions

The functions of a program are numbered in the order of their declarations in the text, where
the body of a function stands behind its declaration.  What is called at some place of the
text has been declared before, so its number is less than those of all declarations behind
the place.
-/

namespace Scriptlet

def Mention.CallsBelow (n : Nat) (m : Mention) : Prop :=
  forall f, m.callee? = some f -> f < n

theorem Mention.CallsBelow.mono {n k : Nat} (hle : n ≤ k) {m : Mention} (h : m.CallsBelow n) :
    m.CallsBelow k :=
  fun f hf => Nat.lt_of_lt_of_le (h f hf) hle

namespace Program

/-- Before trees with the mentions so many functions are declared, and behind them so many.
The bodies of the functions that they declare are counted with them. -/
inductive Numbers (p : Program) : Nat -> List Mention -> Nat -> Prop where
  | nil {n} : Numbers p n [] n
  | plain {n m ms k} : m.function? = none -> m.CallsBelow n -> Numbers p n ms k ->
      Numbers p n (m :: ms) k
  | declare {n ms mid k} : Numbers p (n + 1) (p.mentionsOf n) mid -> Numbers p mid ms k ->
      Numbers p n (.declareFunction n :: ms) k

theorem numbers_plain {p : Program} {n : Nat} {ms : List Mention}
    (h : Admitted (fun m => m.function? = none ∧ m.CallsBelow n) ms) : p.Numbers n ms n := by
  induction ms with
  | nil => exact .nil
  | cons m rest ih => exact .plain h.head.1 h.head.2 (ih h.tail)

namespace Numbers

variable {p : Program} {n k : Nat} {ms ms' : List Mention}

theorem le (h : p.Numbers n ms k) : n ≤ k := by
  induction h with
  | nil => exact Nat.le_refl _
  | plain _ _ _ ih => exact ih
  | declare _ _ ihbody ih => exact Nat.le_trans (Nat.le_of_succ_le ihbody) ih

theorem append {mid : Nat} (h : p.Numbers n ms mid) (h' : p.Numbers mid ms' k) :
    p.Numbers n (ms ++ ms') k := by
  induction h with
  | nil => exact h'
  | plain hplain hcallee _ ih => exact .plain hplain hcallee (ih h')
  | declare hbody _ _ ih => exact .declare hbody (ih h')

theorem split (h : p.Numbers n (ms ++ ms') k) :
    exists mid, p.Numbers n ms mid ∧ p.Numbers mid ms' k := by
  induction ms generalizing n with
  | nil => exact ⟨n, .nil, h⟩
  | cons m rest ih =>
      cases h with
      | plain hplain hcallee hrest =>
          rcases ih hrest with ⟨mid, hrest, hbehind⟩
          exact ⟨mid, .plain hplain hcallee hrest, hbehind⟩
      | declare hbody hrest =>
          rcases ih hrest with ⟨mid, hrest, hbehind⟩
          exact ⟨mid, .declare hbody hrest, hbehind⟩

theorem of_same {r : Program} (h : p.Numbers n ms k)
    (hsame : forall f, n ≤ f -> f < k -> r.mentionsOf f = p.mentionsOf f) : r.Numbers n ms k := by
  induction h with
  | nil => exact .nil
  | plain hplain hcallee _ ih => exact .plain hplain hcallee (ih hsame)
  | @declare n ms mid k hbody hrest ihbody ih =>
      have hmid := hbody.le
      have hk := hrest.le
      have hinner : r.Numbers (n + 1) (p.mentionsOf n) mid :=
        ihbody fun f hf hlt => hsame f (by omega) (by omega)
      rw [← hsame n (Nat.le_refl n) (by omega)] at hinner
      exact .declare hinner (ih fun f hf hlt => hsame f (by omega) hlt)

theorem of_plain (h : p.Numbers n ms k) (hplain : Admitted (fun m => m.function? = none) ms) :
    k = n ∧ Admitted (Mention.CallsBelow n) ms := by
  induction h with
  | nil => exact ⟨rfl, admitted_nil⟩
  | plain _ hcalls _ ih =>
      rcases ih hplain.tail with ⟨rfl, hrest⟩
      exact ⟨rfl, admitted_cons.mpr ⟨hcalls, hrest⟩⟩
  | declare => exact nomatch hplain.head

theorem callsBelow (h : p.Numbers n ms k) : Admitted (Mention.CallsBelow k) ms := by
  induction h with
  | nil => exact admitted_nil
  | plain _ hcalls hrest ih => exact admitted_cons.mpr ⟨hcalls.mono hrest.le, ih⟩
  | declare _ _ _ ih => exact admitted_cons.mpr ⟨fun _ hf => (nomatch hf), ih⟩

theorem callsBelow_body (h : p.Numbers n ms k) {b : FunId} (hb : n ≤ b) (hlt : b < k) :
    Admitted (Mention.CallsBelow k) (p.mentionsOf b) := by
  induction h with
  | nil => exact absurd hlt (Nat.not_lt.mpr hb)
  | plain _ _ _ ih => exact ih hb hlt
  | declare hbody hrest ihbody ih =>
      rcases Nat.eq_or_lt_of_le hb with rfl | hgt
      · exact fun m hm => (hbody.callsBelow m hm).mono hrest.le
      · rcases Nat.lt_or_ge b _ with hinner | hbehind
        · exact fun m hm => (ihbody hgt hinner m hm).mono hrest.le
        · exact ih hbehind hlt

end Numbers

/-- The functions of the text stand behind those from outside, and are numbered as they are
declared. -/
structure Numbered (p : Program) (n : Nat) : Prop where
  native : forall f, f < n -> (p.function f).isNative = true
  numbers : p.Numbers n (Stmt.listMentions p.root) p.functions.length

def CallsBelow (p : Program) (n : Nat) : Prop :=
  forall f, f < n -> Admitted (Mention.CallsBelow n) (p.mentionsOf f)

theorem CallsBelow.reaches_lt {p : Program} {n : Nat} (h : p.CallsBelow n) {f g : FunId}
    (hf : f < n) (hreaches : p.Reaches f g) : g < n := by
  induction hreaches with
  | refl => exact hf
  | tail _ hcalls ih =>
      rcases hcalls with ⟨m, hm, hcallee⟩
      exact h _ ih m hm _ hcallee

end Program
end Scriptlet
