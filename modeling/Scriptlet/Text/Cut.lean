/-!
# Cutting at a mark

A text is cut at every place where a mark stands.  The pieces have no marks, and
there is one more of them than there are marks.
-/

namespace Scriptlet
namespace Text

def cutAt (mark : Char) : List Char -> List (List Char)
  | [] => [[]]
  | c :: cs =>
      if c = mark then
        [] :: cutAt mark cs
      else
        match cutAt mark cs with
        | [] => [[c]]
        | piece :: rest => (c :: piece) :: rest

@[simp] theorem cutAt_nil (mark : Char) : cutAt mark [] = [[]] :=
  rfl

@[simp] theorem cutAt_mark (mark : Char) (cs : List Char) :
    cutAt mark (mark :: cs) = [] :: cutAt mark cs := by
  simp [cutAt]

theorem length_cutAt (mark : Char) (cs : List Char) :
    (cutAt mark cs).length = cs.count mark + 1 := by
  induction cs with
  | nil =>
      rfl
  | cons c cs ih =>
      by_cases h : c = mark
      · simp [cutAt, h, ih]
      · cases hcut : cutAt mark cs with
        | nil =>
            rw [hcut] at ih
            simp at ih
        | cons piece rest =>
            rw [hcut] at ih
            simp [cutAt, h, hcut]
            exact Nat.succ.inj ih

end Text
end Scriptlet
