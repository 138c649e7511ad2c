/-
  ShellQuery.Text.Cut

  Texts cut at a character, at the last place where it stands.
-/

namespace ShellQuery.Text

/-- Cuts a text at the last place of a character: what comes before it, and what after. -/
def cutLast? (mark : Char) : List Char → Option (List Char × List Char)
  | [] => none
  | c :: cs =>
    match cutLast? mark cs with
    | some (before, after) => some (c :: before, after)
    | none => if c = mark then some ([], cs) else none

theorem cutLast?_eq_none_iff {mark : Char} {cs : List Char} :
    cutLast? mark cs = none ↔ mark ∉ cs := by
  induction cs with
  | nil => simp [cutLast?]
  | cons c cs ih =>
    cases h : cutLast? mark cs with
    | none =>
      have hcs : mark ∉ cs := ih.1 h
      by_cases hc : c = mark
      · simp [cutLast?, h, hc]
      · simp [cutLast?, h, hc, hcs, Ne.symm hc]
    | some parts =>
      have hcs : mark ∈ cs := Decidable.byContradiction fun hn => by simp [ih.2 hn] at h
      simp [cutLast?, h, hcs]

theorem cutLast?_append {mark : Char} {after : List Char} (h : mark ∉ after) (before : List Char) :
    cutLast? mark (before ++ mark :: after) = some (before, after) := by
  induction before with
  | nil => simp [cutLast?, cutLast?_eq_none_iff.2 h]
  | cons c before ih => simp [cutLast?, ih]

end ShellQuery.Text
