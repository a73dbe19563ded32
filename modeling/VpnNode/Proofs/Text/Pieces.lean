import VpnNode.Text.Blank
import VpnNode.Text.Split

/-!
# Pieces of a text

What stands between separators, and what is left of it without the blanks at its ends.

Main statements:

* `split_eq_splitOn`: a text is cut at its separators as any list is.
* `trimChars_append`, `exists_trimChars_eq`: exactly blanks at the ends are taken away.
-/

namespace VpnNode.Text

/-- A text is cut at its separators as any list is. -/
theorem split_eq_splitOn (sep : Char) (cs : List Char) : split sep cs = cs.splitOn sep := by
  induction cs with
  | nil => rfl
  | cons c cs ih =>
    have hcons : (c :: cs).splitOn sep =
        if (c == sep) = true then [] :: cs.splitOn sep
        else (cs.splitOn sep).modifyHead (List.cons c) :=
      List.splitOnP_cons_eq_if_modifyHead c cs
    have hne : cs.splitOn sep ≠ [] := ih ▸ split_ne_nil sep cs
    rw [split, ih, hcons]
    by_cases h : c = sep
    · rw [if_pos h, if_pos (by simpa using h)]
    · rw [if_neg h, if_neg (by simpa using h)]
      cases hpieces : cs.splitOn sep with
      | nil => exact absurd hpieces hne
      | cons p ps => rfl

/-- A text without blanks is trimmed already. -/
theorem trimChars_of_forall {cs : List Char} (h : ∀ c ∈ cs, isBlank c = false) :
    trimChars cs = cs := by
  have hdrop : ∀ l : List Char, (∀ c ∈ l, isBlank c = false) → l.dropWhile isBlank = l := by
    intro l hl
    cases l with
    | nil => rfl
    | cons c r =>
      rw [List.dropWhile_cons_of_neg]
      rw [hl c List.mem_cons_self]
      exact Bool.false_ne_true
  unfold trimChars
  rw [hdrop cs h, hdrop cs.reverse fun c hc => h c (List.mem_reverse.1 hc), List.reverse_reverse]

/-- Blanks around a text do not matter. -/
theorem trimChars_append {before after : List Char} (hbefore : before.all isBlank)
    (hafter : after.all isBlank) (cs : List Char) :
    trimChars (before ++ cs ++ after) = trimChars cs := by
  have hdrop : ∀ {bs : List Char}, bs.all isBlank → ∀ l : List Char,
      (bs ++ l).dropWhile isBlank = l.dropWhile isBlank := by
    intro bs hbs l
    exact List.dropWhile_append_of_pos (List.all_eq_true.1 hbs)
  unfold trimChars
  rw [List.append_assoc, hdrop hbefore]
  by_cases hcs : cs.all isBlank
  · rw [hdrop hcs, dropWhile_eq_nil_iff_all.2 hafter, dropWhile_eq_nil_iff_all.2 hcs]
  · have hne : cs.dropWhile isBlank ≠ [] := fun h => hcs (dropWhile_eq_nil_iff_all.1 h)
    rw [List.dropWhile_append, if_neg (by simpa using hne), List.reverse_append,
      hdrop (by rwa [List.all_reverse])]

theorem trim_ofList {cs : List Char} (h : ∀ c ∈ cs, isBlank c = false) :
    trim (String.ofList cs) = String.ofList cs := by
  rw [trim, String.toList_ofList, trimChars_of_forall h]

/-- Trimming leaves nothing exactly if all is blank. -/
theorem trim_eq_empty_iff {s : String} : trim s = "" ↔ isAllBlank s := by
  rw [trim, ← String.toList_inj, String.toList_ofList]
  exact trimChars_eq_nil_iff

theorem exists_dropWhile_eq (p : Char → Bool) (cs : List Char) :
    ∃ front, front.all p ∧ cs = front ++ cs.dropWhile p :=
  ⟨cs.takeWhile p, List.all_takeWhile, List.takeWhile_append_dropWhile.symm⟩

/-- Trimming takes away nothing but blanks at the ends. -/
theorem exists_trimChars_eq (cs : List Char) : ∃ before after, before.all isBlank ∧
    after.all isBlank ∧ cs = before ++ trimChars cs ++ after := by
  obtain ⟨before, hbefore, heq⟩ := exists_dropWhile_eq isBlank cs
  obtain ⟨after, hafter, heq'⟩ := exists_dropWhile_eq isBlank (cs.dropWhile isBlank).reverse
  have hrest : cs.dropWhile isBlank = trimChars cs ++ after.reverse := by
    rw [trimChars, ← List.reverse_append, ← heq', List.reverse_reverse]
  refine ⟨before, after.reverse, hbefore, by rwa [List.all_reverse], ?_⟩
  rw [List.append_assoc, ← hrest]
  exact heq

end VpnNode.Text
