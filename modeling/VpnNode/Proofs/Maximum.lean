/-!
# The greatest of some numbers

Main statement:

* `foldl_max_le_iff`: the greatest number is the least one that none of them exceeds.
-/

namespace VpnNode

theorem foldl_max_le_iff {f : α → Nat} {l : List α} {a t : Nat} :
    l.foldl (fun t x => max t (f x)) a ≤ t ↔ a ≤ t ∧ ∀ x ∈ l, f x ≤ t := by
  induction l generalizing a with
  | nil => simp
  | cons x l ih => rw [List.foldl_cons, ih, Nat.max_le, List.forall_mem_cons, and_assoc]

end VpnNode
