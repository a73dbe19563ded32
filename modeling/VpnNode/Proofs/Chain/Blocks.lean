import Mathlib.Data.List.Nodup
import VpnNode.Proofs.Chain.Account

/-!
# Blocks of a log

A log stands in blocks if the entries of each broadcast stand together. A log that grows
keeps its blocks as long as each new entry belongs to the last block or begins a new one.

Main statements:

* `Blocks.append_last`, `Blocks.append_new`: the two ways in which the blocks grow.
* `Blocks.task_of_between`: between two entries of a broadcast there is none of another.
-/

namespace VpnNode.Chain.Account

/-- The entries of one broadcast. -/
def entriesOf (log : List Entry) (k : Nat) : List Entry := log.filter fun e => e.task = k

/-- The entries of a log stand in blocks, one for each broadcast that an order lists. -/
structure Blocks (order : List Nat) (log : List Entry) : Prop where
  nodup : order.Nodup
  eq_flatMap : log = order.flatMap (entriesOf log)

theorem mem_entriesOf {log : List Entry} {k : Nat} {e : Entry} :
    e ∈ entriesOf log k ↔ e ∈ log ∧ e.task = k := by
  rw [entriesOf, List.mem_filter, decide_eq_true_eq]

theorem entriesOf_append_self (log : List Entry) (e : Entry) :
    entriesOf (log ++ [e]) e.task = entriesOf log e.task ++ [e] := by
  rw [entriesOf, List.filter_append, List.filter_cons_of_pos (by simp), List.filter_nil, entriesOf]

theorem entriesOf_append_of_ne {log : List Entry} {e : Entry} {k : Nat} (h : e.task ≠ k) :
    entriesOf (log ++ [e]) k = entriesOf log k := by
  rw [entriesOf, List.filter_append, List.filter_cons_of_neg (by simpa using h), List.filter_nil,
    List.append_nil, entriesOf]

/-- An entry in the blocks of some broadcasts is one of theirs. -/
theorem task_mem_of_mem_flatMap {ks : List Nat} {log : List Entry} {e : Entry}
    (he : e ∈ ks.flatMap (entriesOf log)) : e.task ∈ ks := by
  obtain ⟨k, hk, hek⟩ := List.mem_flatMap.1 he
  rwa [(mem_entriesOf.1 hek).2]

/-- The blocks of other broadcasts do not change when an entry is added. -/
theorem flatMap_entriesOf_append {order : List Nat} {log : List Entry} {e : Entry}
    (h : e.task ∉ order) :
    order.flatMap (entriesOf (log ++ [e])) = order.flatMap (entriesOf log) := by
  have hsame : order.map (entriesOf (log ++ [e])) = order.map (entriesOf log) :=
    List.map_congr_left fun k hk => entriesOf_append_of_ne fun he => h (he ▸ hk)
  rw [List.flatMap_def, List.flatMap_def, hsame]

namespace Blocks

variable {order : List Nat} {log : List Entry} {e : Entry}

theorem nil : Blocks [] [] := ⟨.nil, rfl⟩

/-- A broadcast with an entry has a block. -/
theorem task_mem (h : Blocks order log) (he : e ∈ log) : e.task ∈ order := by
  rw [h.eq_flatMap] at he
  exact task_mem_of_mem_flatMap he

/-- The last block grows. -/
theorem append_last {front : List Nat} (h : Blocks (front ++ [e.task]) log) :
    Blocks (front ++ [e.task]) (log ++ [e]) where
  nodup := h.nodup
  eq_flatMap := by
    have hfront : e.task ∉ front := fun hmem =>
      (List.nodup_append.1 h.nodup).2.2 _ hmem _ (List.mem_singleton.2 rfl) rfl
    have hlog := h.eq_flatMap
    rw [List.flatMap_append, List.flatMap_singleton] at hlog ⊢
    rw [flatMap_entriesOf_append hfront, entriesOf_append_self, ← List.append_assoc, ← hlog]

/-- A broadcast without an entry begins a block. -/
theorem append_new (h : Blocks order log) (he : e.task ∉ order) :
    Blocks (order ++ [e.task]) (log ++ [e]) where
  nodup := List.nodup_append.2 ⟨h.nodup, List.nodup_cons.2 ⟨nofun, .nil⟩, by
    intro k hk j hj hkj
    rw [List.mem_singleton.1 hj] at hkj
    exact he (hkj ▸ hk)⟩
  eq_flatMap := by
    have hnone : entriesOf log e.task = [] := List.filter_eq_nil_iff.2 fun x hx hxe =>
      he (of_decide_eq_true hxe ▸ h.task_mem hx)
    rw [List.flatMap_append, List.flatMap_singleton, flatMap_entriesOf_append he,
      entriesOf_append_self, hnone, List.nil_append, ← h.eq_flatMap]

/-- Between two entries of a broadcast there is none of another. -/
theorem task_of_between (h : Blocks order log) {first last : Entry}
    (hsub : [first, e, last].Sublist log) (htask : last.task = first.task) :
    e.task = first.task := by
  have hmem : first.task ∈ order := h.task_mem (hsub.subset (by simp))
  obtain ⟨front, back, rfl⟩ := List.append_of_mem hmem
  have hnodup : first.task ∉ front ++ back := (List.nodup_middle.1 h.nodup).notMem
  -- The first entry is not in a block further to the front.
  rw [h.eq_flatMap, List.flatMap_append, List.flatMap_cons, List.sublist_append_iff] at hsub
  obtain ⟨xs, ys, hxs, hfront, hrest⟩ := hsub
  have hnil : xs = [] := by
    cases xs with
    | nil => rfl
    | cons x xs =>
      obtain ⟨rfl, -⟩ := List.cons.inj hxs
      have hmem : first ∈ front.flatMap (entriesOf log) := hfront.subset (by simp)
      exact absurd (List.mem_append_left _ (task_mem_of_mem_flatMap hmem)) hnodup
  -- The last entry is not in a block further to the back.
  subst hnil
  rw [List.nil_append] at hxs
  subst hxs
  obtain ⟨zs, ws, hzs, hblock, hback⟩ := List.sublist_append_iff.1 hrest
  have hnil : ws = [] := by
    rcases List.eq_nil_or_concat ws with hws | ⟨ws', x, rfl⟩
    · exact hws
    · have hlast : x = last := by
        have hx := congrArg List.getLast? hzs
        simpa using hx.symm
      have hmem : last ∈ back.flatMap (entriesOf log) := hback.subset (by simp [hlast])
      have htask' : first.task ∈ back := htask ▸ task_mem_of_mem_flatMap hmem
      exact absurd (List.mem_append_right _ htask') hnodup
  rw [hnil, List.append_nil] at hzs
  rw [← hzs] at hblock
  exact (mem_entriesOf.1 (hblock.subset (by simp))).2

end Blocks

end VpnNode.Chain.Account
