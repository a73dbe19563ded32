import VpnNode.Codec.Bits

/-!
# Regrouped bits

A run of bits is cut into groups of one size and put together again. Groups that are full
come out as they went in; a last group that is not full is filled up, and what it is filled
up with is left over in the end.

Main statements:

* `toBits_ofBits`, `ofBits_lt`: bits are read back from the number that they spell.
* `chunks_flatMap`: groups of the right size are cut where they were joined.
* `exists_fill`: filling up the last group appends less than a group.
-/

namespace VpnNode.Bits

/-! ## Numbers -/

/-- The bits of a number above those that are appended. -/
theorem testBit_foldl (bs : List Bool) (acc i : Nat) :
    (bs.foldl (fun n b => n * 2 + b.toNat) acc).testBit (bs.length + i) = acc.testBit i := by
  induction bs generalizing acc i with
  | nil => rw [List.length_nil, Nat.zero_add, List.foldl_nil]
  | cons b bs ih =>
    have hhalf : (acc * 2 + b.toNat) / 2 = acc := by
      have := b.toNat_le
      omega
    rw [List.foldl_cons, List.length_cons, Nat.add_assoc, Nat.add_comm 1 i, ih, Nat.testBit_succ,
      hhalf]

theorem toBits_foldl (bs : List Bool) (acc : Nat) :
    toBits bs.length (bs.foldl (fun n b => n * 2 + b.toNat) acc) = bs := by
  induction bs generalizing acc with
  | nil => rfl
  | cons b bs ih =>
    have hlow : (acc * 2 + b.toNat).testBit 0 = b := by
      rw [Nat.testBit_zero]
      cases b <;> simp
    have hfirst := testBit_foldl bs (acc * 2 + b.toNat) 0
    rw [Nat.add_zero, hlow] at hfirst
    rw [List.length_cons, toBits, List.foldl_cons, hfirst, ih]

/-- Bits are read back from the number that they spell. -/
theorem toBits_ofBits {w : Nat} {bs : List Bool} (h : bs.length = w) : toBits w (ofBits bs) = bs := by
  rw [← h]
  exact toBits_foldl bs 0

theorem foldl_lt (bs : List Bool) (acc : Nat) :
    bs.foldl (fun n b => n * 2 + b.toNat) acc < (acc + 1) <<< bs.length := by
  induction bs generalizing acc with
  | nil => exact Nat.lt_succ_self acc
  | cons b bs ih =>
    have hb := b.toNat_le
    have hle : acc * 2 + b.toNat + 1 ≤ 2 * (acc + 1) := by omega
    calc (b :: bs).foldl (fun n b => n * 2 + b.toNat) acc
        < (acc * 2 + b.toNat + 1) <<< bs.length := ih _
      _ ≤ (2 * (acc + 1)) <<< bs.length := by
        rw [Nat.shiftLeft_eq, Nat.shiftLeft_eq]
        exact Nat.mul_le_mul_right _ hle
      _ = (acc + 1) <<< (b :: bs).length := (Nat.shiftLeft_succ_inside ..).symm

/-- `w` bits spell a number that `w` bits can hold. -/
theorem ofBits_lt {w : Nat} {bs : List Bool} (h : bs.length = w) : ofBits bs < 1 <<< w := by
  have hlt := foldl_lt bs 0
  rw [Nat.zero_add, h] at hlt
  exact hlt

/-! ## Groups -/

theorem chunks_nil (w : Nat) : chunks w ([] : List α) = [] := by rw [chunks]

theorem chunks_cons (w : Nat) (a : α) (l : List α) :
    chunks w (a :: l) = (a :: l.take w) :: chunks w (l.drop w) := by rw [chunks]

theorem length_of_mem_chunks {w : Nat} {l g : List α} (hg : g ∈ chunks w l) : g.length ≤ w + 1 := by
  induction l using chunks.induct w with
  | case1 =>
    rw [chunks_nil] at hg
    cases hg
  | case2 a r ih =>
    rw [chunks_cons] at hg
    obtain rfl | hg := List.mem_cons.1 hg
    · rw [List.length_cons, List.length_take]
      omega
    · exact ih hg

/-- Groups of the right size are cut where they were joined. -/
theorem chunks_flatMap {w : Nat} {f : α → List β} (hf : ∀ a, (f a).length = w + 1) (l : List α) :
    chunks w (l.flatMap f) = l.map f := by
  induction l with
  | nil => exact chunks_nil w
  | cons a l ih =>
    obtain ⟨b, t, ht⟩ := List.exists_cons_of_length_eq_add_one (hf a)
    have hlength : t.length = w := by
      have := hf a
      rw [ht, List.length_cons] at this
      omega
    rw [List.flatMap_cons, List.map_cons, ht, List.cons_append, chunks_cons,
      List.take_left' hlength, List.drop_left' hlength, ih]

/-- Filling up the last group appends less than a group, so that only full groups are
    there. -/
theorem exists_fill (w : Nat) (l : List Bool) : ∃ k ≤ w,
    (chunks w l).flatMap (fun g => g ++ List.replicate (w + 1 - g.length) false) =
      l ++ List.replicate k false := by
  induction l using chunks.induct w with
  | case1 => exact ⟨0, Nat.zero_le w, by simp [chunks_nil]⟩
  | case2 a r ih =>
    obtain hshort | hfull := Nat.lt_or_ge r.length w
    · -- This is the last group.
      refine ⟨w - r.length, Nat.sub_le _ _, ?_⟩
      rw [chunks_cons, List.drop_eq_nil_of_le (Nat.le_of_lt hshort), chunks_nil,
        List.take_of_length_le (Nat.le_of_lt hshort), List.flatMap_cons, List.flatMap_nil,
        List.append_nil, List.length_cons, Nat.add_sub_add_right]
    · obtain ⟨k, hk, hfill⟩ := ih
      have hlength : (a :: r.take w).length = w + 1 := by
        rw [List.length_cons, List.length_take, Nat.min_eq_left hfull]
      refine ⟨k, hk, ?_⟩
      rw [chunks_cons, List.flatMap_cons, hfill, hlength, Nat.sub_self, List.replicate_zero,
        List.append_nil, List.cons_append, ← List.append_assoc, List.take_append_drop,
        List.cons_append]

end VpnNode.Bits
