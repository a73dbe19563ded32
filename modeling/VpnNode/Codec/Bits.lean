/-!
# Regrouping bits

Octets and symbols of other widths are two groupings of one run of bits, the
most significant bit of each group first.

Main statements:

* `ofBits_toBits`: a number that `w` bits can hold is read back from its `w` bits.
* `length_toBits`: `w` bits are written.
-/

namespace VpnNode.Bits

/-- The lowest `w` bits of a number, the highest of them first. -/
def toBits : Nat → Nat → List Bool
  | 0, _ => []
  | w + 1, n => n.testBit w :: toBits w n

/-- The number that bits spell. -/
def ofBits (bs : List Bool) : Nat := bs.foldl (fun n b => n * 2 + b.toNat) 0

/-- Cuts a list into pieces of `w + 1` elements; the last piece may be shorter. -/
def chunks (w : Nat) (l : List α) : List (List α) :=
  match l with
  | [] => []
  | a :: r => (a :: r.take w) :: chunks w (r.drop w)
termination_by l.length
decreasing_by simp only [List.length_drop, List.length_cons]; omega

theorem length_toBits (w n : Nat) : (toBits w n).length = w := by
  induction w with
  | zero => rfl
  | succ w ih => simp [toBits, ih]

theorem foldl_toBits (w n acc : Nat) :
    (toBits w n).foldl (fun m b => m * 2 + b.toNat) acc = acc <<< w + n % (1 <<< w) := by
  induction w generalizing acc with
  | zero => simp [toBits, Nat.mod_one]
  | succ w ih =>
    simp only [toBits, List.foldl_cons, ih]
    simp only [Nat.shiftLeft_eq, Nat.one_mul]
    rw [Nat.toNat_testBit, Nat.mod_pow_succ, Nat.pow_succ, Nat.add_mul, Nat.mul_comm (2 ^ w) 2,
      ← Nat.mul_assoc, Nat.mul_comm (n / 2 ^ w % 2)]
    omega

/-- A number that `w` bits can hold is read back from its `w` bits. -/
theorem ofBits_toBits {w n : Nat} (h : n < 1 <<< w) : ofBits (toBits w n) = n := by
  rw [ofBits, foldl_toBits, Nat.mod_eq_of_lt h, Nat.zero_shiftLeft, Nat.zero_add]

end VpnNode.Bits
