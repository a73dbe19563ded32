import VpnNode.Codec.Form

/-!
# Query values are told apart

Every octet of a query value is written as one character, or as a percent sign and two
digits. So the end of an octet can be seen, and values that are written alike are the same.

Main statement:

* `encode_injective`: different values are written differently.
-/

namespace VpnNode.Form

/-! ## Octets -/

/-- What holds of the octets of 256 numbers holds of every octet. -/
theorem forall_octet {P : UInt8 → Prop} (h : ∀ n < 256, P (UInt8.ofNat n)) (b : UInt8) : P b := by
  have hb := h b.toNat b.toNat_lt
  rwa [UInt8.ofNat_toNat] at hb

/-- The octet that characters stand for. -/
def octetOf : List Char → UInt8
  | ['%', h, l] => UInt8.ofNat ((Hex.digit? h).getD 0 * 16 + (Hex.digit? l).getD 0)
  | ['+'] => 32
  | c :: _ => UInt8.ofNat c.toNat
  | [] => 0

theorem octetOf_encodeOctet : ∀ b, octetOf (encodeOctet b) = b :=
  forall_octet (P := fun b => octetOf (encodeOctet b) = b) (by decide +kernel)

theorem ne_percent_of_isKept : ∀ b, isKept b = true → Char.ofNat b.toNat ≠ '%' :=
  forall_octet (P := fun b => isKept b = true → Char.ofNat b.toNat ≠ '%') (by decide +kernel)

/-- Two characters follow a percent sign, and none follows another character. -/
theorem exists_encodeOctet_eq (b : UInt8) :
    ∃ c cs, encodeOctet b = c :: cs ∧ cs.length = if c = '%' then 2 else 0 := by
  unfold encodeOctet
  split
  · rename_i hkept
    exact ⟨_, [], rfl, (if_neg (ne_percent_of_isKept b hkept)).symm⟩
  · split
    · exact ⟨'+', [], rfl, rfl⟩
    · exact ⟨'%', _, rfl, rfl⟩

/-- The first octet is told from what follows. -/
theorem encodeOctet_append_inj {b b' : UInt8} {r r' : List Char}
    (h : encodeOctet b ++ r = encodeOctet b' ++ r') : b = b' ∧ r = r' := by
  have hlength : (encodeOctet b).length = (encodeOctet b').length := by
    obtain ⟨c, cs, hb, hcs⟩ := exists_encodeOctet_eq b
    obtain ⟨c', cs', hb', hcs'⟩ := exists_encodeOctet_eq b'
    rw [hb, hb', List.cons_append, List.cons_append] at h
    rw [hb, hb', List.length_cons, List.length_cons, hcs, hcs', (List.cons.inj h).1]
  obtain ⟨hoctet, hrest⟩ := List.append_inj h hlength
  refine ⟨?_, hrest⟩
  rw [← octetOf_encodeOctet b, hoctet, octetOf_encodeOctet]

/-! ## Values -/

theorem flatMap_encodeOctet_injective {bs bs' : List UInt8}
    (h : bs.flatMap encodeOctet = bs'.flatMap encodeOctet) : bs = bs' := by
  have hne : ∀ b r, encodeOctet b ++ r ≠ [] := fun b r => by
    obtain ⟨c, cs, hb, -⟩ := exists_encodeOctet_eq b
    rw [hb]
    exact List.cons_ne_nil _ _
  induction bs generalizing bs' with
  | nil =>
    cases bs' with
    | nil => rfl
    | cons b' bs' => exact absurd h.symm (hne b' _)
  | cons b bs ih =>
    cases bs' with
    | nil => exact absurd h (hne b _)
    | cons b' bs' =>
      rw [List.flatMap_cons, List.flatMap_cons] at h
      obtain ⟨rfl, hrest⟩ := encodeOctet_append_inj h
      rw [ih hrest]

theorem octets_injective {s t : String} (h : Utf8.octets s = Utf8.octets t) : s = t :=
  String.toByteArray_inj.1 (ByteArray.ext (Array.toList_inj.1 h))

/-- Different values are written differently. -/
theorem encode_injective {s t : String} (h : encode s = encode t) : s = t :=
  octets_injective (flatMap_encodeOctet_injective (String.ofList_inj.1 h))

end VpnNode.Form
