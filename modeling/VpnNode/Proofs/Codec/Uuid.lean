import VpnNode.Codec.Uuid
import VpnNode.Proofs.Codec.Base64

/-!
# UUIDs as texts and back

Main statements:

* `parse_render`: a UUID is read back from its canonical text.
* `trim_render`: the canonical text has no blanks that trimming could remove.
-/

namespace VpnNode

/-! ## Digits -/

namespace Hex

theorem chars_append (a b : List UInt8) : chars (a ++ b) = chars a ++ chars b :=
  List.flatMap_append

theorem length_chars (bs : List UInt8) : (chars bs).length = 2 * bs.length := by
  induction bs with
  | nil => rfl
  | cons b r ih =>
    unfold chars at ih ⊢
    simp only [List.flatMap_cons, List.length_append, List.length_cons, List.length_nil, ih]
    omega

theorem isBlank_digit : ∀ n < 16, Text.isBlank (digit n) = false := by decide

theorem isBlank_chars (bs : List UInt8) : ∀ c ∈ chars bs, Text.isBlank c = false := by
  intro c hc
  obtain ⟨b, -, hb⟩ := List.mem_flatMap.1 hc
  have hlt := b.toNat_lt
  simp only [List.mem_cons, List.not_mem_nil, or_false] at hb
  obtain rfl | rfl := hb
  · exact isBlank_digit _ (by omega)
  · exact isBlank_digit _ (by omega)

end Hex

namespace Uuid

/-! ## Groups -/

theorem unhyphenate?_groups {a b c d e : List Char} (ha : a.length = 8) (hb : b.length = 4)
    (hc : c.length = 4) (hd : d.length = 4) (he : e.length = 12) :
    unhyphenate? (a ++ '-' :: (b ++ '-' :: (c ++ '-' :: (d ++ '-' :: e)))) =
      some (a ++ b ++ c ++ d ++ e) := by
  have hlen : (a ++ '-' :: (b ++ '-' :: (c ++ '-' :: (d ++ '-' :: e)))).length = 36 := by
    simp only [List.length_append, List.length_cons, ha, hb, hc, hd, he]
  unfold unhyphenate?
  rw [if_pos]
  · simp [List.drop_append, List.drop_eq_nil_of_le, ha, hb, hc, hd]
  · refine ⟨hlen, ?_⟩
    simp [List.getElem?_append, ha, hb, hc, hd]

theorem isBlank_hyphenated (sizes : List Nat) (bs : List UInt8) :
    ∀ c ∈ hyphenated sizes bs, Text.isBlank c = false := by
  have hhyphen : Text.isBlank '-' = false := by decide
  induction sizes, bs using hyphenated.induct with
  | case1 bs => simp [hyphenated]
  | case2 bs n => exact Hex.isBlank_chars _
  | case3 bs n sizes _ ih =>
    intro c hc
    rw [hyphenated, List.mem_append, List.mem_cons] at hc
    · obtain hc | rfl | hc := hc
      · exact Hex.isBlank_chars _ c hc
      · exact hhyphen
      · exact ih c hc
    · assumption

/-! ## The canonical text -/

theorem hyphenated_eq {bs : List UInt8} (hlen : bs.length = 16) :
    hyphenated groupSizes bs =
      Hex.chars (bs.take 4) ++ '-' :: (Hex.chars ((bs.drop 4).take 2) ++ '-' ::
        (Hex.chars ((bs.drop 6).take 2) ++ '-' :: (Hex.chars ((bs.drop 8).take 2) ++ '-' ::
          Hex.chars (bs.drop 10)))) := by
  simp [hyphenated, groupSizes, List.drop_drop, List.take_of_length_le, hlen]

theorem length_hyphenated {bs : List UInt8} (hlen : bs.length = 16) :
    (hyphenated groupSizes bs).length = 36 := by
  rw [hyphenated_eq hlen]
  simp [Hex.length_chars, hlen]

/-- The groups are all the digits. -/
theorem chars_groups (bs : List UInt8) :
    Hex.chars (bs.take 4) ++ Hex.chars ((bs.drop 4).take 2) ++
      Hex.chars ((bs.drop 6).take 2) ++ Hex.chars ((bs.drop 8).take 2) ++
      Hex.chars (bs.drop 10) = Hex.chars bs := by
  simp only [← Hex.chars_append]
  congr 1
  rw [← List.take_add, ← List.take_add, ← List.take_add, List.take_append_drop]

/-- A UUID is read back from its canonical text. -/
theorem parse_render (u : Uuid) : parse u.render = .ok u := by
  obtain ⟨bs, hlen⟩ := u
  have hread : ofHyphenated? (hyphenated groupSizes bs) = some ⟨bs, hlen⟩ := by
    rw [ofHyphenated?, hyphenated_eq hlen, unhyphenate?_groups, chars_groups, Option.bind_some,
      ofDigits?, Hex.ofChars?_chars]
    · exact dif_pos hlen
    all_goals simp [Hex.length_chars, hlen]
  rw [parse_eq_ok_iff, render, String.toList_ofList, ofChars?, length_hyphenated hlen]
  exact hread

/-- The canonical text has no blanks that trimming could remove. -/
theorem trim_render (u : Uuid) : Text.trim u.render = u.render :=
  Text.trim_ofList (isBlank_hyphenated groupSizes u.octets)

end Uuid

end VpnNode
