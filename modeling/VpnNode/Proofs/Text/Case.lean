import VpnNode.Text.Blank

/-!
# Lower case

Only letters of ASCII have another form in lower case, so what is said of a character and
its lower-case form is looked up among 128 characters.

Main statements:

* `forall_char`: what holds of the characters of ASCII, and of those that stay as they are,
  holds of all.
* `asciiLower_asciiLower`: a text in lower case stays as it is.
-/

namespace VpnNode.Text

theorem toLower_of_ge {c : Char} (h : 128 ≤ c.toNat) : c.toLower = c := by
  unfold Char.toLower
  refine dif_neg fun ⟨_, hle⟩ => ?_
  have hle : c.toNat ≤ 90 := hle
  omega

/-- What holds of the characters of ASCII, and of those that stay as they are, holds of
    all. -/
theorem forall_char {P : Char → Char → Prop} (hascii : ∀ n < 128, P (Char.ofNat n) (Char.ofNat n).toLower)
    (hother : ∀ c, 128 ≤ c.toNat → P c c) (c : Char) : P c c.toLower := by
  obtain hlt | hge := Nat.lt_or_ge c.toNat 128
  · have hc := hascii c.toNat hlt
    rwa [Char.ofNat_toNat] at hc
  · rw [toLower_of_ge hge]
    exact hother c hge

theorem toLower_toLower (c : Char) : c.toLower.toLower = c.toLower :=
  forall_char (P := fun _ c' => c'.toLower = c') (by decide +kernel) (fun _ => toLower_of_ge) c

/-- A text in lower case stays as it is. -/
theorem asciiLower_asciiLower (s : String) : asciiLower (asciiLower s) = asciiLower s := by
  rw [asciiLower, asciiLower, String.toList_ofList, List.map_map]
  exact congrArg String.ofList (List.map_congr_left fun c _ => toLower_toLower c)

end VpnNode.Text
