/-!
# Blank characters

A character is blank if Unicode gives it the property `White_Space`. Trimming
removes the blanks at both ends of a text and nothing else.

Main statement:

* `trimChars_eq_nil_iff`: trimming leaves nothing exactly if all is blank.
-/

namespace VpnNode.Text

/-- The characters with the Unicode property `White_Space`. -/
def isBlank (c : Char) : Bool :=
  let n := c.toNat
  (0x9 ≤ n && n ≤ 0xD) || n == 0x20 || n == 0x85 || n == 0xA0 || n == 0x1680 ||
    (0x2000 ≤ n && n ≤ 0x200A) || n == 0x2028 || n == 0x2029 || n == 0x202F || n == 0x205F ||
    n == 0x3000

/-- The characters of a text without the blanks at its ends. -/
def trimChars (cs : List Char) : List Char :=
  ((cs.dropWhile isBlank).reverse.dropWhile isBlank).reverse

/-- A text without the blanks at its ends. -/
def trim (s : String) : String := String.ofList (trimChars s.toList)

/-- Does a text hold nothing but blanks? -/
def isAllBlank (s : String) : Bool := s.toList.all isBlank

/-- A letter of ASCII in lower case; every other character as it is. -/
def asciiLower (s : String) : String := String.ofList (s.toList.map Char.toLower)

theorem dropWhile_eq_nil_iff_all {p : Char → Bool} {l : List Char} :
    l.dropWhile p = [] ↔ l.all p := by
  induction l with
  | nil => simp
  | cons c r ih => by_cases h : p c <;> simp [h, ih]

/-- Trimming leaves nothing exactly if all is blank. -/
theorem trimChars_eq_nil_iff {cs : List Char} : trimChars cs = [] ↔ cs.all isBlank := by
  unfold trimChars
  rw [List.reverse_eq_nil_iff, dropWhile_eq_nil_iff_all, List.all_reverse]
  constructor
  · intro h
    rw [← dropWhile_eq_nil_iff_all]
    match hd : cs.dropWhile isBlank with
    | [] => rfl
    | c :: r =>
      have hc : isBlank c = true := by rw [hd] at h; simp at h; exact h.1
      have := List.head?_dropWhile_not isBlank cs
      rw [hd] at this
      simp [hc] at this
  · intro h
    rw [← dropWhile_eq_nil_iff_all] at h
    simp [h]

end VpnNode.Text
