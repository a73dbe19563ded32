import VpnNode.Toml.Quoted

/-!
# Every string is read back

A string is written in the first of six forms that fits, and is read back from any of them,
before any text that does not go on with a quote. Over several lines quotes may stand for
themselves, up to two in a row; the only places where that needs care are a quote before two
others and the quotes just before the end.

Main statements:

* `multiBasic_multiEscape`, `multiLiteral_append`: what is written over several lines is read
  back.
* `read_write`: so is every string, in the form in which it is written.
-/

namespace VpnNode.Toml.Quoted

/-- No quote comes next. -/
def Stops (r : List Char) : Prop := ∀ c ∈ r.head?, c ≠ '"' ∧ c ≠ '\''

theorem Stops.ne_basic {r : List Char} (h : Stops r) (t : List Char) : r ≠ '"' :: t := by
  rintro rfl
  exact (h '"' rfl).1 rfl

theorem Stops.ne_literal {r : List Char} (h : Stops r) (t : List Char) : r ≠ '\'' :: t := by
  rintro rfl
  exact (h '\'' rfl).2 rfl

theorem ne_break_of_isPlain {c : Char} (h : isPlain c = true) : c ≠ '\n' ∧ c ≠ '\r' := by
  constructor <;> rintro rfl <;> exact absurd h (by decide)

/-! ## Basic strings over several lines -/

/-- A character that stands for itself, unless it is the first of three quotes. -/
theorem multiBasic_cons {c : Char} (hc : isPlain c = true) (hslash : c ≠ '\\') {r : List Char}
    (hquote : c = '"' → ∀ t, r ≠ '"' :: '"' :: t) :
    multiBasic false (c :: r) = prepend (some c) (multiBasic false r) := by
  obtain ⟨hnewline, hreturn⟩ := ne_break_of_isPlain hc
  rw [multiBasic]
  · rw [if_neg hnewline, if_neg hreturn, if_pos hc]
    rfl
  · exact fun t hq ht => hquote hq _ ht
  · exact fun t hq ht => hquote hq _ ht
  · exact fun t hq ht => hquote hq _ ht
  all_goals exact fun hs => absurd hs hslash

theorem multiBasic_escapeChar {c : Char} (hnewline : c ≠ '\n') (hquote : c ≠ '"') (r : List Char) :
    multiBasic false (escapeChar c ++ r) = prepend (some c) (multiBasic false r) := by
  unfold escapeChar
  split
  · rfl
  · rfl
  · exact absurd rfl hnewline
  · rfl
  · rfl
  · exact absurd rfl hquote
  · rfl
  · rename_i hslash
    split
    · rename_i hplain
      exact multiBasic_cons hplain hslash fun hc => absurd hc hquote
    · rename_i hplain
      have hlow : c.toNat < 128 := by
        simp [isPlain] at hplain
        omega
      have hcode := codePoint?_control c.toNat hlow
      show prepend (codePoint? ['0', '0', _, _]) (multiBasic false r) = _
      rw [hcode, Char.ofNat_toNat]

/-- What stands for a character does not begin with a double quote. -/
theorem escapeChar_ne_quote (c : Char) (r t : List Char) : escapeChar c ++ r ≠ '"' :: t := by
  unfold escapeChar
  split
  case h_8 =>
    rename_i hquote _
    split
    · exact fun h => hquote (List.cons.inj h).1
    · exact fun h => absurd (List.cons.inj h).1 (by decide)
  all_goals exact fun h => absurd (List.cons.inj h).1 (by decide)

theorem multiEscape_cons {c : Char} (hnewline : c ≠ '\n') (hquote : c ≠ '"') (run : Nat)
    (cs : List Char) : multiEscape run (c :: cs) = escapeChar c ++ multiEscape 0 cs := by
  rw [multiEscape]
  · exact hnewline
  · exact hquote

/-- After two quotes in a row, or before another character, no quote stands for itself. -/
theorem multiEscape_ne_quote {c : Char} {run : Nat} (h : c ≠ '"' ∨ 2 ≤ run)
    (cs r t : List Char) : multiEscape run (c :: cs) ++ r ≠ '"' :: t := by
  by_cases hnewline : c = '\n'
  · subst hnewline
    exact fun he => absurd (List.cons.inj he).1 (by decide)
  by_cases hquote : c = '"'
  · subst hquote
    have hrun : ¬ run < 2 := Nat.not_lt.2 (h.resolve_left (· rfl))
    rw [multiEscape, if_neg hrun]
    exact fun he => absurd (List.cons.inj he).1 (by decide)
  · rw [multiEscape_cons hnewline hquote, List.append_assoc]
    exact escapeChar_ne_quote c _ t

/-- Behind a quote that stands for itself two others follow only where the string ends. -/
theorem multiEscape_after_quote (run : Nat) (cs r : List Char) :
    cs = [] ∨ cs = ['"'] ∧ run < 1 ∨
      ∀ t, multiEscape (run + 1) cs ++ '"' :: '"' :: '"' :: r ≠ '"' :: '"' :: t := by
  cases cs with
  | nil => exact .inl rfl
  | cons c cs =>
    right
    by_cases hstop : c ≠ '"' ∨ 2 ≤ run + 1
    · exact .inr fun t => multiEscape_ne_quote hstop cs _ _
    · obtain ⟨hc, hrun⟩ := not_or.1 hstop
      obtain rfl : c = '"' := Decidable.not_not.1 hc
      have hshort : run + 1 < 2 := Nat.not_le.1 hrun
      cases cs with
      | nil => exact .inl ⟨rfl, by omega⟩
      | cons d cs =>
        right
        intro t he
        rw [multiEscape, if_pos hshort, List.cons_append] at he
        exact multiEscape_ne_quote (.inr (by omega)) cs _ t (List.cons.inj he).2

/-- The closing quotes, with none before them. -/
theorem multiBasic_close {r : List Char} (hr : Stops r) :
    multiBasic false ('"' :: '"' :: '"' :: r) = some ([], r) := by
  rw [multiBasic]
  · exact fun t => hr.ne_basic _
  · exact fun t => hr.ne_basic _

/-- The closing quotes behind one that belongs to the string. -/
theorem multiBasic_close_one {r : List Char} (hr : Stops r) :
    multiBasic false ('"' :: '"' :: '"' :: '"' :: r) = some (['"'], r) := by
  rw [multiBasic]
  exact fun t => hr.ne_basic _

/-- What is written between three double quotes is read back. -/
theorem multiBasic_multiEscape (cs : List Char) {r : List Char} (hr : Stops r) (run : Nat) :
    multiBasic false (multiEscape run cs ++ '"' :: '"' :: '"' :: r) = some (cs, r) := by
  induction cs generalizing run with
  | nil => exact multiBasic_close hr
  | cons c cs ih =>
    by_cases hnewline : c = '\n'
    · subst hnewline
      show prepend (some '\n') (multiBasic false (multiEscape 0 cs ++ _)) = _
      rw [ih]
      rfl
    by_cases hquote : c = '"'
    · subst hquote
      by_cases hrun : run < 2
      · rw [multiEscape, if_pos hrun]
        obtain rfl | ⟨rfl, hfirst⟩ | hinside := multiEscape_after_quote run cs r
        · exact multiBasic_close_one hr
        · obtain rfl : run = 0 := by omega
          rfl
        · rw [List.cons_append, multiBasic_cons (by decide) (by decide) fun _ => hinside, ih]
          rfl
      · rw [multiEscape, if_neg hrun]
        show prepend (some '"') (multiBasic false (multiEscape 0 cs ++ _)) = _
        rw [ih]
        rfl
    · rw [multiEscape_cons hnewline hquote, List.append_assoc,
        multiBasic_escapeChar hnewline hquote, ih]
      rfl

/-! ## Literal strings over several lines -/

/-- A character that stands for itself, unless it is the first of three quotes. -/
theorem multiLiteral_cons {c : Char} (hc : isPlain c = true ∨ c = '\n') {r : List Char}
    (hquote : c = '\'' → ∀ t, r ≠ '\'' :: '\'' :: t) :
    multiLiteral (c :: r) = prepend (some c) (multiLiteral r) := by
  rw [multiLiteral]
  · by_cases hnewline : c = '\n'
    · rw [if_pos hnewline]
    · have hplain := hc.resolve_right hnewline
      rw [if_neg hnewline, if_neg (ne_break_of_isPlain hplain).2, if_pos hplain]
  · exact fun t hq ht => hquote hq _ ht
  · exact fun t hq ht => hquote hq _ ht
  · exact fun t hq ht => hquote hq _ ht

/-- A run of a character at the front is one. -/
theorem hasRun_of_front {q : Char} {n : Nat} {cs : List Char}
    (h : List.replicate n q <+: cs) : hasRun q n cs = true := by
  cases cs with
  | nil =>
    rw [List.prefix_nil, List.replicate_eq_nil_iff] at h
    rw [h]
    rfl
  | cons c cs => rw [hasRun, List.isPrefixOf_iff_prefix.2 h, Bool.true_or]

/-- Where three quotes in a row do not occur, two others follow a quote only where the string
    ends. -/
theorem after_quote {cs : List Char} (h : hasRun '\'' 3 ('\'' :: cs) = false) (r : List Char) :
    cs = [] ∨ cs = ['\''] ∨
      ∀ t, cs ++ '\'' :: '\'' :: '\'' :: r ≠ '\'' :: '\'' :: t := by
  match cs with
  | [] => exact .inl rfl
  | [c] =>
    right
    by_cases hc : c = '\''
    · exact .inl (by rw [hc])
    · exact .inr fun t he => hc (List.cons.inj he).1
  | c :: d :: cs =>
    refine .inr (.inr fun t he => ?_)
    obtain ⟨hc, he⟩ := List.cons.inj he
    rw [hc, (List.cons.inj he).1] at h
    exact Bool.noConfusion (h.symm.trans (hasRun_of_front ⟨cs, rfl⟩))

theorem hasRun_tail {q c : Char} {n : Nat} {cs : List Char} (h : hasRun q n (c :: cs) = false) :
    hasRun q n cs = false := (Bool.or_eq_false_iff.1 h).2

theorem multiLiteral_close {r : List Char} (hr : Stops r) :
    multiLiteral ('\'' :: '\'' :: '\'' :: r) = some ([], r) := by
  rw [multiLiteral]
  · exact fun t => hr.ne_literal _
  · exact fun t => hr.ne_literal _

theorem multiLiteral_close_one {r : List Char} (hr : Stops r) :
    multiLiteral ('\'' :: '\'' :: '\'' :: '\'' :: r) = some (['\''], r) := by
  rw [multiLiteral]
  exact fun t => hr.ne_literal _

/-- What is written between three single quotes is read back. -/
theorem multiLiteral_append {cs : List Char} (hplain : ∀ c ∈ cs, isPlain c = true ∨ c = '\n')
    (hrun : hasRun '\'' 3 cs = false) {r : List Char} (hr : Stops r) :
    multiLiteral (cs ++ '\'' :: '\'' :: '\'' :: r) = some (cs, r) := by
  induction cs with
  | nil => exact multiLiteral_close hr
  | cons c cs ih =>
    obtain ⟨hc, hcs⟩ := List.forall_mem_cons.1 hplain
    have hrest := ih hcs (hasRun_tail hrun)
    by_cases hquote : c = '\''
    · subst hquote
      obtain rfl | rfl | hinside := after_quote hrun r
      · exact multiLiteral_close_one hr
      · rfl
      · rw [List.cons_append, multiLiteral_cons hc fun _ => hinside, hrest]
        rfl
    · rw [List.cons_append, multiLiteral_cons hc fun h => absurd h hquote, hrest]
      rfl

/-! ## Every form -/

theorem dropBreak_cons {c : Char} (hnewline : c ≠ '\n') (hreturn : c ≠ '\r') (r : List Char) :
    dropBreak (c :: r) = c :: r := by
  rw [dropBreak]
  · exact fun t he => hnewline (List.cons.inj he).1
  · exact fun t he => hreturn (List.cons.inj he).1

/-- What stands for a character other than a line break does not begin with one. -/
theorem dropBreak_escapeChar {c : Char} (hnewline : c ≠ '\n') (r : List Char) :
    dropBreak (escapeChar c ++ r) = escapeChar c ++ r := by
  unfold escapeChar
  split
  case h_3 => exact absurd rfl hnewline
  case h_8 =>
    split
    · rename_i hplain
      exact dropBreak_cons hnewline (ne_break_of_isPlain hplain).2 r
    · rfl
  all_goals rfl

/-- Just the line break that is put in front of a text with several lines is dropped. -/
theorem dropBreak_opening_multiEscape (cs r : List Char) :
    dropBreak (opening cs ++ multiEscape 0 cs ++ '"' :: '"' :: '"' :: r) =
      multiEscape 0 cs ++ '"' :: '"' :: '"' :: r := by
  unfold opening
  split
  · rfl
  · rename_i hlines
    cases cs with
    | nil => rfl
    | cons c cs =>
      have hnewline : c ≠ '\n' := by
        rintro rfl
        simp at hlines
      by_cases hquote : c = '"'
      · subst hquote
        rfl
      · rw [multiEscape_cons hnewline hquote, List.nil_append, List.append_assoc]
        exact dropBreak_escapeChar hnewline _

theorem dropBreak_opening {cs : List Char} (hplain : ∀ c ∈ cs, isPlain c = true ∨ c = '\n')
    (r : List Char) :
    dropBreak (opening cs ++ cs ++ '\'' :: '\'' :: '\'' :: r) =
      cs ++ '\'' :: '\'' :: '\'' :: r := by
  unfold opening
  split
  · rfl
  · rename_i hlines
    cases cs with
    | nil => rfl
    | cons c cs =>
      have hnewline : c ≠ '\n' := by
        rintro rfl
        simp at hlines
      have hc := (hplain c List.mem_cons_self).resolve_right hnewline
      exact dropBreak_cons hnewline (ne_break_of_isPlain hc).2 _

/-- A quotation on one line is no opening of one over several lines. -/
theorem read_basic {cs r : List Char} (hr : Stops r) :
    read ('"' :: (escape cs ++ '"' :: r)) = basic (escape cs ++ '"' :: r) := by
  rw [read]
  · rfl
  · intro t he
    cases cs with
    | nil => exact hr.ne_basic _ (List.cons.inj (List.cons.inj he).2).2
    | cons c cs =>
      have hescape : escape (c :: cs) ++ '"' :: r = escapeChar c ++ (escape cs ++ '"' :: r) :=
        List.append_assoc ..
      rw [hescape] at he
      exact escapeChar_ne_quote c _ _ (List.cons.inj he).2
  · exact fun t he => absurd (List.cons.inj he).1 (by decide)

theorem read_literal {cs r : List Char} (hquote : '\'' ∉ cs) (hr : Stops r) :
    read ('\'' :: (cs ++ '\'' :: r)) = literal (cs ++ '\'' :: r) := by
  rw [read]
  · rfl
  · exact fun t he => absurd (List.cons.inj he).1 (by decide)
  · intro t he
    cases cs with
    | nil => exact hr.ne_literal _ (List.cons.inj (List.cons.inj he).2).2
    | cons c cs =>
      have hc : c = '\'' := (List.cons.inj (List.cons.inj he).2).1
      exact hquote (hc ▸ List.mem_cons_self)

/-- A form suits a text if nothing in the text would be read as something else. -/
def Form.Suits (cs : List Char) : Form → Prop
  | .literal => (∀ c ∈ cs, isPlain c = true) ∧ '\'' ∉ cs
  | .multiLiteral => (∀ c ∈ cs, isPlain c = true ∨ c = '\n') ∧ hasRun '\'' 3 cs = false
  | _ => True

/-- A text is read back from a form that suits it. -/
theorem read_writeAs {cs : List Char} {form : Form} (h : form.Suits cs) {r : List Char}
    (hr : Stops r) : read (writeAs cs form ++ r) = some (cs, r) := by
  have hbasic : read ('"' :: escape cs ++ ['"'] ++ r) = some (cs, r) := by
    have hjoin : '"' :: escape cs ++ ['"'] ++ r = '"' :: (escape cs ++ '"' :: r) := by simp
    rw [hjoin, read_basic hr, basic_escape]
  have hmulti : read ('"' :: '"' :: '"' :: opening cs ++ multiEscape 0 cs ++ ['"', '"', '"'] ++ r) =
      some (cs, r) := by
    have hjoin : '"' :: '"' :: '"' :: opening cs ++ multiEscape 0 cs ++ ['"', '"', '"'] ++ r =
        '"' :: '"' :: '"' :: (opening cs ++ multiEscape 0 cs ++ '"' :: '"' :: '"' :: r) := by simp
    rw [hjoin, read, dropBreak_opening_multiEscape, multiBasic_multiEscape cs hr]
  cases form with
  | basic => exact hbasic
  | escaped => exact hbasic
  | multiBasic => exact hmulti
  | multiEscaped => exact hmulti
  | literal =>
    have hjoin : writeAs cs .literal ++ r = '\'' :: (cs ++ '\'' :: r) := by simp [writeAs]
    rw [hjoin, read_literal h.2 hr, literal_append cs r (List.all_eq_true.2 h.1) h.2]
  | multiLiteral =>
    have hjoin : writeAs cs .multiLiteral ++ r =
        '\'' :: '\'' :: '\'' :: (opening cs ++ cs ++ '\'' :: '\'' :: '\'' :: r) := by
      simp [writeAs]
    rw [hjoin, read, dropBreak_opening h.1, multiLiteral_append h.1 h.2 hr]

/-- A text without control characters consists of characters that stand for themselves and
    line breaks. -/
theorem plain_or_newline {cs : List Char} (h : cs.any isControl = false) :
    ∀ c ∈ cs, isPlain c = true ∨ c = '\n' := by
  intro c hc
  have hcontrol : isControl c = false := by
    rw [List.any_eq_false] at h
    simpa using h c hc
  by_cases hnewline : c = '\n'
  · exact .inr hnewline
  · left
    simpa [isControl, hnewline] using hcontrol

/-- The form that is chosen for a text suits it. -/
theorem suits_of (cs : List Char) : (Form.of cs).Suits cs := by
  unfold Form.of
  dsimp only
  split
  · split <;> trivial
  rename_i hcontrol
  have hplain := plain_or_newline (Bool.not_eq_true _ ▸ hcontrol)
  split
  · trivial
  split
  · rename_i hliteral
    simp only [Bool.and_eq_true, Bool.not_eq_true', List.contains_eq_mem,
      decide_eq_false_iff_not] at hliteral
    refine ⟨fun c hc => (hplain c hc).resolve_right ?_, hliteral.2⟩
    rintro rfl
    exact hliteral.1 hc
  split
  · trivial
  split
  · rename_i hrun
    exact ⟨hplain, by simpa using hrun⟩
  · split <;> trivial

/-- Every text is read back, before any text that does not go on with a quote. -/
theorem read_write (cs : List Char) {r : List Char} (hr : Stops r) :
    read (write cs ++ r) = some (cs, r) :=
  read_writeAs (suits_of cs) hr

end VpnNode.Toml.Quoted
