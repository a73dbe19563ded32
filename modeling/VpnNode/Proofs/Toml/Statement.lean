import VpnNode.Proofs.Toml.Quoted
import VpnNode.Proofs.Toml.Real
import VpnNode.Toml.Sheet
import VpnNode.Toml.Statement

/-!
# Lines are read back

What is written for a value is read back in front of the end of its line, whatever follows. So is
a header and a key with its value, and with them a text of many such lines.

Main statements:

* `value_write`: a value is read back up to the end of its line.
* `read_header`, `read_pair`: so are both kinds of lines.
* `Reads.cons`: a text is read statement by statement.
-/

namespace VpnNode.Toml

namespace Statement

open Quoted (isPlain isSpace)

/-! ## Words and texts -/

theorem value_eq_plainValue {c : Char} (hbracket : c ≠ '[') (hbrace : c ≠ '{') (depth : Nat)
    (r : List Char) : value depth (c :: r) = plainValue (c :: r) := by
  cases depth with
  | zero => rfl
  | succ depth =>
    rw [value]
    · exact fun t he => hbracket (List.cons.inj he).1
    · exact fun t he => hbrace (List.cons.inj he).1

theorem plainValue_eq_readWord {c : Char} (hbasic : c ≠ '"') (hliteral : c ≠ '\'') (r : List Char) :
    plainValue (c :: r) = readWord (c :: r) := by
  rw [plainValue]
  · exact fun t he => hbasic (List.cons.inj he).1
  · exact fun t he => hliteral (List.cons.inj he).1

/-- A value that is written as one word. -/
structure IsWord (e : Entry) : Prop where
  isWordChar : ∀ c ∈ e.write, isWordChar c = true
  read : Value.ofWord? e.write = some e.toValue

theorem isWord_integer {n : Nat} (h : (Entry.integer n).isWritable = true) :
    IsWord (.integer n) := by
  have hdigits : (Entry.integer n).write = Nat.toDigits 10 n := Nat.toList_repr
  constructor
  · rw [hdigits]
    exact fun c hc => isWordChar_of_isDigit (Decimal.isDigit_of_mem_toDigits hc)
  · rw [hdigits]
    exact ofWord?_toDigits h

theorem isWord_real (x : Binary64) : IsWord (.real x) :=
  ⟨forall_isWordChar_writeReal x, ofWord?_writeReal x⟩

theorem isWord_flag (b : Bool) : IsWord (.flag b) := by
  cases b with
  | true => exact ⟨List.all_eq_true.1 rfl, rfl⟩
  | false => exact ⟨List.all_eq_true.1 rfl, rfl⟩

theorem IsWord.exists_cons {e : Entry} (h : IsWord e) :
    ∃ c t, e.write = c :: t ∧ Toml.isWordChar c = true := by
  have hread := h.read
  have hchar := h.isWordChar
  cases hwrite : e.write with
  | nil =>
    have hnone : Value.ofWord? [] = none := rfl
    rw [hwrite, hnone] at hread
    exact absurd hread.symm (Option.some_ne_none _)
  | cons c t => exact ⟨c, t, rfl, hchar c (hwrite ▸ List.mem_cons_self)⟩

/-- A word is read as its value up to the end of its line. -/
theorem value_word {e : Entry} (h : IsWord e) (depth : Nat) (r : List Char) :
    value depth (e.write ++ '\n' :: r) = some (e.toValue, '\n' :: r) := by
  have hread := readWord_append h.isWordChar h.read r
  obtain ⟨c, more, heq, hc⟩ := h.exists_cons
  rw [heq, List.cons_append] at hread ⊢
  rw [value_eq_plainValue (Text.ne_of_test hc (by decide)) (Text.ne_of_test hc (by decide)),
    plainValue_eq_readWord (Text.ne_of_test hc (by decide)) (Text.ne_of_test hc (by decide)),
    hread]

/-! ## Texts -/

/-- What is written for a text begins with a quote. -/
theorem exists_write_eq (cs : List Char) :
    ∃ c r, (c = '"' ∨ c = '\'') ∧ Quoted.write cs = c :: r := by
  unfold Quoted.write
  cases Quoted.Form.of cs
  case literal => exact ⟨'\'', _, .inr rfl, rfl⟩
  case multiLiteral => exact ⟨'\'', _, .inr rfl, rfl⟩
  all_goals exact ⟨'"', _, .inl rfl, rfl⟩

/-- A text is read back, before anything but a quote. -/
theorem value_text (s : String) (depth : Nat) {r : List Char} (hr : Quoted.Stops r) :
    value depth (Quoted.write s.toList ++ r) = some (.text s, r) := by
  have hread := Quoted.read_write s.toList hr
  obtain ⟨c, more, hc, heq⟩ := exists_write_eq s.toList
  rw [heq, List.cons_append] at hread ⊢
  have hplain : plainValue (c :: (more ++ r)) =
      (Quoted.read (c :: (more ++ r))).map fun p => (.text (String.ofList p.1), p.2) := by
    obtain rfl | rfl := hc <;> rfl
  have hbracket : c ≠ '[' ∧ c ≠ '{' := by
    obtain rfl | rfl := hc <;> decide
  rw [value_eq_plainValue hbracket.1 hbracket.2, hplain, hread, Option.map_some]
  exact congrArg (fun s => some (Value.text s, r)) String.ofList_toList

/-! ## Lists of texts -/

/-- The lines of a list with several items. -/
def itemLines (items : List String) : List Char :=
  items.flatMap fun s => [' ', ' ', ' ', ' '] ++ Quoted.write s.toList ++ [',', '\n']

theorem length_le_length_itemLines (ss : List String) : ss.length ≤ (itemLines ss).length := by
  induction ss with
  | nil => exact Nat.zero_le _
  | cons s ss ih =>
    unfold itemLines at ih ⊢
    rw [List.flatMap_cons, List.length_append]
    simp only [List.length_cons, List.length_append]
    omega

theorem stops_comma (r : List Char) : Quoted.Stops (',' :: r) := by
  rintro c ⟨⟩
  decide

theorem stops_newline (r : List Char) : Quoted.Stops ('\n' :: r) := by
  rintro c ⟨⟩
  decide

theorem stops_bracket (r : List Char) : Quoted.Stops (']' :: r) := by
  rintro c ⟨⟩
  decide

/-- An item that another one may follow. -/
theorem items_comma {item : List Char → Option (Value × List Char)} {cs t : List Char} {c : Char}
    (hvoid : skipVoid false cs = c :: t) (hc : c ≠ ']') {v : Value} {r : List Char}
    (hitem : item (c :: t) = some (v, ',' :: r)) (n : Nat) :
    items item (n + 1) cs = (items item n r).map fun (vs, r) => (v :: vs, r) := by
  have hcomma : skipVoid false (',' :: r) = ',' :: r := rfl
  rw [items, hvoid]
  split
  · rename_i heq
    exact absurd (List.cons.inj heq).1 hc
  · simp only [hitem, Option.bind_eq_bind, Option.bind_some, hcomma]
    exact Option.map_eq_bind.symm

/-- The last item, with nothing behind it. -/
theorem items_last {item : List Char → Option (Value × List Char)} {cs t : List Char} {c : Char}
    (hvoid : skipVoid false cs = c :: t) (hc : c ≠ ']') {v : Value} {r : List Char}
    (hitem : item (c :: t) = some (v, ']' :: r)) (n : Nat) :
    items item (n + 1) cs = some ([v], r) := by
  have hclose : skipVoid false (']' :: r) = ']' :: r := rfl
  rw [items, hvoid]
  split
  · rename_i heq
    exact absurd (List.cons.inj heq).1 hc
  · simp only [hitem, Option.bind_eq_bind, Option.bind_some, hclose]
    rfl

/-- Nothing is skipped in front of a quote. -/
theorem skipVoid_write (cs r : List Char) :
    ∃ c t, c ≠ ']' ∧ Quoted.write cs ++ r = c :: t ∧ skipVoid false (c :: t) = c :: t := by
  obtain ⟨c, more, hc, heq⟩ := exists_write_eq cs
  refine ⟨c, more ++ r, ?_, by rw [heq, List.cons_append], ?_⟩
  · obtain rfl | rfl := hc <;> decide
  · obtain rfl | rfl := hc <;> rfl

/-- The items of a list are read back, one from each line. -/
theorem items_itemLines (depth : Nat) (ss : List String) (r : List Char) {n : Nat}
    (hn : ss.length < n) :
    items (value depth) n ('\n' :: (itemLines ss ++ ']' :: r)) = some (ss.map .text, r) := by
  induction ss generalizing n with
  | nil =>
    obtain ⟨n, rfl⟩ := Nat.exists_eq_succ_of_ne_zero (Nat.ne_of_gt hn)
    rfl
  | cons s ss ih =>
    obtain ⟨n, rfl⟩ := Nat.exists_eq_succ_of_ne_zero (Nat.ne_of_gt (Nat.zero_lt_of_lt hn))
    have hlines : itemLines (s :: ss) ++ ']' :: r = ' ' :: ' ' :: ' ' :: ' ' ::
        (Quoted.write s.toList ++ ',' :: '\n' :: (itemLines ss ++ ']' :: r)) := by
      unfold itemLines
      simp
    have hread := value_text s depth (stops_comma ('\n' :: (itemLines ss ++ ']' :: r)))
    obtain ⟨c, t, hc, heq, hvoid⟩ := skipVoid_write s.toList
      (',' :: '\n' :: (itemLines ss ++ ']' :: r))
    rw [heq] at hlines hread
    have hblank : skipVoid false ('\n' :: ' ' :: ' ' :: ' ' :: ' ' :: c :: t) = c :: t := hvoid
    rw [hlines, items_comma hblank hc hread, ih (Nat.lt_of_succ_lt_succ hn)]
    rfl

/-- A list of texts is read back. -/
theorem value_texts (ss : List String) (depth : Nat) (r : List Char) :
    value (depth + 1) ((Entry.texts ss).write ++ r) = some ((Entry.texts ss).toValue, r) := by
  match ss with
  | [] => rfl
  | [s] =>
    have hread := value_text s depth (stops_bracket r)
    obtain ⟨c, t, hc, heq, hvoid⟩ := skipVoid_write s.toList (']' :: r)
    rw [heq] at hread
    have hwrite : (Entry.texts [s]).write ++ r = '[' :: c :: t := by
      rw [← heq]
      simp [Entry.write]
    rw [hwrite, value, items_last hvoid hc hread]
    rfl
  | s :: s' :: ss =>
    have hwrite : (Entry.texts (s :: s' :: ss)).write ++ r =
        '[' :: '\n' :: (itemLines (s :: s' :: ss) ++ ']' :: r) := by
      show '[' :: '\n' :: itemLines (s :: s' :: ss) ++ [']'] ++ r = _
      simp
    have hfew := length_le_length_itemLines (s :: s' :: ss)
    rw [hwrite, value, items_itemLines]
    · rfl
    · simp only [List.length_cons, List.length_append] at hfew ⊢
      omega

/-! ## Every value -/

/-- A value is read back up to the end of its line. -/
theorem value_write {e : Entry} (h : e.isWritable = true) (r : List Char) :
    value depthLimit (e.write ++ '\n' :: r) = some (e.toValue, '\n' :: r) := by
  cases e with
  | text s => exact value_text s depthLimit (stops_newline r)
  | integer n => exact value_word (isWord_integer h) depthLimit r
  | real x => exact value_word (isWord_real x) depthLimit r
  | flag b => exact value_word (isWord_flag b) depthLimit r
  | texts ss => exact value_texts ss 78 ('\n' :: r)

/-- No blank stands in front of a value. -/
theorem skipSpace_write {e : Entry} (h : e.isWritable = true) (r : List Char) :
    skipSpace (' ' :: (e.write ++ r)) = e.write ++ r := by
  have hfirst : ∃ c t, e.write = c :: t ∧ isSpace c = false := by
    have hword : IsWord e → ∃ c t, e.write = c :: t ∧ isSpace c = false := by
      intro hword
      obtain ⟨c, t, heq, hc⟩ := hword.exists_cons
      have hblank := Text.ne_of_test (d := ' ') hc (by decide)
      have htab := Text.ne_of_test (d := '\t') hc (by decide)
      exact ⟨c, t, heq, by simp [isSpace, hblank, htab]⟩
    cases e with
    | text s =>
      obtain ⟨c, t, hc, heq⟩ := exists_write_eq s.toList
      refine ⟨c, t, heq, ?_⟩
      obtain rfl | rfl := hc <;> rfl
    | integer n => exact hword (isWord_integer h)
    | real x => exact hword (isWord_real x)
    | flag b => exact hword (isWord_flag b)
    | texts ss =>
      match ss with
      | [] => exact ⟨'[', _, rfl, rfl⟩
      | [s] => exact ⟨'[', _, rfl, rfl⟩
      | s :: s' :: ss => exact ⟨'[', _, rfl, rfl⟩
  obtain ⟨c, t, heq, hc⟩ := hfirst
  have hblank : isSpace ' ' = true := rfl
  rw [heq, List.cons_append, skipSpace, List.dropWhile_cons_of_pos hblank,
    List.dropWhile_cons_of_neg (Bool.not_eq_true _ ▸ hc)]

/-! ## Keys -/

/-- A key that needs no quotes. -/
def IsBare (key : String) : Prop := key ≠ "" ∧ key.toList.all isBareChar = true

instance (key : String) : Decidable (IsBare key) := inferInstanceAs (Decidable (_ ∧ _))

theorem IsBare.exists_cons {key : String} (h : IsBare key) :
    ∃ c t, key.toList = c :: t ∧ isBareChar c = true := by
  cases heq : key.toList with
  | nil => exact absurd (String.toList_inj.1 (heq.trans String.toList_empty.symm)) h.1
  | cons c t =>
    have hall := h.2
    rw [heq, List.all_cons, Bool.and_eq_true] at hall
    exact ⟨c, t, rfl, hall.1⟩

theorem skipSpace_bare {key : String} (h : IsBare key) (r : List Char) :
    skipSpace (key.toList ++ r) = key.toList ++ r := by
  obtain ⟨c, t, heq, hc⟩ := h.exists_cons
  have hblank := Text.ne_of_test (d := ' ') hc (by decide)
  have htab := Text.ne_of_test (d := '\t') hc (by decide)
  have hspace : isSpace c = false := by simp [isSpace, hblank, htab]
  rw [heq, List.cons_append, skipSpace, List.dropWhile_cons_of_neg (Bool.not_eq_true _ ▸ hspace)]

/-- A key is read up to what cannot belong to it. -/
theorem path_bare {key : String} (h : IsBare key) {d c : Char} {r t : List Char}
    (hd : isBareChar d = false) (hskip : skipSpace (d :: r) = c :: t) (hc : c ≠ '.') :
    path (key.toList ++ d :: r) = some ([key], c :: t) := by
  have hsingle : Quoted.single (key.toList ++ d :: r) = none := by
    obtain ⟨b, more, heq, hb⟩ := h.exists_cons
    rw [heq, List.cons_append, Quoted.single]
    · exact fun t he => Text.ne_of_test hb (by decide) (List.cons.inj he).1
    · exact fun t he => Text.ne_of_test hb (by decide) (List.cons.inj he).1
  have hbare : ∀ b ∈ key.toList, isBareChar b = true := List.all_eq_true.1 h.2
  have htake : (key.toList ++ d :: r).takeWhile isBareChar = key.toList := by
    rw [List.takeWhile_append_of_pos hbare, List.takeWhile_cons_of_neg (Bool.not_eq_true _ ▸ hd),
      List.append_nil]
  have hdrop : (key.toList ++ d :: r).dropWhile isBareChar = d :: r := by
    rw [List.dropWhile_append_of_pos hbare, List.dropWhile_cons_of_neg (Bool.not_eq_true _ ▸ hd)]
  have hpart : keyPart (key.toList ++ d :: r) = some (key, d :: r) := by
    obtain ⟨b, more, heq, -⟩ := h.exists_cons
    unfold keyPart
    rw [hsingle]
    dsimp only
    rw [htake, hdrop, String.ofList_toList, heq]
    rfl
  rw [path, depthLimit, Statement.key, skipSpace_bare h, hpart]
  simp only [Option.bind_eq_bind, Option.bind_some, hskip]
  split
  · rename_i heq
    exact absurd (List.cons.inj heq).1 hc
  · rfl

/-! ## Lines -/

/-- A header is read up to the end of its line. -/
theorem read_header {name : String} (h : IsBare name) (r : List Char) :
    read ('[' :: (name.toList ++ ']' :: '\n' :: r)) = some (.table [name], r) := by
  have hpath := path_bare h (d := ']') (r := '\n' :: r) (by decide) rfl (by decide)
  obtain ⟨c, t, heq, hc⟩ := h.exists_cons
  rw [heq, List.cons_append] at hpath ⊢
  rw [read]
  · rw [hpath]
    rfl
  · exact fun t he => Text.ne_of_test hc (by decide) (List.cons.inj he).1

/-- A key with its value is read up to the end of its line. -/
theorem read_pair {key : String} (hkey : IsBare key) {e : Entry} (he : e.isWritable = true)
    (r : List Char) :
    read (key.toList ++ ' ' :: '=' :: ' ' :: (e.write ++ '\n' :: r)) =
      some (.pair [key] e.toValue, r) := by
  have hpath := path_bare hkey (d := ' ') (r := '=' :: ' ' :: (e.write ++ '\n' :: r)) (by decide)
    rfl (by decide)
  have hvalue := value_write he r
  have hskip := skipSpace_write he ('\n' :: r)
  obtain ⟨c, t, heq, hc⟩ := hkey.exists_cons
  rw [heq, List.cons_append] at hpath ⊢
  rw [read]
  · rw [hpath]
    simp only [Option.bind_eq_bind, Option.bind_some, hskip, hvalue, lineEnd_newline]
    rfl
  · exact fun t he => Text.ne_of_test hc (by decide) (List.cons.inj he).1
  · exact fun t he => Text.ne_of_test hc (by decide) (List.cons.inj he).1

/-! ## Texts -/

/-- A text is read as statements, whenever the fuel is enough for its length. -/
def Reads (cs : List Char) (ss : List Statement) : Prop :=
  ∀ n, cs.length < n → readAll n cs = some ss

theorem reads_nil : Reads [] [] := by
  intro n hn
  obtain ⟨n, rfl⟩ := Nat.exists_eq_succ_of_ne_zero (Nat.ne_of_gt hn)
  rfl

/-- An empty line holds no statement. -/
theorem Reads.newline {cs : List Char} {ss : List Statement} (h : Reads cs ss) :
    Reads ('\n' :: cs) ss := by
  intro n hn
  obtain ⟨n, rfl⟩ := Nat.exists_eq_succ_of_ne_zero (Nat.ne_of_gt (Nat.zero_lt_of_lt hn))
  exact h n (Nat.lt_of_succ_lt_succ hn)

/-- A statement is read in front of others. -/
theorem Reads.cons {c : Char} {cs r : List Char} {s : Statement} {ss : List Statement}
    (hc : c = '[' ∨ isBareChar c = true) (hread : read (c :: cs) = some (s, r))
    (hlength : r.length ≤ cs.length) (h : Reads r ss) : Reads (c :: cs) (s :: ss) := by
  have hother : ∀ d, isBareChar d = false → d ≠ '[' → c ≠ d := by
    intro d hd hne
    obtain rfl | hc := hc
    · exact hne.symm
    · exact Text.ne_of_test hc hd
  intro n hn
  obtain ⟨n, rfl⟩ := Nat.exists_eq_succ_of_ne_zero (Nat.ne_of_gt (Nat.zero_lt_of_lt hn))
  have hskip : skipSpace (c :: cs) = c :: cs := by
    have hblank := hother ' ' (by decide) (by decide)
    have htab := hother '\t' (by decide) (by decide)
    have hspace : isSpace c = false := by simp [isSpace, hblank, htab]
    rw [skipSpace, List.dropWhile_cons_of_neg (Bool.not_eq_true _ ▸ hspace)]
  have hrest : readAll n r = some ss := h n (by
    rw [List.length_cons] at hn
    omega)
  rw [readAll]
  dsimp only
  rw [hskip]
  split
  · rename_i heq
    exact absurd heq (List.cons_ne_nil c cs)
  · rename_i heq
    exact absurd (List.cons.inj heq).1 (hother _ (by decide) (by decide))
  · rename_i heq
    exact absurd (List.cons.inj heq).1 (hother _ (by decide) (by decide))
  · rename_i heq
    exact absurd (List.cons.inj heq).1 (hother _ (by decide) (by decide))
  · rw [hread]
    simp only [Option.bind_eq_bind, Option.bind_some, hrest]
    rfl

end Statement

end VpnNode.Toml
