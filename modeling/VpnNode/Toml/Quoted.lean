import VpnNode.Text.Hex

/-!
# TOML strings

A basic string stands in double quotes and has escapes, a literal one stands in single
quotes and has none; in three quotes of its kind either goes over several lines. After
three opening quotes a line break is dropped. A backslash at the end of a line drops all
blanks and line breaks that follow.

A string is written in the first form that fits: basic without escapes, literal, basic
over several lines without escapes, literal over several lines, and else with escapes.

Main statements:

* `basic_escape`: what is written with escapes on one line is read back.
* `literal_append`: what is written between single quotes is read back.
-/

namespace VpnNode.Toml.Quoted

/-- May a character stand for itself? Control characters may not, except the tab. -/
def isPlain (c : Char) : Bool := c == '\t' || (32 ≤ c.toNat && c.toNat != 127)

/-- A space or a tab. -/
def isSpace (c : Char) : Bool := c == ' ' || c == '\t'

/-! ## Reading -/

/-- The character of an escape with one letter. -/
def escape? : Char → Option Char
  | 'b' => some '\x08'
  | 't' => some '\t'
  | 'n' => some '\n'
  | 'f' => some '\x0c'
  | 'r' => some '\r'
  | '"' => some '"'
  | '\\' => some '\\'
  | _ => none

/-- The character whose code is spelled by hexadecimal digits. -/
def codePoint? (digits : List Char) : Option Char := do
  let n ← digits.foldlM (fun n c => (Hex.digit? c).map (16 * n + ·)) 0
  if n.isValidChar then some (Char.ofNat n) else none

/-- Puts a character in front of what is read after it. -/
def prepend (c : Option Char) (after : Option (List Char × List Char)) :
    Option (List Char × List Char) := do
  let c ← c
  let (cs, rest) ← after
  return (c :: cs, rest)

/-- Reads a basic string after its opening quote: the text, and what follows. -/
def basic : List Char → Option (List Char × List Char)
  | [] => none
  | '"' :: r => some ([], r)
  | '\\' :: 'u' :: a :: b :: c :: d :: r => prepend (codePoint? [a, b, c, d]) (basic r)
  | '\\' :: 'U' :: a :: b :: c :: d :: e :: f :: g :: h :: r =>
    prepend (codePoint? [a, b, c, d, e, f, g, h]) (basic r)
  | '\\' :: c :: r => prepend (escape? c) (basic r)
  | c :: r => if isPlain c then prepend (some c) (basic r) else none

/-- Reads a literal string after its opening quote. -/
def literal : List Char → Option (List Char × List Char)
  | [] => none
  | '\'' :: r => some ([], r)
  | c :: r => if isPlain c then prepend (some c) (literal r) else none

/-- Does a line break come next? -/
def atBreak : List Char → Bool
  | '\n' :: _ => true
  | '\r' :: '\n' :: _ => true
  | _ => false

/-- Drops a line break. -/
def dropBreak : List Char → List Char
  | '\n' :: r => r
  | '\r' :: '\n' :: r => r
  | r => r

/-- Reads a basic string over several lines after its opening quotes; inside a gap, blanks
    and line breaks are dropped. Up to two quotes may stand before the closing ones. -/
def multiBasic (gap : Bool) : List Char → Option (List Char × List Char)
  | [] => none
  | '"' :: '"' :: '"' :: '"' :: '"' :: r => some (['"', '"'], r)
  | '"' :: '"' :: '"' :: '"' :: r => some (['"'], r)
  | '"' :: '"' :: '"' :: r => some ([], r)
  | '\\' :: r =>
    if atBreak (r.dropWhile isSpace) then multiBasic true r
    else
      match r with
      | 'u' :: a :: b :: c :: d :: r => prepend (codePoint? [a, b, c, d]) (multiBasic false r)
      | 'U' :: a :: b :: c :: d :: e :: f :: g :: h :: r =>
        prepend (codePoint? [a, b, c, d, e, f, g, h]) (multiBasic false r)
      | c :: r => prepend (escape? c) (multiBasic false r)
      | [] => none
  | c :: r =>
    if c = '\n' then if gap then multiBasic true r else prepend (some c) (multiBasic false r)
    else if c = '\r' then if atBreak r then multiBasic gap r else none
    else if gap && isSpace c then multiBasic true r
    else if isPlain c then prepend (some c) (multiBasic false r)
    else none

/-- Reads a literal string over several lines after its opening quotes. -/
def multiLiteral : List Char → Option (List Char × List Char)
  | [] => none
  | '\'' :: '\'' :: '\'' :: '\'' :: '\'' :: r => some (['\'', '\''], r)
  | '\'' :: '\'' :: '\'' :: '\'' :: r => some (['\''], r)
  | '\'' :: '\'' :: '\'' :: r => some ([], r)
  | c :: r =>
    if c = '\n' then prepend (some c) (multiLiteral r)
    else if c = '\r' then if atBreak r then multiLiteral r else none
    else if isPlain c then prepend (some c) (multiLiteral r)
    else none

/-- Reads a string on one line. -/
def single : List Char → Option (List Char × List Char)
  | '"' :: r => basic r
  | '\'' :: r => literal r
  | _ => none

/-- Reads a string of any form. -/
def read : List Char → Option (List Char × List Char)
  | '"' :: '"' :: '"' :: r => multiBasic false (dropBreak r)
  | '\'' :: '\'' :: '\'' :: r => multiLiteral (dropBreak r)
  | r => single r

/-! ## Writing -/

/-- Is a character a control character that has to be escaped? -/
def isControl (c : Char) : Bool := !isPlain c && c != '\n'

/-- Do `n` of a character come in a row? -/
def hasRun (q : Char) (n : Nat) : List Char → Bool
  | [] => n == 0
  | c :: r => (List.replicate n q).isPrefixOf (c :: r) || hasRun q n r

/-- The forms of a string. -/
inductive Form where
  | basic
  | literal
  | multiBasic
  | multiLiteral
  | escaped
  | multiEscaped
  deriving DecidableEq, Repr

/-- The first form that fits. -/
def Form.of (cs : List Char) : Form :=
  let several := cs.contains '\n'
  if cs.any isControl then if several then .multiEscaped else .escaped
  else if !several && !cs.contains '\\' && !cs.contains '"' then .basic
  else if !several && !cs.contains '\'' then .literal
  else if !cs.contains '\\' && !hasRun '"' 3 cs then .multiBasic
  else if !hasRun '\'' 3 cs then .multiLiteral
  else if several then .multiEscaped
  else .escaped

/-- A character as it stands between double quotes on one line. -/
def escapeChar (c : Char) : List Char :=
  match c with
  | '\x08' => ['\\', 'b']
  | '\t' => ['\\', 't']
  | '\n' => ['\\', 'n']
  | '\x0c' => ['\\', 'f']
  | '\r' => ['\\', 'r']
  | '"' => ['\\', '"']
  | '\\' => ['\\', '\\']
  | c =>
    if isPlain c then [c]
    else
      let n := c.toNat
      ['\\', 'u', '0', '0', (Hex.digit (n / 16)).toUpper, (Hex.digit (n % 16)).toUpper]

/-- A text as it stands between double quotes on one line. -/
def escape (cs : List Char) : List Char := cs.flatMap escapeChar

/-- A text as it stands between three double quotes: line breaks stay, and so do quotes,
    except every third in a row; `run` counts those that stand before. -/
def multiEscape (run : Nat) : List Char → List Char
  | [] => []
  | '\n' :: r => '\n' :: multiEscape 0 r
  | '"' :: r =>
    if run < 2 then '"' :: multiEscape (run + 1) r else '\\' :: '"' :: multiEscape 0 r
  | c :: r => escapeChar c ++ multiEscape 0 r

/-- A line break, if the text has one. -/
def opening (cs : List Char) : List Char := if cs.contains '\n' then ['\n'] else []

/-- A text in a form. -/
def writeAs (cs : List Char) : Form → List Char
  | .basic | .escaped => '"' :: escape cs ++ ['"']
  | .literal => '\'' :: cs ++ ['\'']
  | .multiBasic | .multiEscaped =>
    '"' :: '"' :: '"' :: opening cs ++ multiEscape 0 cs ++ ['"', '"', '"']
  | .multiLiteral => '\'' :: '\'' :: '\'' :: opening cs ++ cs ++ ['\'', '\'', '\'']

/-- A text in the first form that fits. -/
def write (cs : List Char) : List Char := writeAs cs (Form.of cs)

/-! ## Reading back -/

theorem codePoint?_control : ∀ n < 128,
    codePoint? ['0', '0', (Hex.digit (n / 16)).toUpper, (Hex.digit (n % 16)).toUpper] =
      some (Char.ofNat n) := by decide

theorem basic_escapeChar (c : Char) (r : List Char) :
    basic (escapeChar c ++ r) = prepend (some c) (basic r) := by
  unfold escapeChar
  split
  · rfl
  · rfl
  · rfl
  · rfl
  · rfl
  · rfl
  · rfl
  · rename_i x h1 h2 h3 h4 h5 h6 h7
    split
    · rename_i hp
      rw [List.singleton_append, basic]
      · simp [hp]
      · exact h6
      all_goals intros; subst_vars; exact absurd rfl h7
    · rename_i hp
      have hn : c.toNat < 128 := by simp [isPlain] at hp; omega
      have := codePoint?_control c.toNat hn
      simp only [List.cons_append, List.nil_append, basic, this, Char.ofNat_toNat]

/-- What is written with escapes on one line is read back. -/
theorem basic_escape (cs r : List Char) : basic (escape cs ++ '"' :: r) = some (cs, r) := by
  induction cs with
  | nil => rfl
  | cons c cs ih =>
    have h : escape (c :: cs) = escapeChar c ++ escape cs := rfl
    rw [h, List.append_assoc, basic_escapeChar, ih]; rfl

/-- What is written between single quotes is read back. -/
theorem literal_append (cs r : List Char) (hp : cs.all isPlain) (hq : '\'' ∉ cs) :
    literal (cs ++ '\'' :: r) = some (cs, r) := by
  induction cs with
  | nil => rfl
  | cons c cs ih =>
    simp only [List.all_cons, Bool.and_eq_true, List.mem_cons, not_or] at hp hq
    rw [List.cons_append, literal]
    · simp [hp.1, ih hp.2 hq.2, prepend]
    · exact fun h => hq.1 h.symm

end VpnNode.Toml.Quoted
