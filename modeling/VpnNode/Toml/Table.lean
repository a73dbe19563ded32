import VpnNode.Toml.Basic

/-!
# Building TOML tables

A text names its values one after the other. A header opens a table, and a key adds a
value to the table that is open; dotted names pass through other tables, which they make
where they are missing. No key is given twice, and a table is opened by one header only;
dotted keys enter no table that has a header of its own, and leave their value in a table
that dotted keys have made.

Main statement:

* `putKey_eq_some_iff`: exactly a new key is accepted, and its value comes last.
-/

namespace VpnNode.Toml.Members

/-- Changes the value under a key, or adds one. -/
def update (key : String) (f : Option Value → Option Value) : Members → Option Members
  | [] => (f none).map fun v => [(key, v)]
  | (k, v) :: ms =>
    if k = key then (f (some v)).map fun v => (k, v) :: ms
    else (update key f ms).map fun ms => (k, v) :: ms

/-- Changes the last element of a list. -/
def mapLast (f : α → Option α) : List α → Option (List α)
  | [] => none
  | [a] => (f a).map fun a => [a]
  | a :: as => (mapLast f as).map fun as => a :: as

/-- Adds a value under a new key. -/
def putKey (ms : Members) (key : String) (v : Value) : Option Members :=
  if (ms.lookup key).isSome then none else some (ms ++ [(key, v)])

/-- Adds a value at the end of a dotted key; `within` is how the table of these members
    has come about. -/
def putDotted (v : Value) : List String → Origin → Members → Option Members
  | [], _, _ => none
  | [key], within, ms => if within = .dotted then ms.putKey key v else none
  | key :: path, _, ms =>
    ms.update key fun
      | none => (putDotted v path .dotted []).map (.table .dotted)
      | some (.table .passing ms) => (putDotted v path .passing ms).map (.table .passing)
      | some (.table .dotted ms) => (putDotted v path .dotted ms).map (.table .dotted)
      | some (.tables ts) => (mapLast (putDotted v path .header) ts).map .tables
      | some _ => none

/-- Adds a value under a key, which may be dotted. -/
def put (v : Value) (path : List String) (ms : Members) : Option Members :=
  match path with
  | [key] => ms.putKey key v
  | path => putDotted v path .header ms

/-- Changes what a header names: passes through tables, and through the last one of
    several, to the last name. -/
def atHeader (f : Option Value → Option Value) : List String → Members → Option Members
  | [], _ => none
  | [key], ms => ms.update key f
  | key :: path, ms =>
    ms.update key fun
      | none => (atHeader f path []).map (.table .passing)
      | some (.table .inline _) => none
      | some (.table origin ms) => (atHeader f path ms).map (.table origin)
      | some (.tables ts) => (mapLast (atHeader f path) ts).map .tables
      | some _ => none

/-- Opens a table under its header: a new one, or one that longer headers have passed
    through. -/
def openTable : List String → Members → Option Members :=
  atHeader fun
    | none => some (.table .header [])
    | some (.table .passing ms) => some (.table .header ms)
    | some _ => none

/-- Opens one more of several tables under a header in double brackets. -/
def openElement : List String → Members → Option Members :=
  atHeader fun
    | none => some (.tables [[]])
    | some (.tables ts) => some (.tables (ts ++ [[]]))
    | some _ => none

/-- Changes the members of the table that was opened last under a header; the empty header
    stands for the whole text. -/
def atOpen (f : Members → Option Members) (path : List String) (ms : Members) : Option Members :=
  match path with
  | [] => f ms
  | path =>
    ms.atHeader (fun
      | some (.table origin ms) => (f ms).map (.table origin)
      | some (.tables ts) => (mapLast f ts).map .tables
      | _ => none) path

/-- Exactly a new key is accepted, and its value comes last. -/
theorem putKey_eq_some_iff {ms ns : Members} {key : String} {v : Value} :
    ms.putKey key v = some ns ↔ ms.lookup key = none ∧ ns = ms ++ [(key, v)] := by
  unfold putKey
  cases ms.lookup key <;> simp [eq_comm]

end VpnNode.Toml.Members
