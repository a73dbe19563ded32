import VpnNode.Ledger.Text
import VpnNode.Proofs.Ledger.WellFormed

/-!
# A ledger survives being closed

A session is stored as a text that says all of it, so that different sessions have different
texts. Hence a ledger that is laid down on disk and opened again holds the same rows and the
same index, and it does not matter where in its history it has been closed.

Main statements:

* `Session.encode_inj`: a stored text belongs to one session.
* `reopened_eq`: a ledger that is opened again is the one that was closed.
* `Image.parse?_render`, `parse?_render`: so is one that is read from its text.
* `lived_eq`: to close and open a ledger between operations changes nothing.
* `rows_persist`: sessions, ledgers and histories together.
-/

namespace VpnNode

/-- The times of a session have years of four digits, and no leap second but at the end of a
    minute. -/
def Session.IsPlain (s : Session) : Prop := s.createdAt.IsPlain ∧ s.updatedAt.IsPlain

theorem Session.decode?_encode_of_isPlain {s : Session} (h : s.IsPlain) :
    decode? s.encode = some s := decode?_encode h.1 h.2

/-- A stored text belongs to one session. -/
theorem Session.encode_inj {s t : Session} (hs : s.IsPlain) (ht : t.IsPlain) :
    s.encode = t.encode ↔ s = t := by
  refine ⟨fun h => ?_, fun h => by rw [h]⟩
  have hread := decode?_encode_of_isPlain hs
  rw [h, decode?_encode_of_isPlain ht] at hread
  exact (Option.some.inj hread).symm

namespace Ledger

variable {l : Ledger}

/-! ## Laying down and opening -/

/-- The ledger that is found where a ledger has been laid down. -/
def reopened (l : Ledger) : Ledger := empty.withImage l.image

/-- What is written under every key of a map, in order, is that map. -/
theorem foldl_insert_toList {κ β : Type} [Ord κ] [Std.TransOrd κ] [Std.LawfulEqOrd κ] [BEq κ]
    [LawfulBEq κ] (m : Std.ExtTreeMap κ β) :
    m.toList.foldl (fun acc p => acc.insert p.1 p.2) (∅ : Std.ExtTreeMap κ β) = m := by
  rw [← Std.ExtTreeMap.ofList_eq_foldl]
  apply Std.ExtTreeMap.ext_getElem?
  intro k
  cases hk : m[k]? with
  | some v =>
    exact Std.ExtTreeMap.getElem?_ofList_of_mem Std.ReflCmp.compare_self
      Std.ExtTreeMap.distinct_keys_toList (Std.ExtTreeMap.mem_toList_iff_getElem?_eq_some.2 hk)
  | none =>
    refine Std.ExtTreeMap.getElem?_ofList_of_contains_eq_false ?_
    rw [Std.ExtTreeMap.map_fst_toList_eq_keys, ← Bool.not_eq_true, List.contains_iff_mem,
      Std.ExtTreeMap.mem_keys, ← Std.ExtTreeMap.isSome_getElem?_iff_mem, hk]
    exact Bool.false_ne_true

theorem ofText_text_of_mem (h : l.Every Session.IsPlain) {p : UInt64 × Entry}
    (hp : p ∈ l.rows.toList) : Entry.ofText p.2.text = p.2 := by
  obtain ⟨id, e⟩ := p
  cases e with
  | unreadable => exact ofText_text
  | row s =>
    have hs : l.Holds id s := Std.ExtTreeMap.mem_toList_iff_getElem?_eq_some.1 hp
    show Entry.ofText s.encode = .row s
    unfold Entry.ofText
    rw [Session.decode?_encode_of_isPlain (h id s hs)]

/-- A ledger that is opened again is the one that was closed. -/
theorem reopened_eq (h : l.Every Session.IsPlain) : l.reopened = l := by
  have hrows : l.rows.toList.foldl (fun rows p => rows.insert p.1 (Entry.ofText p.2.text)) ∅ =
      l.rows := by
    rw [List.foldl_ext _ (fun rows p => rows.insert p.1 p.2) _ fun rows p hp => by
      rw [ofText_text_of_mem h hp]]
    exact foldl_insert_toList l.rows
  have hkeys : l.keys.toList.foldl
      (fun keys p => keys.insert p.1 (idOfOctets (octetsOfId p.2))) ∅ = l.keys := by
    simp only [idOfOctets_octetsOfId]
    exact foldl_insert_toList l.keys
  unfold reopened withImage image
  dsimp only
  rw [List.foldl_map, List.foldl_map]
  exact congrArg₂ Ledger.mk hrows hkeys

/-! ## Texts -/

namespace Image

open Json

theorem read_rowRecord (p : UInt64 × String) :
    rowRecord.read (Source.ofJson (.object [("id", .ofNat p.1.toNat), ("json", .string p.2)])) =
      .ok p :=
  ((Record.Reads.pure Prod.mk).required "id" (by simp) (Session.uint64_toNat p.1)
    |>.required "json" (by simp) (show Reader.text (.string (some p.2)) = .ok p.2 from rfl)).read

theorem parse?_hex (octets : List UInt8) : Hex.parse? (Hex.render octets) = some octets := by
  rw [Hex.parse?, Hex.render, String.toList_ofList, Hex.ofChars?_chars]

theorem read_keyRecord (p : String × List UInt8) :
    keyRecord.read (Source.ofJson (.object [("key", .string p.1),
      ("hex", .string (Hex.render p.2))])) = .ok p :=
  ((Record.Reads.pure Prod.mk).required "key" (by simp)
      (show Reader.text (.string (some p.1)) = .ok p.1 from rfl)
    |>.required "hex" (by simp) (Session.spelled_eq (parse?_hex p.2))).read

theorem isWhole_toJson (i : Image) : Source.IsWhole i.toJson := by
  have hrow : ∀ p : UInt64 × String,
      Source.IsWhole (.object [("id", .ofNat p.1.toNat), ("json", .string p.2)]) :=
    fun p => ⟨Session.isWhole_uint64 p.1, trivial, trivial⟩
  have hkey : ∀ p : String × List UInt8,
      Source.IsWhole (.object [("key", .string p.1), ("hex", .string (Hex.render p.2))]) :=
    fun _ => ⟨trivial, trivial, trivial⟩
  exact ⟨areWhole_map hrow i.rows, areWhole_map hkey i.keys, trivial⟩

/-- An image is read back from its text. -/
theorem parse?_render (i : Image) : parse? i.render = some i := by
  have hread : record.read (Source.ofJson i.toJson) = .ok i :=
    ((Record.Reads.pure Image.mk).required "sessions" (by simp) (list_eq read_rowRecord i.rows)
      |>.required "peer_keys" (by simp) (list_eq read_keyRecord i.keys)).read
  unfold parse? render Reader.ofText?
  rw [Source.ofText?_render i.isWhole_toJson, Option.bind_some, hread]
  rfl

end Image

/-- A ledger is read back from its text. -/
theorem parse?_render (h : l.Every Session.IsPlain) : parse? l.render = some l := by
  unfold parse? render
  rw [Image.parse?_render, Option.map_some]
  exact congrArg some (reopened_eq h)

/-! ## Histories -/

/-- What befalls a ledger. -/
inductive Event where
  | operation (op : Operation)
  /-- It is closed and opened again. -/
  | reopening

/-- The operation that an event is, if it is one. -/
def Event.operation? : Event → Option Operation
  | .operation op => some op
  | .reopening => none

/-- What an event leaves of a ledger. -/
def live (l : Ledger) : Event → Ledger
  | .operation op => l.perform op
  | .reopening => l.reopened

/-- The induction is on the events: operations keep the times of the rows plain, so that each
    reopening finds a ledger that it gives back. -/
theorem foldl_live_eq (hwell : l.WellFormed) (hplain : l.Every Session.IsPlain)
    {events : List Event}
    (h : ∀ op ∈ events.filterMap Event.operation?, op.Timed Time.IsPlain) :
    events.foldl live l = (events.filterMap Event.operation?).foldl perform l := by
  induction events generalizing l with
  | nil => rfl
  | cons event events ih =>
    cases event with
    | operation op =>
      obtain ⟨hop, hops⟩ := List.forall_mem_cons.1 h
      exact ih (hwell.perform op) (hwell.every_perform hplain hop.gives) hops
    | reopening =>
      rw [List.foldl_cons, live, reopened_eq hplain]
      exact ih hwell hplain h

/-- To close and open a ledger between operations changes nothing. -/
theorem lived_eq {events : List Event}
    (h : ∀ op ∈ events.filterMap Event.operation?, op.Timed Time.IsPlain) :
    events.foldl live empty = after (events.filterMap Event.operation?) :=
  foldl_live_eq .empty .empty h

/-- A session is read back from its stored text, which belongs to it alone, whatever its texts
    and numbers are, if its times have years of four digits and no leap second but at the end of
    a minute. So a ledger of such sessions is the same when it is opened again, or read from its
    own text; and a history of operations leaves the same ledger, wherever it is interrupted by
    closing and opening it. -/
theorem rows_persist :
    (∀ s : Session, s.IsPlain → Session.decode? s.encode = some s) ∧
    (∀ s t : Session, s.IsPlain → t.IsPlain → (s.encode = t.encode ↔ s = t)) ∧
    (∀ l : Ledger, l.Every Session.IsPlain → l.reopened = l ∧ parse? l.render = some l) ∧
    ∀ events : List Event,
      (∀ op ∈ events.filterMap Event.operation?, op.Timed Time.IsPlain) →
      events.foldl live empty = after (events.filterMap Event.operation?) :=
  ⟨fun _ => Session.decode?_encode_of_isPlain, fun _ _ => Session.encode_inj,
    fun _ h => ⟨reopened_eq h, parse?_render h⟩, fun _ => lived_eq⟩

/-- A session whose texts need escapes, with the largest and the smallest numbers, and with times
    in the first and the last of the plain years. -/
def extreme : Session where
  id := UInt64.ofNat 18446744073709551615
  accountAddress := "a \"quoted\" \\ \x07 \x7bname\x7d"
  nodeAddress := "é\r\n\t\u2028"
  downloadBytes := ""
  uploadBytes := "123456789012345678901234567890"
  maxBytes := "-1"
  duration := Int64.minValue
  maxDuration := Int64.maxValue
  signature := "\x00"
  peerKey := "\u65e5\u672c"
  service := .v2ray
  createdAt := ⟨⟨0, 1, 1, by decide⟩, ⟨7, by decide⟩, ⟨120000, by decide⟩⟩
  updatedAt := ⟨⟨9999, 12, 31, by decide⟩, ⟨86399, by decide⟩, ⟨999999999, by decide⟩⟩

theorem rows_persist_extreme : Session.decode? extreme.encode = some extreme ∧
    ∃ l : Ledger, l.Holds extreme.id extreme ∧ parse? l.render = some l := by
  have hplain : extreme.IsPlain :=
    ⟨⟨⟨by decide, by decide⟩, by decide⟩, ⟨by decide, by decide⟩, by decide⟩
  let l : Ledger := { empty with rows := empty.rows.insert extreme.id (.row extreme) }
  have hevery : l.Every Session.IsPlain := Every.empty.rewrite hplain
  exact ⟨rows_persist.1 extreme hplain, l, Std.ExtTreeMap.getElem?_insert_self,
    (rows_persist.2.2.1 l hevery).2⟩

end Ledger

end VpnNode
