import VpnNode.Peer.Adapter
import VpnNode.Retry

/-!
# What tasks owe

A task is never alone, so what it promises cannot be said of its runs. It is said of its
program, request by request: what the task may ask next follows from what it has asked
before and from the answers, whatever other tasks have done in between.

* An admission that has connected a peer owes that peer a row. The debt is settled when
  the row is stored, or when the peer is found to be absent or is disconnected.
* An alignment deletes the row of a session that it has read, and only after it has found
  the peer of that session absent or has disconnected it.
* Other passes connect no peer and delete no row.

Main statements:

* `Obeys.bind`: a composed program keeps its duty if its parts do, one after the other.
* `Asks.obeys`: a program whose requests keep an invariant of the duty keeps it as well.
-/

namespace VpnNode.Interleaving

/-- What kind of task it is. -/
inductive Role where
  | admission
  | alignment
  | pass
  deriving DecidableEq

/-- What a task has to remember of its past. -/
structure Duty where
  /-- The key of the peer that the task has connected and that it owes a row. -/
  owes : Option String := none
  /-- The sessions that the task has read, without those whose rows it has deleted. -/
  known : List Session := []
  /-- The peer that the task has seen absent last. -/
  gone : Option Peer.Identity := none

namespace Duty

/-- A peer is found to be absent, or is disconnected. -/
def absent (d : Duty) (i : Peer.Identity) : Duty :=
  { d with owes := if d.owes = some i.key then none else d.owes, gone := some i }

/-- The duty after an answer. -/
def next (d : Duty) : (r : Request) → r.Answer → Duty
  | .addPeer i, .ok _ => { d with owes := some i.key }
  | .hasPeer i, .ok false => d.absent i
  | .removePeer i, _ => d.absent i
  | .insertRow s, .ok () => { d with owes := if d.owes = some s.peerKey then none else d.owes }
  | .findRows f, .ok rows => if f = .all then { d with known := rows, gone := none } else d
  | .deleteRow f, _ => { d with known := d.known.filter fun s => f ≠ .byId s.id }
  | _, _ => d

theorem next_findRows_all (d : Duty) (rows : List Session) :
    d.next (.findRows .all) (.ok rows) = { d with known := rows, gone := none } := by
  show (if Ledger.Filter.all = .all then { d with known := rows, gone := none } else d) = _
  exact if_pos rfl

/-- A session is known until the row under its id is deleted. -/
theorem mem_known_deleteRow {d : Duty} {id : UInt64} {s : Session}
    {a : (Request.deleteRow (.byId id)).Answer} :
    s ∈ (d.next (.deleteRow (.byId id)) a).known ↔ s ∈ d.known ∧ s.id ≠ id := by
  have hinj : Ledger.Filter.byId id = .byId s.id ↔ s.id = id := by
    simp [Ledger.Filter.byId, eq_comm]
  show s ∈ d.known.filter (fun s => Ledger.Filter.byId id ≠ .byId s.id) ↔ _
  rw [List.mem_filter, decide_eq_true_eq, ne_eq, hinj]

theorem owes_absent_of_ne {d : Duty} {i : Peer.Identity} {key : String} (h : d.owes = some key)
    (hne : key ≠ i.key) : (d.absent i).owes = some key := by
  show (if d.owes = some i.key then none else d.owes) = some key
  rw [h, if_neg fun he => hne (Option.some.inj he)]

theorem owes_absent_of_eq_none {d : Duty} {i : Peer.Identity} (h : d.owes = none) :
    (d.absent i).owes = none := by
  show (if d.owes = some i.key then none else d.owes) = none
  rw [h]
  rfl

/-- Only who connects a peer incurs a debt. -/
theorem owes_next {r : Request} (hr : ∀ i, r ≠ .addPeer i) {d : Duty} (hd : d.owes = none)
    (a : r.Answer) : (d.next r a).owes = none := by
  cases r with
  | addPeer i => exact absurd rfl (hr i)
  | hasPeer i =>
    obtain e | (_ | _) := a
    · exact hd
    · exact owes_absent_of_eq_none hd
    · exact hd
  | removePeer i => exact owes_absent_of_eq_none hd
  | insertRow s =>
    obtain e | ⟨⟩ := a
    · exact hd
    · show (if d.owes = some s.peerKey then none else d.owes) = none
      rw [hd]
      rfl
  | findRows f =>
    obtain e | rows := a
    · exact hd
    · show (if f = .all then { d with known := rows, gone := none } else d).owes = none
      split <;> exact hd
  | _ => exact hd

end Duty

/-! ## Keeping the duty -/

variable {service : Service} {role : Role}

/-- What a task may ask: it connects a peer under its canonical key and only if it owes
    none, and deletes the row of a session that it knows once the peer is gone. -/
def Allowed (service : Service) (role : Role) (d : Duty) : Request → Prop
  | .addPeer i =>
    role = .admission ∧ d.owes = none ∧ Peer.Identity.ofKey service i.key = .ok i
  | .hasPeer i | .removePeer i => i.service = service
  | .deleteRow f => role = .alignment ∧ ∃ s ∈ d.known, f = .byId s.id ∧
      ∃ i, d.gone = some i ∧ Peer.Identity.ofKey service s.peerKey = .ok i
  | _ => True

/-- The answers that a task has to be ready for: a backend in memory knows whether it has
    a peer, and no two rows have one id. -/
def Possible : (r : Request) → r.Answer → Prop
  | .hasPeer _, a => ∃ b, a = .ok b
  | .findRows f, .ok rows => f = .all → (rows.map (·.id)).Nodup
  | _, _ => True

/-- From a duty on, the program asks what it may whatever it is answered, ends with a value
    and a duty as `Q` says, and breaks down only if it owes nothing. -/
def Obeys (service : Service) (role : Role) :
    Program α → Duty → (α → Duty → Prop) → Prop
  | .done a, d, Q => Q a d
  | .abort _, d, _ => d.owes = none
  | .ask r next, d, Q =>
    Allowed service role d r ∧ ∀ a, Possible r a → Obeys service role (next a) (d.next r a) Q

namespace Obeys

/-- A composed program keeps its duty if its parts do, one after the other. -/
theorem bind {p : Program α} {f : α → Program β} {d : Duty} {P : α → Duty → Prop}
    {Q : β → Duty → Prop} (hp : Obeys service role p d P)
    (hf : ∀ a d, P a d → Obeys service role (f a) d Q) : Obeys service role (p.bind f) d Q := by
  induction p generalizing d with
  | done a => exact hf a d hp
  | abort message => exact hp
  | ask r next ih => exact ⟨hp.1, fun a ha => ih a (hp.2 a ha)⟩

end Obeys

/-! ## Programs that ask little -/

/-- Every request that the program can come to has a property. -/
def Asks (P : Request → Prop) : Program α → Prop
  | .done _ => True
  | .abort _ => True
  | .ask r next => P r ∧ ∀ a, Asks P (next a)

namespace Asks

variable {P P' : Request → Prop}

theorem mono {p : Program α} (h : Asks P p) (hp : ∀ r, P r → P' r) : Asks P' p := by
  induction p with
  | done a => trivial
  | abort message => trivial
  | ask r next ih => exact ⟨hp r h.1, fun a => ih a (h.2 a)⟩

theorem request {r : Request} (h : P r) : Asks P (Program.request r) := ⟨h, fun _ => trivial⟩

theorem bind {p : Program α} {f : α → Program β} (hp : Asks P p) (hf : ∀ a, Asks P (f a)) :
    Asks P (p.bind f) := by
  induction p with
  | done a => exact hf a
  | abort message => trivial
  | ask r next ih => exact ⟨hp.1, fun a => ih a (hp.2 a)⟩

theorem ite {c : Prop} [Decidable c] {p q : Program α} (hp : Asks P p) (hq : Asks P q) :
    Asks P (if c then p else q) := by
  split
  · exact hp
  · exact hq

/-- Attempts that are repeated ask what one attempt asks, and the pause. -/
theorem retryMore {pause : Program Unit} {attempt : Program (Except ε α)} (hp : Asks P pause)
    (ha : Asks P attempt) (more : Nat) : Asks P (VpnNode.retryMore pause attempt more) := by
  induction more with
  | zero => exact ha
  | succ more ih =>
    refine Asks.bind ha fun x => ?_
    cases x with
    | ok a => trivial
    | error e => exact Asks.bind hp fun _ => ih

theorem retry {sleep : UInt64 → Program Unit} {p : RetryPolicy} {attempt : Program (Except ε α)}
    (hsleep : ∀ ms, Asks P (sleep ms)) (ha : Asks P attempt) :
    Asks P (VpnNode.retry sleep p attempt) := by
  rw [retry_eq_retryMore]
  exact retryMore (hsleep p.delay) ha _

/-- A program whose requests keep an invariant of the duty keeps it as well. -/
theorem obeys {I : Duty → Prop} (hstep : ∀ r d, P r → I d → Allowed service role d r ∧
    ∀ a, I (d.next r a)) (howes : ∀ d, I d → d.owes = none) {p : Program α} (h : Asks P p)
    {d : Duty} (hd : I d) : Obeys service role p d fun _ d => I d := by
  induction p generalizing d with
  | done a => exact hd
  | abort message => exact howes d hd
  | ask r next ih =>
    obtain ⟨hallowed, hnext⟩ := hstep r d h.1 hd
    exact ⟨hallowed, fun a _ => ih a (h.2 a) (hnext a)⟩

end Asks

end VpnNode.Interleaving
