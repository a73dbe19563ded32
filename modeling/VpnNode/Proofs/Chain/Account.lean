import VpnNode.Proofs.Chain.Broadcast
import VpnNode.Proofs.Interleaving.Basic

/-!
# One account, many broadcasts

Broadcasts of one account run beside each other. A request of a broadcast is sent at one
moment and answered at another, as late and with whatever answer the chain likes, and in
between the others go on. Only the right to submit is not given to two broadcasts at the
same time.

A broadcast goes through stages: it waits for the account, it submits, and it confirms.
The stages are read off its program, request by request, so they hold in every
interleaving.

Main statements:

* `move_cases`: what a move can do.
* `keeps_broadcast`: a broadcast goes through its stages, whatever it is answered.
-/

namespace VpnNode.Chain.Account

/-! ## Broadcasts in flight -/

/-- A broadcast, and what is left of its program. -/
structure Task where
  batch : List Message
  rest : Program (Except Error Inclusion)
  /-- Has the next request been sent? Then it is not answered yet. -/
  underway : Bool

/-- Has the broadcast returned? -/
def Task.returned (t : Task) : Bool :=
  match t.rest with
  | .ask _ _ => false
  | _ => true

/-- The two moments of a request. -/
inductive Phase where
  | sent
  | answered
  deriving DecidableEq

/-- A request of a broadcast is sent or answered. -/
structure Entry where
  /-- The broadcast, by its place. -/
  task : Nat
  request : Request
  phase : Phase

/-- Is this about an attempt to submit? -/
def Entry.isAttempt (e : Entry) : Bool :=
  match e.request with
  | .submit _ => true
  | _ => false

/-- The account of a client, with its broadcasts in the order in which they began. -/
structure Client where
  tasks : List Task := []
  /-- Does a broadcast hold the account? -/
  held : Bool := false
  /-- What has been sent and answered so far. -/
  log : List Entry := []

/-- What happens next. -/
inductive Move where
  | begin (batch : List Message)
  /-- A broadcast sends its next request. -/
  | send (k : Nat)
  /-- The request that a broadcast has sent is answered. -/
  | answer (k : Nat) (reply : (r : Request) → r.Answer)

/-- May a request be answered? The account is given only if it is free. -/
def mayAnswer (held : Bool) : Request → Bool
  | .lockAccount => !held
  | _ => true

namespace Client

def begin (p : Policies) (c : Client) (batch : List Message) : Client :=
  { c with tasks := c.tasks ++ [⟨batch, broadcast p batch, false⟩] }

def send (c : Client) (k : Nat) (batch : List Message) (r : Request)
    (next : r.Answer → Program (Except Error Inclusion)) : Client :=
  { c with tasks := c.tasks.set k ⟨batch, .ask r next, true⟩, log := c.log ++ [⟨k, r, .sent⟩] }

def answer (c : Client) (k : Nat) (batch : List Message) (r : Request)
    (rest : Program (Except Error Inclusion)) : Client where
  tasks := c.tasks.set k ⟨batch, rest, false⟩
  held := Interleaving.holding c.held r
  log := c.log ++ [⟨k, r, .answered⟩]

/-- A broadcast goes on by sending its next request, if it has one. -/
def sendNext (c : Client) (k : Nat) : Client :=
  match c.tasks[k]? with
  | some ⟨batch, .ask r next, false⟩ => c.send k batch r next
  | _ => c

/-- A broadcast goes on with the answer to the request that it has sent. -/
def answerNext (c : Client) (k : Nat) (reply : (r : Request) → r.Answer) : Client :=
  match c.tasks[k]? with
  | some ⟨batch, .ask r next, true⟩ =>
    if mayAnswer c.held r then c.answer k batch r (next (reply r)) else c
  | _ => c

def move (p : Policies) (c : Client) : Move → Client
  | .begin batch => c.begin p batch
  | .send k => c.sendNext k
  | .answer k reply => c.answerNext k reply

/-- The client after moves from the start. -/
def after (p : Policies) (moves : List Move) : Client := moves.foldl (move p) {}

/-- Is a request of a broadcast in flight? -/
def InFlight (c : Client) (k : Nat) (r : Request) : Prop :=
  ∃ t next, c.tasks[k]? = some t ∧ t.rest = .ask r next ∧ t.underway = true

/-- The attempts to submit, of all broadcasts. -/
def attempts (c : Client) : List Entry := c.log.filter Entry.isAttempt

/-- The messages of a broadcast, by its place. -/
def batch? (c : Client) (k : Nat) : Option (List Message) := c.tasks[k]?.map (·.batch)

variable {c : Client} {k j : Nat} {batch : List Message} {r : Request} {t : Task}
  {next : r.Answer → Program (Except Error Inclusion)}

theorem sendNext_eq (h : c.tasks[k]? = some ⟨batch, .ask r next, false⟩) :
    c.sendNext k = c.send k batch r next := by
  unfold sendNext
  rw [h]

theorem answerNext_eq (h : c.tasks[k]? = some ⟨batch, .ask r next, true⟩)
    (hmay : mayAnswer c.held r = true) (reply : (r : Request) → r.Answer) :
    c.answerNext k reply = c.answer k batch r (next (reply r)) := by
  unfold answerNext
  rw [h]
  exact if_pos hmay

/-- What a move can do: nothing, begin a broadcast, or send or answer a request of one. -/
theorem move_cases (p : Policies) (c : Client) (m : Move) :
    c.move p m = c ∨ (∃ batch, c.move p m = c.begin p batch) ∨
      (∃ k batch r next, c.tasks[k]? = some ⟨batch, .ask r next, false⟩ ∧
        c.move p m = c.send k batch r next) ∨
      ∃ k batch r next a, c.tasks[k]? = some ⟨batch, .ask r next, true⟩ ∧
        mayAnswer c.held r = true ∧ c.move p m = c.answer k batch r (next a) := by
  cases m with
  | begin batch => exact .inr (.inl ⟨batch, rfl⟩)
  | send k =>
    rw [show c.move p (.send k) = c.sendNext k from rfl]
    unfold sendNext
    split
    · rename_i batch r next ht
      exact .inr (.inr (.inl ⟨k, batch, r, next, ht, rfl⟩))
    · exact .inl rfl
  | answer k reply =>
    rw [show c.move p (.answer k reply) = c.answerNext k reply from rfl]
    unfold answerNext
    split
    · rename_i batch r next ht
      by_cases hmay : mayAnswer c.held r = true
      · exact .inr (.inr (.inr ⟨k, batch, r, next, reply r, ht, hmay, if_pos hmay⟩))
      · exact .inl (if_neg hmay)
    · exact .inl rfl

end Client

/-! ## Stages -/

/-- How far a broadcast is. -/
inductive Stage where
  /-- It has no right to submit yet. -/
  | waiting
  /-- It holds the account; has an attempt been answered? -/
  | submitting (tried : Bool)
  /-- It submits no more. -/
  | confirming
  deriving DecidableEq

namespace Stage

/-- The stage after a request, if a broadcast of a batch may come to that request. -/
def next (batch : List Message) : Stage → Request → Option Stage
  | .waiting, .lockAccount => some (.submitting false)
  | .submitting _, .submit b => if b = batch then some (.submitting true) else none
  | .submitting tried, .sleep _ => some (.submitting tried)
  | .submitting true, .unlockAccount => some .confirming
  | .confirming, .pollTransaction _ => some .confirming
  | .confirming, .sleep _ => some .confirming
  | _, _ => none

/-- The stage in which a broadcast begins; one without messages has nothing to do. -/
def initial (batch : List Message) : Stage := if batch = [] then .confirming else .waiting

/-- Does a broadcast hold the account in this stage? -/
def holdsAccount : Stage → Bool
  | .submitting _ => true
  | _ => false

/-- Has a broadcast of messages made an attempt by this stage? -/
def tried : Stage → Bool
  | .waiting => false
  | .submitting tried => tried
  | .confirming => true

variable {st st' : Stage} {r : Request} {batch b : List Message}

/-- Who submits holds the account, and submits nothing but its batch. -/
theorem next_submit (h : st.next batch (.submit b) = some st') :
    st.holdsAccount = true ∧ b = batch ∧ st' = .submitting true := by
  cases st with
  | submitting tried =>
    by_cases hb : b = batch
    · rw [next, if_pos hb, Option.some.injEq] at h
      exact ⟨rfl, hb, h.symm⟩
    · rw [next, if_neg hb] at h
      exact nomatch h
  | waiting => exact nomatch h
  | confirming => exact nomatch h

theorem next_lockAccount (h : st.next batch .lockAccount = some st') :
    st = .waiting ∧ st' = .submitting false := by
  cases st with
  | waiting => exact ⟨rfl, (Option.some.inj h).symm⟩
  | submitting tried => cases tried <;> exact nomatch h
  | confirming => exact nomatch h

theorem next_unlockAccount (h : st.next batch .unlockAccount = some st') :
    st = .submitting true ∧ st' = .confirming := by
  cases st with
  | submitting tried =>
    cases tried with
    | true => exact ⟨rfl, (Option.some.inj h).symm⟩
    | false => exact nomatch h
  | waiting => exact nomatch h
  | confirming => exact nomatch h

theorem next_submit_self (tried : Bool) (batch : List Message) :
    (submitting tried).next batch (.submit batch) = some (.submitting true) := if_pos rfl

/-- Any other request leaves the stage as it is. -/
theorem next_of_other (h : st.next batch r = some st') (hlock : r ≠ .lockAccount)
    (hunlock : r ≠ .unlockAccount) (hsubmit : ∀ b, r ≠ .submit b) : st' = st := by
  cases st with
  | waiting =>
    cases r with
    | lockAccount => exact absurd rfl hlock
    | _ => cases h
  | submitting tried =>
    cases r with
    | sleep ms => exact (Option.some.inj h).symm
    | submit b => exact absurd rfl (hsubmit b)
    | unlockAccount => exact absurd rfl hunlock
    | _ => cases tried <;> cases h
  | confirming => cases r <;> cases h <;> rfl

end Stage

/-- From a stage on, the program asks what the stages allow whatever it is answered, does
    not break down, and ends with a value in a stage as `Q` says. -/
def Keeps (batch : List Message) : Program α → Stage → (α → Stage → Prop) → Prop
  | .done a, st, Q => Q a st
  | .abort _, _, _ => False
  | .ask r next, st, Q =>
    ∃ st', st.next batch r = some st' ∧ ∀ a, Keeps batch (next a) st' Q

namespace Keeps

variable {batch : List Message} {st st' : Stage} {I J : Stage → Prop}

/-- A composed program keeps to the stages if its parts do, one after the other. -/
theorem bind {p : Program α} {f : α → Program β} {P : α → Stage → Prop} {Q : β → Stage → Prop}
    (hp : Keeps batch p st P) (hf : ∀ a st, P a st → Keeps batch (f a) st Q) :
    Keeps batch (p.bind f) st Q := by
  induction p generalizing st with
  | done a => exact hf a st hp
  | abort message => exact hp
  | ask r next ih =>
    obtain ⟨st', hst', hnext⟩ := hp
    exact ⟨st', hst', fun a => ih a (hnext a)⟩

/-- One attempt. -/
theorem attemptAt {r : Request} (h : st.next batch r = some st') (read : r.Answer → Except ε α) :
    Keeps batch (attemptAt r read) st fun _ st => st = st' :=
  ⟨st', h, fun _ => rfl⟩

/-- Attempts that are repeated in one stage, after a first one that leads to it. -/
theorem retryMore {ms : UInt64} {attempt : Program (Except ε α)}
    (hpause : st'.next batch (.sleep ms) = some st')
    (hagain : Keeps batch attempt st' fun _ st => st = st') (more : Nat) :
    ∀ st, (Keeps batch attempt st fun _ st => st = st') →
      Keeps batch (VpnNode.retryMore (pauseFor ms) attempt more) st fun _ st => st = st' := by
  induction more with
  | zero => exact fun st hattempt => hattempt
  | succ more ih =>
    intro st hattempt
    refine hattempt.bind fun x st hst => ?_
    subst hst
    cases x with
    | ok a => exact rfl
    | error e => exact ⟨st, hpause, fun _ => ih st hagain⟩

theorem retry {p : RetryPolicy} {attempt : Program (Except ε α)}
    (hpause : st'.next batch (.sleep p.delay) = some st')
    (hagain : Keeps batch attempt st' fun _ st => st = st')
    (hattempt : Keeps batch attempt st fun _ st => st = st') :
    Keeps batch (VpnNode.retry pauseFor p attempt) st fun _ st => st = st' := by
  rw [retry_eq_retryMore]
  exact retryMore hpause hagain _ st hattempt

end Keeps

variable {batch : List Message}

/-- Submissions are made while the account is held. -/
theorem keeps_submit (p : Policies) (batch : List Message) (tried : Bool) :
    Keeps batch (submit p batch) (.submitting tried) fun _ st => st = .submitting true := by
  have hattempt : ∀ tried, Keeps batch (attemptAt (.submit batch) accepted) (.submitting tried)
      fun _ st => st = .submitting true := fun tried =>
    .attemptAt (Stage.next_submit_self tried batch) accepted
  exact Keeps.retry (p := p.broadcast) rfl (hattempt true) (hattempt tried)

/-- Polls are made when the submissions are over. -/
theorem keeps_confirm (p : Policies) (batch : List Message) (hash : String) :
    Keeps batch (confirm p hash) .confirming fun _ st => st = .confirming := by
  have hattempt : Keeps batch (attemptAt (.pollTransaction hash) id) .confirming
      fun _ st => st = .confirming := .attemptAt rfl id
  exact Keeps.retry (p := p.confirm) rfl hattempt hattempt

theorem keeps_afterSubmission (p : Policies) (batch : List Message)
    (submitted : Except Error String) :
    Keeps batch (afterSubmission p submitted) .confirming fun _ st => st = .confirming := by
  cases submitted with
  | error e => exact rfl
  | ok hash =>
    refine (keeps_confirm p batch hash).bind fun x st hst => ?_
    cases x <;> exact hst

/-- A broadcast goes through its stages, whatever it is answered, and it has made an
    attempt and left the account when it returns. -/
theorem keeps_broadcast (p : Policies) (batch : List Message) :
    Keeps batch (broadcast p batch) (.initial batch) fun _ st => st = .confirming := by
  by_cases h : batch = []
  · subst h
    exact rfl
  · rw [broadcast_eq h, Stage.initial, if_neg h]
    refine ⟨.submitting false, rfl, fun _ => ?_⟩
    refine (keeps_submit p batch false).bind fun submitted st hst => ?_
    subst hst
    exact ⟨.confirming, rfl, fun _ => keeps_afterSubmission p batch submitted⟩

end VpnNode.Chain.Account
