import VpnNode.Peer.Adapter
import VpnNode.Chain.Client
import VpnNode.Proofs.Program.Exchanges

/-!
# Tasks that do not break down

A task breaks down where it needs a value that is corrupt. Whether it does depends on what it
is answered, and that on other tasks as well. So it is said of its program: as long as the
answers are fair, it does not break down, asks no more than it may, and ends with a value of
which something is known. What a fair answer is differs from one use to the next.

Main statements:

* `Safe.bind`: a composed program is safe if its parts are.
* `Safe.run`: a safe program that is answered by surroundings which keep an invariant comes to
  a value and leaves the invariant behind.
-/

namespace VpnNode

namespace Program

/-- Under fair answers the program does not break down, asks only what it may, and ends with
    a value as `Q` says. -/
def Safe (fair : (r : Request) → r.Answer → Prop) (may : Request → Prop) :
    Program α → (α → Prop) → Prop
  | .done a, Q => Q a
  | .abort _, _ => False
  | .ask r next, Q => may r ∧ ∀ a, fair r a → Safe fair may (next a) Q

namespace Safe

variable {fair : (r : Request) → r.Answer → Prop} {may : Request → Prop}

/-- A composed program is safe if its parts are. -/
theorem bind {p : Program α} {f : α → Program β} {P : α → Prop} {Q : β → Prop}
    (hp : Safe fair may p P) (hf : ∀ a, P a → Safe fair may (f a) Q) :
    Safe fair may (p.bind f) Q := by
  induction p with
  | done a => exact hf a hp
  | abort message => exact hp
  | ask r next ih => exact ⟨hp.1, fun a ha => ih a (hp.2 a ha)⟩

theorem ask {r : Request} {next : r.Answer → Program α} {Q : α → Prop} (hr : may r)
    (h : ∀ a, fair r a → Safe fair may (next a) Q) : Safe fair may (.ask r next) Q := ⟨hr, h⟩

/-- The answer to a single request is fair. -/
theorem answer {r : Request} (hr : may r) : Safe fair may (Program.request r) (fair r) :=
  ask hr fun _ ha => ha

theorem request {r : Request} (hr : may r) : Safe fair may (Program.request r) fun _ => True :=
  ask hr fun _ _ => trivial

theorem ite {c : Prop} [Decidable c] {p q : Program α} {Q : α → Prop} (hp : Safe fair may p Q)
    (hq : Safe fair may q Q) : Safe fair may (if c then p else q) Q := by
  split
  · exact hp
  · exact hq

/-- Attempts that are repeated are safe if one attempt and the pause are. -/
theorem retryMore {pause : Program Unit} {attempt : Program (Except ε α)}
    (hpause : Safe fair may pause fun _ => True) (hattempt : Safe fair may attempt fun _ => True)
    (more : Nat) : Safe fair may (VpnNode.retryMore pause attempt more) fun _ => True := by
  induction more with
  | zero => exact hattempt
  | succ more ih =>
    refine bind hattempt fun x _ => ?_
    cases x with
    | ok a => trivial
    | error e => exact bind hpause fun _ _ => ih

theorem retry {sleep : UInt64 → Program Unit} {p : RetryPolicy} {attempt : Program (Except ε α)}
    (hsleep : ∀ ms, Safe fair may (sleep ms) fun _ => True)
    (hattempt : Safe fair may attempt fun _ => True) :
    Safe fair may (VpnNode.retry sleep p attempt) fun _ => True := by
  rw [retry_eq_retryMore]
  exact retryMore (hsleep p.delay) hattempt _

/-- A safe program that is answered by surroundings which keep an invariant comes to a value,
    leaves the invariant behind, and has asked only what it may. -/
theorem run {I : σ → Prop} {answer : (r : Request) → σ → r.Answer × σ}
    (hstep : ∀ r s, may r → I s → fair r (answer r s).1 ∧ I (answer r s).2) {p : Program α}
    {Q : α → Prop} (h : Safe fair may p Q) {s : σ} (hs : I s) :
    ∃ a s', p.run answer s = (.value a, s') ∧ Q a ∧ I s' ∧
      ∀ e ∈ p.exchanges answer s, may e.request := by
  induction p generalizing s with
  | done a => exact ⟨a, s, rfl, h, hs, fun e he => absurd he List.not_mem_nil⟩
  | abort message => exact False.elim h
  | ask r next ih =>
    obtain ⟨hfair, hs₁⟩ := hstep r s h.1 hs
    obtain ⟨a, s', hrun, hQ, hs', hasked⟩ := ih _ (h.2 _ hfair) hs₁
    exact ⟨a, s', hrun, hQ, hs', List.forall_mem_cons.2 ⟨h.1, hasked⟩⟩

end Safe

/-! ## The chain and the backend -/

/-- A request that concerns the chain and is no transaction, or the account. -/
def Quiet : Request → Prop
  | .sleep _ | .lockAccount | .unlockAccount | .querySession _ | .pollTransaction _ => True
  | _ => False

variable {fair : (r : Request) → r.Answer → Prop} {may : Request → Prop}

theorem safe_querySession (hmay : ∀ r, Quiet r → may r) (p : Chain.Policies) (id : UInt64) :
    Safe fair may (Chain.querySession p id) fun _ => True := by
  unfold Chain.querySession Chain.retrying
  refine .retry (fun _ => .request ?_) (.request ?_)
  · exact hmay _ trivial
  · exact hmay _ trivial

theorem safe_submit (hmay : ∀ r, Quiet r → may r) (p : Chain.Policies)
    {batch : List Chain.Message} (hbatch : may (.submit batch)) :
    Safe fair may (Chain.submit p batch) fun _ => True := by
  unfold Chain.submit Chain.retrying
  refine .retry (fun _ => .request ?_) (.bind (.request hbatch) fun answer _ => ?_)
  · exact hmay _ trivial
  · exact (trivial : Safe fair may (.done (Chain.accepted answer)) fun _ => True)

theorem safe_confirm (hmay : ∀ r, Quiet r → may r) (p : Chain.Policies) (hash : String) :
    Safe fair may (Chain.confirm p hash) fun _ => True := by
  unfold Chain.confirm Chain.retrying
  refine .retry (fun _ => .request ?_) (.request ?_)
  · exact hmay _ trivial
  · exact hmay _ trivial

/-- A broadcast submits its batch and nothing else. -/
theorem safe_broadcast (hmay : ∀ r, Quiet r → may r) (p : Chain.Policies)
    {batch : List Chain.Message} (hbatch : may (.submit batch)) :
    Safe fair may (Chain.broadcast p batch) fun _ => True := by
  unfold Chain.broadcast
  split
  · trivial
  · refine .bind (.request (hmay _ trivial)) fun _ _ => .bind (safe_submit hmay p hbatch)
      fun submitted _ => .bind (.request (hmay _ trivial)) fun _ _ => ?_
    cases submitted with
    | error e => trivial
    | ok hash =>
      refine .bind (safe_confirm hmay p hash) fun included _ => ?_
      cases included <;> trivial

theorem safe_removeIfPresent (hmay : ∀ i, may (.hasPeer i) ∧ may (.removePeer i))
    (service : Service) (key : String) :
    Safe fair may (Peer.removeIfPresent service key) fun _ => True := by
  unfold Peer.removeIfPresent Peer.withIdentity
  cases Peer.Identity.ofKey service key with
  | error e => trivial
  | ok i =>
    refine ⟨(hmay i).1, fun found _ => ?_⟩
    obtain e | (_ | _) := found
    · trivial
    · trivial
    · exact ⟨(hmay i).2, fun _ _ => trivial⟩

/-! ## Corrupt values -/

theorem safe_ofCorruption {x : Except Session.Corruption α} {a : α} {Q : α → Prop}
    (hx : x = .ok a) (hQ : Q a) : Safe fair may (ofCorruption x) Q := by
  subst hx
  exact hQ

theorem safe_ofFailure {x : Except Ledger.Failure α} (hx : ∀ c, x ≠ .error (.corrupt c)) :
    Safe fair may (ofFailure x) fun _ => True := by
  obtain (e | c) | a := x
  · trivial
  · exact hx c rfl
  · trivial

end Program

end VpnNode
