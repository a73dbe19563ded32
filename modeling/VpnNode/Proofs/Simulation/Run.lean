import VpnNode.Admission
import VpnNode.Proofs.Chain.Calls
import VpnNode.Proofs.Ledger.Lookup
import VpnNode.Proofs.Peer.Identity
import VpnNode.Proofs.Peer.Table
import VpnNode.Simulation.World

/-!
# Running tasks in memory

What the requests of a task come to in surroundings in memory that have no failures in
store, and what the small programs that tasks are made of come to.

Main statements:

* `run_bind`: a composed task runs as its parts do.
* `completes_querySession`: a query fails if as many failures are queued as attempts are
  allowed, and leaves everything but the queue and the clock alone.
* `run_checkLedger`: the two look-ups of an admission on an indexed ledger.
* `run_addByKey`, `completes_removeIfPresent`: calls to the backend by key.
-/

namespace VpnNode.Simulation.World

open Program (Outcome)

/-! ## Programs -/

@[simp] theorem run_done (a : α) (w : World) : w.run (.done a) = (.value a, w) := rfl

@[simp] theorem run_request (r : Request) (w : World) :
    w.run (Program.request r) = (.value (perform r w).1, (perform r w).2) := rfl

theorem run_ask (r : Request) (next : r.Answer → Program α) (w : World) :
    w.run (.ask r next) = (perform r w).2.run (next (perform r w).1) := rfl

theorem run_ask_of_perform {r : Request} {next : r.Answer → Program α} {w w' : World}
    {a : r.Answer} (h : perform r w = (a, w')) : w.run (.ask r next) = w'.run (next a) := by
  rw [run_ask, h]

/-- A task that goes on with the value of a part. -/
theorem run_bind {p : Program α} {f : α → Program β} {w w' : World} {a : α}
    (h : w.run p = (.value a, w')) : w.run (p >>= f) = w'.run (f a) := by
  show Program.run perform (Program.bind p f) w = _
  rw [Program.run_bind, show Program.run perform p w = (.value a, w') from h]
  rfl

/-- A task comes to a value and leaves surroundings behind, and calls the chain like this
    on its way. -/
structure Completes (p : Program α) (w : World) (a : α) (w' : World)
    (made : List Chain.Call) : Prop where
  run_eq : w.run p = (.value a, w')
  calls_eq : Chain.calls (p.exchanges perform w) = made

namespace Completes

variable {w w₁ w₂ : World} {xs ys : List Chain.Call}

theorem done (a : α) (w : World) : Completes (.done a) w a w [] := ⟨rfl, rfl⟩

/-- A task that goes on with the value of a part. -/
theorem bind {p : Program α} {f : α → Program β} {a : α} {b : β} (hp : Completes p w a w₁ xs)
    (hf : Completes (f a) w₁ b w₂ ys) : Completes (p >>= f) w b w₂ (xs ++ ys) := by
  have hpart := Program.bind_of_run (f := f) hp.run_eq
  refine ⟨(run_bind hp.run_eq).trans hf.run_eq, ?_⟩
  show Chain.calls ((p.bind f).exchanges perform w) = _
  rw [hpart.2, Chain.calls_append, hp.calls_eq, hf.calls_eq]

/-- A request that does not reach the chain. -/
theorem ask {r : Request} {next : r.Answer → Program α} {a : r.Answer} {b : α}
    (hr : Chain.Call.ofExchange? ⟨r, a⟩ = none) (hperform : perform r w = (a, w₁))
    (hnext : Completes (next a) w₁ b w₂ xs) : Completes (.ask r next) w b w₂ xs := by
  refine ⟨(run_ask_of_perform hperform).trans hnext.run_eq, ?_⟩
  rw [Program.exchanges, hperform, Chain.calls, List.filterMap_cons_none hr]
  exact hnext.calls_eq

/-- A request that calls the chain. -/
theorem call {r : Request} {next : r.Answer → Program α} {a : r.Answer} {b : α} {c : Chain.Call}
    (hr : Chain.Call.ofExchange? ⟨r, a⟩ = some c) (hperform : perform r w = (a, w₁))
    (hnext : Completes (next a) w₁ b w₂ xs) : Completes (.ask r next) w b w₂ (c :: xs) := by
  refine ⟨(run_ask_of_perform hperform).trans hnext.run_eq, ?_⟩
  rw [Program.exchanges, hperform, Chain.calls, List.filterMap_cons_some hr]
  exact congrArg (c :: ·) hnext.calls_eq

end Completes

/-! ## The chain -/

/-- Surroundings that differ at most in what a query changes: the clock, and the failures
    that are queued. -/
structure Alike (w w' : World) : Prop where
  ledger : w'.ledger = w.ledger
  table : w'.table = w.table
  faults : w'.faults = w.faults
  wallClock : w'.wallClock = w.wallClock
  sessions : w'.chain.sessions = w.chain.sessions

theorem Alike.refl (w : World) : Alike w w := ⟨rfl, rfl, rfl, rfl, rfl⟩

theorem Alike.trans {w₁ w₂ w₃ : World} (h : Alike w₁ w₂) (h' : Alike w₂ w₃) : Alike w₁ w₃ where
  ledger := h'.ledger.trans h.ledger
  table := h'.table.trans h.table
  faults := h'.faults.trans h.faults
  wallClock := h'.wallClock.trans h.wallClock
  sessions := h'.sessions.trans h.sessions

/-- Why a query fails while failures are queued. -/
def queryFailure : Chain.Error := .transport "mock query failure"

/-- The answer to a query that is attempted a number of times. -/
def answerWithin (w : World) (attempts : Nat) (id : UInt64) :
    Except Chain.Error (Option Chain.Session) :=
  if w.chain.failingQueries < attempts then .ok w.chain.sessions[id]?
  else .error (.transport "mock query failure")

/-- The calls of a query that is attempted a number of times. -/
def callsWithin (w : World) (attempts : Nat) (id : UInt64) : List Chain.Call :=
  List.replicate (min w.chain.failingQueries attempts) (.query id (.error queryFailure)) ++
    if w.chain.failingQueries < attempts then [.query id (.ok w.chain.sessions[id]?)] else []

/-- An attempt at a query uses up a failure, if one is queued. -/
theorem perform_querySession_of_queued {w : World} (id : UInt64)
    (h : 0 < w.chain.failingQueries) :
    ∃ w', perform (.querySession id) w = (.error queryFailure, w') ∧ Alike w w' ∧
      w'.chain.failingQueries + 1 = w.chain.failingQueries := by
  obtain ⟨n, hn⟩ : ∃ n, w.chain.failingQueries = n + 1 := ⟨_, (Nat.sub_add_cancel h).symm⟩
  have hquery : w.chain.query id = (.error queryFailure, { w.chain with failingQueries := n }) := by
    unfold Chain.query
    rw [hn]
    rfl
  have hperform : perform (.querySession id) w =
      ((w.chain.query id).1, { w with chain := (w.chain.query id).2 }) := rfl
  rw [hquery] at hperform
  exact ⟨_, hperform, ⟨rfl, rfl, rfl, rfl, rfl⟩, hn.symm⟩

/-- Otherwise it is answered from the sessions of the chain. -/
theorem perform_querySession_of_none {w : World} (id : UInt64)
    (h : w.chain.failingQueries = 0) :
    perform (.querySession id) w = (.ok w.chain.sessions[id]?, w) := by
  have hquery : w.chain.query id = (.ok w.chain.sessions[id]?, w.chain) := by
    unfold Chain.query
    rw [h]
  have hperform : perform (.querySession id) w =
      ((w.chain.query id).1, { w with chain := (w.chain.query id).2 }) := rfl
  rwa [hquery] at hperform

section Queries

variable {w w' : World} {attempts : Nat} {id : UInt64}

theorem answerWithin_of_lt (h : w.chain.failingQueries < attempts) :
    w.answerWithin attempts id = .ok w.chain.sessions[id]? := if_pos h

theorem answerWithin_of_le (h : attempts ≤ w.chain.failingQueries) :
    w.answerWithin attempts id = .error queryFailure := if_neg (Nat.not_lt.2 h)

theorem callsWithin_of_none (h : w.chain.failingQueries = 0) (hpos : 0 < attempts) :
    w.callsWithin attempts id = [.query id (.ok w.chain.sessions[id]?)] := by
  rw [callsWithin, if_pos (by omega), h, Nat.zero_min]
  rfl

theorem callsWithin_of_le (h : attempts ≤ w.chain.failingQueries) :
    w.callsWithin attempts id = List.replicate attempts (.query id (.error queryFailure)) := by
  rw [callsWithin, if_neg (Nat.not_lt.2 h), Nat.min_eq_right h, List.append_nil]

/-- A failed attempt leaves the others what they would have been with it. -/
theorem within_succ (attempts : Nat) (id : UInt64)
    (hqueue : w'.chain.failingQueries + 1 = w.chain.failingQueries)
    (hsessions : w'.chain.sessions = w.chain.sessions) :
    w.answerWithin (attempts + 1) id = w'.answerWithin attempts id ∧
      w.callsWithin (attempts + 1) id =
        .query id (.error queryFailure) :: w'.callsWithin attempts id := by
  unfold answerWithin callsWithin
  rw [← hqueue, hsessions, Nat.add_min_add_right, List.replicate_succ]
  simp only [Nat.add_lt_add_iff_right, List.cons_append, and_self]

end Queries

/-- A pause moves the clock only. -/
theorem perform_sleep (w : World) (ms : UInt64) :
    Alike w (perform (.sleep ms) w).2 ∧
      (perform (.sleep ms) w).2.chain.failingQueries = w.chain.failingQueries :=
  ⟨⟨rfl, rfl, rfl, rfl, rfl⟩, rfl⟩

/-- A query that is attempted up to `more` times again. -/
def queryMore (pause id : UInt64) (more : Nat) :
    Program (Except Chain.Error (Option Chain.Session)) :=
  retryMore (Program.request (.sleep pause)) (Program.request (.querySession id)) more

theorem queryMore_succ (pause id : UInt64) (more : Nat) :
    queryMore pause id (more + 1) = .ask (.querySession id) fun
      | .ok a => .done (.ok a)
      | .error _ => .ask (.sleep pause) fun _ => queryMore pause id more := by
  show Program.ask (.querySession id) _ = _
  congr 1
  funext a
  cases a <;> rfl

/-- A query that is retried uses up a queued failure with each attempt. -/
theorem completes_queryMore (pause id : UInt64) (more : Nat) (w : World) :
    ∃ w', Completes (queryMore pause id more) w (w.answerWithin (more + 1) id) w'
        (w.callsWithin (more + 1) id) ∧
      Alike w w' ∧ w'.chain.failingQueries = w.chain.failingQueries - (more + 1) := by
  induction more generalizing w with
  | zero =>
    rcases Nat.eq_zero_or_pos w.chain.failingQueries with h | h
    · rw [answerWithin_of_lt (by omega), callsWithin_of_none h Nat.one_pos]
      exact ⟨w, .call rfl (perform_querySession_of_none id h) (.done _ w), .refl w, by omega⟩
    · obtain ⟨w', hperform, halike, hqueue⟩ := perform_querySession_of_queued id h
      rw [answerWithin_of_le h, callsWithin_of_le h]
      exact ⟨w', .call rfl hperform (.done _ w'), halike, by omega⟩
  | succ more ih =>
    rw [queryMore_succ]
    rcases Nat.eq_zero_or_pos w.chain.failingQueries with h | h
    · rw [answerWithin_of_lt (by omega), callsWithin_of_none h (Nat.succ_pos _)]
      exact ⟨w, .call rfl (perform_querySession_of_none id h) (.done _ w), .refl w, by omega⟩
    · obtain ⟨w₁, hperform, halike, hqueue⟩ := perform_querySession_of_queued id h
      obtain ⟨hsleep, hqueue₁⟩ := perform_sleep w₁ pause
      obtain ⟨w', hrest, halike', hqueue'⟩ := ih (perform (.sleep pause) w₁).2
      have hboth := halike.trans hsleep
      have hleft : (perform (.sleep pause) w₁).2.chain.failingQueries + 1 =
          w.chain.failingQueries := by omega
      obtain ⟨hanswer, hcalls⟩ := within_succ (more + 1) id hleft hboth.sessions
      rw [hanswer, hcalls]
      exact ⟨w', .call rfl hperform (.ask rfl rfl hrest), hboth.trans halike', by omega⟩

/-- A query fails if as many failures are queued as attempts are allowed, and uses them up. -/
theorem completes_querySession (p : Chain.Policies) (id : UInt64) (w : World) :
    ∃ w', Completes (Chain.querySession p id) w (w.answerWithin p.query.attempts id) w'
        (w.callsWithin p.query.attempts id) ∧
      Alike w w' ∧ w'.chain.failingQueries = w.chain.failingQueries - p.query.attempts := by
  have h := completes_queryMore p.query.delay id (p.query.attempts - 1) w
  have hquery : Chain.querySession p id = queryMore p.query.delay id (p.query.attempts - 1) :=
    retry_eq_retryMore p.query (Program.request (.querySession id)) fun ms =>
      Program.request (.sleep ms)
  rwa [Nat.sub_add_cancel p.query.attempts_pos, ← hquery] at h

theorem run_querySession (p : Chain.Policies) (id : UInt64) (w : World) :
    ∃ w', w.run (Chain.querySession p id) = (.value (w.answerWithin p.query.attempts id), w') ∧
      Alike w w' := by
  obtain ⟨w', h, halike, -⟩ := completes_querySession p id w
  exact ⟨w', h.run_eq, halike⟩

/-! ## The ledger -/

theorem perform_findRows (w : World) (f : Ledger.Filter) :
    perform (.findRows f) w = (w.ledger.find f, w) := rfl

/-- The filter without fields finds the rows by ascending id. -/
theorem perform_findRows_all {w : World} (h : w.ledger.Indexed) :
    perform (.findRows .all) w = (.ok w.ledger.sessions, w) := by
  rw [perform_findRows, h.find_all_eq]
  rfl

theorem perform_now (w : World) : perform .now w = (w.wallClock, w) := rfl

/-- The two look-ups of an admission. -/
theorem run_checkLedger {w : World} (h : w.ledger.Indexed) (id : UInt64) (key : String) :
    w.run (Admission.checkLedger id key) =
      (.value (if (w.ledger.row? id).isSome then .error (.sessionExists id)
        else if (w.ledger.rowOf? key).isSome then .error .peerKeyInUse else .ok ()), w) := by
  unfold Admission.checkLedger
  rw [run_bind (run_request _ w), perform_findRows, h.find_byId]
  cases hid : w.ledger.row? id with
  | some s => rfl
  | none =>
    show w.run (_ >>= _) = _
    rw [run_bind (run_request _ w), perform_findRows, h.find_byPeerKey]
    cases hkey : w.ledger.rowOf? key with
    | some s => rfl
    | none => rfl

theorem perform_insertRow_of_ok {w : World} {s : Session} {ledger : Ledger}
    (h : w.ledger.insert s = .ok ledger) :
    perform (.insertRow s) w = (.ok (), { w with ledger }) := by
  show w.updateLedger ((w.ledger.insert s).map fun l => ((), l)) = _
  rw [h]
  rfl

theorem perform_insertRow_of_error {w : World} {s : Session} {e : Ledger.Error}
    (h : w.ledger.insert s = .error e) : perform (.insertRow s) w = (.error e, w) := by
  show w.updateLedger ((w.ledger.insert s).map fun l => ((), l)) = _
  rw [h]
  rfl

theorem perform_updateRow_of_ok {w : World} {f : Ledger.Filter} {u : Ledger.Update}
    {written : Option Session} {ledger : Ledger}
    (h : w.ledger.updateOne f u = .ok (written, ledger)) :
    perform (.updateRow f u) w = (.ok written, { w with ledger }) := by
  show w.updateLedger (w.ledger.updateOne f u) = _
  rw [h]
  rfl

theorem perform_deleteRow_of_ok {w : World} {f : Ledger.Filter} {removed : Option Session}
    {ledger : Ledger} (h : w.ledger.deleteOne f = .ok (removed, ledger)) :
    perform (.deleteRow f) w = (.ok removed, { w with ledger }) := by
  show w.updateLedger (w.ledger.deleteOne f) = _
  rw [h]
  rfl

/-! ## The backend -/

theorem takeFault_eq {w : World} (h : w.faults = []) (call : BackendCall) :
    w.takeFault call = (none, w) := by
  unfold takeFault
  rw [h]
  rfl

theorem callBackend_eq {w : World} (h : w.faults = []) (call : BackendCall)
    (f : World → Except Peer.Error α × World) : w.callBackend call f = f w := by
  unfold callBackend
  rw [takeFault_eq h]

theorem perform_addPeer {w : World} (h : w.faults = []) (i : Peer.Identity) :
    perform (.addPeer i) w =
      match w.table.add i with
      | .ok (data, table) => (.ok data, { w with table })
      | .error e => (.error e, w) := by
  show w.callBackend .add _ = _
  rw [callBackend_eq h]
  show w.updateTable (w.table.add i) = _
  cases w.table.add i <;> rfl

theorem perform_hasPeer {w : World} (h : w.faults = []) (i : Peer.Identity) :
    perform (.hasPeer i) w = (w.table.has i, w) :=
  callBackend_eq h _ _

theorem perform_removePeer {w : World} (h : w.faults = []) (i : Peer.Identity) :
    perform (.removePeer i) w =
      match w.table.remove i with
      | .ok table => (.ok (), { w with table })
      | .error e => (.error e, w) := by
  show w.callBackend .remove _ = _
  rw [callBackend_eq h]
  show w.updateTable ((w.table.remove i).map fun t => ((), t)) = _
  cases w.table.remove i <;> rfl

theorem perform_peerStatistics {w : World} (h : w.faults = []) :
    perform .peerStatistics w = (.ok (w.reported.getD w.table.statistics), w) :=
  callBackend_eq h _ _

theorem perform_peerCount {w : World} (h : w.faults = []) :
    perform .peerCount w = (.ok w.table.count, w) :=
  callBackend_eq h _ _

/-- An addition by key. -/
theorem run_addByKey {w : World} (h : w.faults = []) {service : Service} {key : String}
    {i : Peer.Identity} (hi : Peer.Identity.ofKey service key = .ok i) :
    w.run (Peer.addByKey service key) =
      match w.table.add i with
      | .ok (data, table) => (.value (.ok (i, data)), { w with table })
      | .error e => (.value (.error e), w) := by
  unfold Peer.addByKey Peer.withIdentity
  rw [hi]
  show w.run (_ >>= _) = _
  rw [run_bind (run_request _ w), perform_addPeer h]
  cases w.table.add i with
  | ok x => rfl
  | error e => rfl

/-- What is left of a removal by key once the backend has said whether it has the peer. -/
def afterProbe (i : Peer.Identity) : Except Peer.Error Bool → Program (Except Peer.Error Unit)
  | .error e => .done (.error e)
  | .ok false => .done (.ok ())
  | .ok true => .ask (.removePeer i) .done

theorem removeIfPresent_eq {service : Service} {key : String} {i : Peer.Identity}
    (hi : Peer.Identity.ofKey service key = .ok i) :
    Peer.removeIfPresent service key = .ask (.hasPeer i) (afterProbe i) := by
  unfold Peer.removeIfPresent Peer.withIdentity
  rw [hi]
  refine congrArg (Program.ask (.hasPeer i)) (funext fun answer => ?_)
  obtain e | (_ | _) := answer <;> rfl

theorem removeIfPresent_of_error {service : Service} {key : String} {e : Peer.Error}
    (he : Peer.Identity.ofKey service key = .error e) :
    Peer.removeIfPresent service key = .done (.error e) := by
  unfold Peer.removeIfPresent Peer.withIdentity
  rw [he]
  rfl

/-- A removal by key, whether the table has the peer or not. -/
theorem completes_removeIfPresent {w : World} (h : w.faults = []) {key : String}
    {i : Peer.Identity} (hi : Peer.Identity.ofKey w.table.service key = .ok i) :
    Completes (Peer.removeIfPresent w.table.service key) w (.ok ())
      { w with table := w.table.dismiss i.key } [] := by
  have hservice : i.service = w.table.service := Peer.Identity.service_ofKey hi
  have hhas := perform_hasPeer h i
  rw [Peer.Table.has_eq hservice] at hhas
  have hremove := perform_removePeer h i
  rw [removeIfPresent_eq hi]
  refine .ask rfl hhas ?_
  cases hc : w.table.contains i.key with
  | false =>
    rw [Peer.Table.dismiss_of_not_contains hc]
    exact .done _ w
  | true =>
    rw [Peer.Table.remove_eq_dismiss hservice hc] at hremove
    exact .ask rfl hremove (.done _ _)

/-- A removal by a key that the kind of service does not know. -/
theorem completes_removeIfPresent_of_error (w : World) {service : Service} {key : String}
    {e : Peer.Error} (he : Peer.Identity.ofKey service key = .error e) :
    Completes (Peer.removeIfPresent service key) w (.error e) w [] := by
  rw [removeIfPresent_of_error he]
  exact .done _ w

/-- A removal by key, of a peer that the table has. -/
theorem run_removeIfPresent {w : World} (h : w.faults = []) {service : Service} {key : String}
    {i : Peer.Identity} (hi : Peer.Identity.ofKey service key = .ok i) {table : Peer.Table}
    (hr : w.table.remove i = .ok table) :
    w.run (Peer.removeIfPresent service key) = (.value (.ok ()), { w with table }) := by
  obtain ⟨hs, hc, -⟩ := Peer.Table.remove_eq_ok_iff.1 hr
  have hservice : service = w.table.service := (Peer.Identity.service_ofKey hi).symm.trans hs
  subst hservice
  rw [Peer.Table.remove_eq_dismiss hs hc, Except.ok.injEq] at hr
  subst hr
  exact (completes_removeIfPresent h hi).run_eq

end VpnNode.Simulation.World
