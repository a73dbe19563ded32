import VpnNode.Job.Sessions
import VpnNode.Proofs.Ledger.Rows
import VpnNode.Proofs.Simulation.Run

/-!
# What aligning the ledger with the chain does

A pass of the alignment goes over the rows of the ledger by ascending id, and writes that
same ledger on its way. Each row asks the chain first, and failures that are queued there
are used up by one row after the other. A row whose query is exhausted is left alone; any
other is settled by what the chain knows of its session.

Main statements:

* `completes_reconcileOne_of_le`, `completes_reconcileOne_of_lt`: what one row comes to.
* `exists_settled`: what rows come to, one after the other.
* `sessionValidation_exact`: what a pass calls, what it leaves, and what it gives.
-/

namespace VpnNode.Job

open Simulation (World)
open Simulation.World (Completes Alike queryFailure)
open Peer.Identity (canonical?)

/-! ## What the chain says of a row -/

/-- The chain has no such session. -/
def absent (w : World) (s : Session) : Bool := w.chain.sessions[s.id]?.isNone

/-- The session of a row is absent from the chain, or not active there. -/
def idle (w : World) (s : Session) : Bool := !w.chain.sessions[s.id]?.any (·.isActive)

/-- The kind of service does not know the peer key of a row. -/
def rejected (w : World) (s : Session) : Bool :=
  (canonical? w.table.service s.peerKey).isNone

/-- The row has to go. -/
def deletes (w : World) (s : Session) : Bool := absent w s && !rejected w s

/-- The peer with a key has to go because of a row. -/
def disconnects (w : World) (key : String) (s : Session) : Bool :=
  idle w s && canonical? w.table.service s.peerKey == some key

theorem idle_of_absent {w : World} {s : Session} (h : absent w s = true) : idle w s = true := by
  unfold idle
  rw [Option.isNone_iff_eq_none.1 h]
  rfl

/-! ## Rows that have been settled -/

/-- Surroundings before and after the rows of a list were settled. -/
structure Aligned (w : World) (rows : List Session) (w' : World) : Prop where
  sessions : w'.chain.sessions = w.chain.sessions
  faults : w'.faults = []
  service : w'.table.service = w.table.service
  indexed : w'.ledger.Indexed
  holds : ∀ id s, w'.ledger.Holds id s ↔
    w.ledger.Holds id s ∧ ∀ t ∈ rows, deletes w t = true → t.id ≠ id
  peers : ∀ key, w'.table.peers[key]? =
    if rows.any (disconnects w key) then none else w.table.peers[key]?

namespace Aligned

variable {w w₁ w₂ : World} {xs ys : List Session}

/-- A query settles nothing. -/
theorem of_alike (h : Alike w w₁) (hf : w.faults = []) (hi : w.ledger.Indexed) :
    Aligned w [] w₁ where
  sessions := h.sessions
  faults := h.faults.trans hf
  service := by rw [h.table]
  indexed := by rw [h.ledger]; exact hi
  holds id s := by
    rw [h.ledger]
    exact ⟨fun hs => ⟨hs, fun _ ht => absurd ht List.not_mem_nil⟩, And.left⟩
  peers key := by
    rw [h.table]
    rfl

/-- What is said of a row does not change on the way. -/
theorem same (h : Aligned w xs w₁) :
    absent w₁ = absent w ∧ idle w₁ = idle w ∧ rejected w₁ = rejected w ∧ deletes w₁ = deletes w ∧
      disconnects w₁ = disconnects w := by
  have habsent : absent w₁ = absent w := by
    funext s
    rw [absent, h.sessions, absent]
  have hidle : idle w₁ = idle w := by
    funext s
    rw [idle, h.sessions, idle]
  have hrejected : rejected w₁ = rejected w := by
    funext s
    rw [rejected, h.service, rejected]
  refine ⟨habsent, hidle, hrejected, ?_, ?_⟩
  · funext s
    rw [deletes, habsent, hrejected, deletes]
  · funext key s
    rw [disconnects, hidle, h.service, disconnects]

theorem trans (h : Aligned w xs w₁) (h' : Aligned w₁ ys w₂) : Aligned w (xs ++ ys) w₂ := by
  obtain ⟨-, -, -, hdeletes, hdisconnects⟩ := h.same
  refine ⟨h'.sessions.trans h.sessions, h'.faults, h'.service.trans h.service, h'.indexed, ?_, ?_⟩
  · intro id s
    rw [h'.holds, h.holds, hdeletes, and_assoc, List.forall_mem_append]
  · intro key
    rw [h'.peers, h.peers, hdisconnects, List.any_append]
    cases ys.any (disconnects w key) <;> cases xs.any (disconnects w key) <;> rfl

/-- What settling one row leaves. -/
theorem of_row {w' : World} {s : Session} (hi : w.ledger.Indexed)
    (hsessions : w'.chain.sessions = w.chain.sessions) (hf : w'.faults = [])
    (htable : w'.table = if idle w s then
      (canonical? w.table.service s.peerKey).elim w.table w.table.dismiss else w.table)
    (hledger : w'.ledger = if deletes w s then w.ledger.discard s.id else w.ledger) :
    Aligned w [s] w' where
  sessions := hsessions
  faults := hf
  service := by
    rw [htable]
    split
    · cases canonical? w.table.service s.peerKey with
      | none => rfl
      | some k => exact Peer.Table.service_dismiss w.table k
    · rfl
  indexed := by
    rw [hledger]
    split
    · exact hi.discard s.id
    · exact hi
  holds id t := by
    rw [hledger]
    split
    · rename_i hdeletes
      rw [Ledger.holds_discard, List.forall_mem_singleton]
      exact and_congr_right fun _ => ⟨fun hne _ he => hne he.symm, fun h he => h hdeletes he.symm⟩
    · rename_i hkeeps
      rw [List.forall_mem_singleton]
      exact ⟨fun ht => ⟨ht, fun hdeletes => absurd hdeletes hkeeps⟩, And.left⟩
  peers key := by
    rw [htable, List.any_cons, List.any_nil, Bool.or_false, disconnects]
    cases idle w s with
    | false => rfl
    | true =>
      cases canonical? w.table.service s.peerKey with
      | none => rfl
      | some k => simp [Peer.Table.getElem?_dismiss]

end Aligned

/-! ## One row -/

/-- What is left of settling a row after the removal of its peer. -/
def afterRemoval (s : Session) (remote : Option Chain.Session) :
    Except Peer.Error Unit → Program (Reconciled × Option Error)
  | .error e => .done (⟨0, 0⟩, some (.peer e))
  | .ok () =>
    if remote.isSome then .done (⟨1, 0⟩, none)
    else .ask (.deleteRow (.byId s.id)) fun
      | .error e => .done (⟨1, 0⟩, some (.ledger e))
      | .ok _ => .done (⟨1, 1⟩, none)

/-- What is left of settling a row after its query. -/
def afterQuery (config : NodeConfig) (s : Session) :
    Except Chain.Error (Option Chain.Session) → Program (Reconciled × Option Error)
  | .error e => .done (⟨0, 0⟩, some (.chain e))
  | .ok remote =>
    if remote.any (·.isActive) then .done (⟨0, 0⟩, none)
    else Peer.removeIfPresent config.service s.peerKey >>= afterRemoval s remote

/-- Settling a row, in its parts. -/
theorem reconcileOne_eq (config : NodeConfig) (s : Session) :
    reconcileOne config s = Chain.querySession config.policies s.id >>= afterQuery config s := by
  rfl

variable {config : NodeConfig} {w : World}

/-- A row whose query is exhausted is left alone. -/
theorem completes_reconcileOne_of_le (s : Session)
    (h : config.policies.query.attempts ≤ w.chain.failingQueries) :
    ∃ w', Completes (reconcileOne config s) w (⟨0, 0⟩, some (.chain queryFailure)) w'
        (w.callsWithin config.policies.query.attempts s.id) ∧ Alike w w' ∧
      w'.chain.failingQueries = w.chain.failingQueries - config.policies.query.attempts := by
  obtain ⟨w', hquery, halike, hqueue⟩ := World.completes_querySession config.policies s.id w
  rw [World.answerWithin_of_le h] at hquery
  have hrow : Completes (reconcileOne config s) w _ w' _ := hquery.bind (.done _ w')
  rw [List.append_nil] at hrow
  exact ⟨w', hrow, halike, hqueue⟩

/-- An idle row with a key that the kind of service does not know fails, and nothing
    changes. -/
theorem completes_idle_of_error (hf : w.faults = []) (hi : w.ledger.Indexed) {s : Session}
    (hidle : idle w s = true) {e : Peer.Error}
    (hkey : Peer.Identity.ofKey w.table.service s.peerKey = .error e) :
    Completes (Peer.removeIfPresent w.table.service s.peerKey >>=
        afterRemoval s w.chain.sessions[s.id]?) w (⟨0, 0⟩, some (.peer e)) w [] ∧
      Aligned w [s] w ∧ rejected w s = true := by
  have hnone : canonical? w.table.service s.peerKey = none :=
    Peer.Identity.canonical?_of_error hkey
  have hrejected : rejected w s = true := by
    rw [rejected, hnone]
    rfl
  have hrow := (World.completes_removeIfPresent_of_error w hkey).bind
    (f := afterRemoval s w.chain.sessions[s.id]?) (.done _ w)
  refine ⟨hrow, .of_row hi rfl hf ?_ ?_, hrejected⟩
  · rw [if_pos hidle, hnone]
    rfl
  · rw [deletes, hrejected, Bool.not_true, Bool.and_false]
    rfl

/-- The peer of an idle row is disconnected; the row stays if the chain has its session. -/
theorem completes_idle_of_some (hf : w.faults = []) (hi : w.ledger.Indexed) {s : Session}
    (hidle : idle w s = true) {i : Peer.Identity}
    (hkey : Peer.Identity.ofKey w.table.service s.peerKey = .ok i) {remote : Chain.Session}
    (hremote : w.chain.sessions[s.id]? = some remote) :
    ∃ w', Completes (Peer.removeIfPresent w.table.service s.peerKey >>=
        afterRemoval s w.chain.sessions[s.id]?) w (⟨1, 0⟩, none) w' [] ∧
      Aligned w [s] w' ∧ w'.chain = w.chain ∧ absent w s = false := by
  have hsome : canonical? w.table.service s.peerKey = some i.key :=
    Peer.Identity.canonical?_of_ok hkey
  have hpresent : absent w s = false := by
    rw [absent, hremote]
    rfl
  have hrow := (World.completes_removeIfPresent hf hkey).bind
    (f := afterRemoval s (some remote)) (.done _ _)
  rw [hremote]
  refine ⟨_, hrow, .of_row hi rfl hf ?_ ?_, rfl, hpresent⟩
  · rw [if_pos hidle, hsome]
    rfl
  · rw [deletes, hpresent, Bool.false_and]
    rfl

/-- The peer of a row whose session is absent is disconnected, and then the row is
    deleted. -/
theorem completes_idle_of_none (hf : w.faults = []) (hi : w.ledger.Indexed) {s : Session}
    (hidle : idle w s = true) {i : Peer.Identity}
    (hkey : Peer.Identity.ofKey w.table.service s.peerKey = .ok i)
    (hremote : w.chain.sessions[s.id]? = none) :
    ∃ w', Completes (Peer.removeIfPresent w.table.service s.peerKey >>=
        afterRemoval s w.chain.sessions[s.id]?) w (⟨1, 1⟩, none) w' [] ∧
      Aligned w [s] w' ∧ w'.chain = w.chain ∧ absent w s = true := by
  have hsome : canonical? w.table.service s.peerKey = some i.key :=
    Peer.Identity.canonical?_of_ok hkey
  have habsent : absent w s = true := by
    rw [absent, hremote]
    rfl
  have hdeletes : deletes w s = true := by
    rw [deletes, habsent, rejected, hsome]
    rfl
  have hdelete : World.perform (.deleteRow (.byId s.id))
      { w with table := w.table.dismiss i.key } =
      (.ok (w.ledger.row? s.id),
        { w with table := w.table.dismiss i.key, ledger := w.ledger.discard s.id }) :=
    World.perform_deleteRow_of_ok (hi.deleteOne_eq_discard s.id)
  have hrow := (World.completes_removeIfPresent hf hkey).bind (f := afterRemoval s none)
    (.ask rfl hdelete (.done _ _))
  rw [hremote]
  refine ⟨_, hrow, .of_row hi rfl hf ?_ ?_, rfl, habsent⟩
  · rw [if_pos hidle, hsome]
    rfl
  · rw [if_pos hdeletes]

/-- What an idle row comes to. -/
theorem completes_idle (hf : w.faults = []) (hi : w.ledger.Indexed) {s : Session}
    (hidle : idle w s = true) :
    ∃ one error w', Completes (Peer.removeIfPresent w.table.service s.peerKey >>=
        afterRemoval s w.chain.sessions[s.id]?) w (one, error) w' [] ∧ Aligned w [s] w' ∧
      w'.chain = w.chain ∧ error.isSome = rejected w s ∧
      (error = none → one = ⟨1, if absent w s then 1 else 0⟩) := by
  cases hkey : Peer.Identity.ofKey w.table.service s.peerKey with
  | error e =>
    obtain ⟨hrow, haligned, hrejected⟩ := completes_idle_of_error hf hi hidle hkey
    exact ⟨_, _, w, hrow, haligned, rfl, hrejected.symm, nofun⟩
  | ok i =>
    have hknown : rejected w s = false := by
      rw [rejected, Peer.Identity.canonical?_of_ok hkey]
      rfl
    cases hremote : w.chain.sessions[s.id]? with
    | some remote =>
      obtain ⟨w', hrow, haligned, hchain, hpresent⟩ :=
        completes_idle_of_some hf hi hidle hkey hremote
      rw [hremote] at hrow
      refine ⟨_, _, w', hrow, haligned, hchain, hknown.symm, fun _ => ?_⟩
      rw [hpresent]
      rfl
    | none =>
      obtain ⟨w', hrow, haligned, hchain, habsent⟩ :=
        completes_idle_of_none hf hi hidle hkey hremote
      rw [hremote] at hrow
      refine ⟨_, _, w', hrow, haligned, hchain, hknown.symm, fun _ => ?_⟩
      rw [habsent]
      rfl

/-- A row whose query is answered is settled by what the chain knows of its session. -/
theorem completes_afterQuery (hs : w.table.service = config.service) (hf : w.faults = [])
    (hi : w.ledger.Indexed) (s : Session) :
    ∃ one error w', Completes (afterQuery config s (.ok w.chain.sessions[s.id]?)) w (one, error)
        w' [] ∧ Aligned w [s] w' ∧ w'.chain = w.chain ∧
      error.isSome = (idle w s && rejected w s) ∧
      (error = none → one = ⟨if idle w s then 1 else 0, if absent w s then 1 else 0⟩) := by
  cases hidle : idle w s with
  | false =>
    have hactive : w.chain.sessions[s.id]?.any (·.isActive) = true := by
      rwa [idle, Bool.not_eq_false'] at hidle
    have hpresent : absent w s = false := by
      by_contra hne
      rw [Bool.not_eq_false] at hne
      rw [idle_of_absent hne] at hidle
      exact Bool.noConfusion hidle
    have hkept : Aligned w [s] w := by
      refine .of_row hi rfl hf ?_ ?_
      · rw [hidle]
        rfl
      · rw [deletes, hpresent, Bool.false_and]
        rfl
    rw [afterQuery, if_pos hactive, hpresent]
    exact ⟨⟨0, 0⟩, none, w, .done _ w, hkept, rfl, rfl, fun _ => rfl⟩
  | true =>
    have hinactive : ¬w.chain.sessions[s.id]?.any (·.isActive) = true := by
      rw [idle, Bool.not_eq_true'] at hidle
      rw [hidle]
      exact Bool.false_ne_true
    rw [afterQuery, if_neg hinactive, ← hs]
    exact completes_idle hf hi hidle

/-- What a row comes to whose query is not exhausted. -/
theorem completes_reconcileOne_of_lt (hs : w.table.service = config.service)
    (hf : w.faults = []) (hi : w.ledger.Indexed) (s : Session)
    (h : w.chain.failingQueries < config.policies.query.attempts) :
    ∃ one error w', Completes (reconcileOne config s) w (one, error) w'
        (w.callsWithin config.policies.query.attempts s.id) ∧ Aligned w [s] w' ∧
      w'.chain.failingQueries = 0 ∧ error.isSome = (idle w s && rejected w s) ∧
      (error = none → one = ⟨if idle w s then 1 else 0, if absent w s then 1 else 0⟩) := by
  obtain ⟨w₁, hquery, halike, hqueue⟩ := World.completes_querySession config.policies s.id w
  rw [World.answerWithin_of_lt h] at hquery
  have hnone : w₁.chain.failingQueries = 0 := by omega
  have haligned : Aligned w [] w₁ := .of_alike halike hf hi
  obtain ⟨habsent, hidle, hrejected, -, -⟩ := haligned.same
  obtain ⟨one, error, w', hnext, haligned', hchain, herror, hone⟩ :=
    completes_afterQuery (haligned.service.trans hs) haligned.faults haligned.indexed s
  rw [halike.sessions] at hnext
  have hrow := hquery.bind hnext
  rw [← reconcileOne_eq, List.append_nil] at hrow
  rw [hidle, hrejected] at herror
  rw [hidle, habsent] at hone
  exact ⟨one, error, w', hrow, haligned.trans haligned', hchain ▸ hnone, herror, hone⟩

/-! ## Rows one after the other -/

/-- The number of rows whose query is exhausted, if a query has so many attempts. -/
def exhausted (attempts : Nat) (w : World) (rows : List Session) : Nat :=
  min rows.length (w.chain.failingQueries / attempts)

/-- The rows whose query is answered. -/
def answered (attempts : Nat) (w : World) (rows : List Session) : List Session :=
  rows.drop (exhausted attempts w rows)

/-- The number of rows that fail. -/
def failures (attempts : Nat) (w : World) (rows : List Session) : Nat :=
  exhausted attempts w rows +
    (answered attempts w rows).countP fun s => idle w s && rejected w s

/-- The calls of a pass over rows: queries that fail until they are exhausted, then what is
    left of the queued failures, and from then on answers from the sessions of the chain. -/
def passCalls (attempts : Nat) (w : World) (rows : List Session) : List Chain.Call :=
  ((rows.take (exhausted attempts w rows)).flatMap fun s =>
    List.replicate attempts (.query s.id (.error queryFailure))) ++
  ((answered attempts w rows).head?.toList.flatMap fun s =>
    List.replicate (w.chain.failingQueries % attempts) (.query s.id (.error queryFailure))) ++
  (answered attempts w rows).map fun s => .query s.id (.ok w.chain.sessions[s.id]?)

section Counting

variable {attempts : Nat} {w' : World} {s : Session} {rows : List Session}

theorem exhausted_cons_of_le (hpos : 0 < attempts) (h : attempts ≤ w.chain.failingQueries)
    (hqueue : w'.chain.failingQueries = w.chain.failingQueries - attempts) :
    exhausted attempts w (s :: rows) = exhausted attempts w' rows + 1 := by
  unfold exhausted
  rw [hqueue, Nat.div_eq_sub_div hpos h, List.length_cons]
  omega

theorem exhausted_of_lt (h : w.chain.failingQueries < attempts) (rows : List Session) :
    exhausted attempts w rows = 0 := by
  unfold exhausted
  rw [Nat.div_eq_of_lt h, Nat.min_zero]

theorem answered_of_lt (h : w.chain.failingQueries < attempts) (rows : List Session) :
    answered attempts w rows = rows := by
  rw [answered, exhausted_of_lt h, List.drop_zero]

theorem answered_cons_of_le (hpos : 0 < attempts) (h : attempts ≤ w.chain.failingQueries)
    (hqueue : w'.chain.failingQueries = w.chain.failingQueries - attempts) :
    answered attempts w (s :: rows) = answered attempts w' rows := by
  rw [answered, exhausted_cons_of_le hpos h hqueue, List.drop_succ_cons, answered]

theorem passCalls_cons_of_le (hpos : 0 < attempts) (h : attempts ≤ w.chain.failingQueries)
    (hqueue : w'.chain.failingQueries = w.chain.failingQueries - attempts)
    (hsessions : w'.chain.sessions = w.chain.sessions) :
    passCalls attempts w (s :: rows) = w.callsWithin attempts s.id ++ passCalls attempts w' rows := by
  rw [World.callsWithin_of_le h]
  unfold passCalls
  rw [answered_cons_of_le hpos h hqueue, exhausted_cons_of_le hpos h hqueue, hqueue, hsessions,
    Nat.mod_eq_sub_mod h, List.take_succ_cons, List.flatMap_cons, List.append_assoc,
    List.append_assoc, List.append_assoc]

theorem passCalls_cons_of_lt (h : w.chain.failingQueries < attempts)
    (hqueue : w'.chain.failingQueries = 0) (hsessions : w'.chain.sessions = w.chain.sessions) :
    passCalls attempts w (s :: rows) = w.callsWithin attempts s.id ++ passCalls attempts w' rows := by
  have hlt : w'.chain.failingQueries < attempts := by omega
  unfold passCalls World.callsWithin
  rw [answered_of_lt h, answered_of_lt hlt, exhausted_of_lt h, exhausted_of_lt hlt, if_pos h,
    Nat.mod_eq_of_lt h, Nat.min_eq_left (Nat.le_of_lt h), hqueue, Nat.zero_mod, hsessions]
  simp

theorem failures_of_lt (h : w.chain.failingQueries < attempts) (rows : List Session) :
    failures attempts w rows = rows.countP fun s => idle w s && rejected w s := by
  rw [failures, exhausted_of_lt h, answered_of_lt h, Nat.zero_add]

theorem failures_cons_of_le (hpos : 0 < attempts) (h : attempts ≤ w.chain.failingQueries)
    (hqueue : w'.chain.failingQueries = w.chain.failingQueries - attempts)
    (hidle : idle w' = idle w) (hrejected : rejected w' = rejected w) :
    failures attempts w (s :: rows) = failures attempts w' rows + 1 := by
  unfold failures
  rw [exhausted_cons_of_le hpos h hqueue, answered_cons_of_le hpos h hqueue, hidle, hrejected]
  omega

end Counting

/-- A row, and then the others. -/
theorem completes_cons {w₁ w₂ : World} {s : Session} {rows : List Session} {one rest : Reconciled}
    {error : Option Error} {failed : Nat} {xs ys : List Chain.Call}
    (hone : Completes (reconcileOne config s) w (one, error) w₁ xs)
    (hrest : Completes (reconcile config rows) w₁ (rest, failed) w₂ ys) :
    Completes (reconcile config (s :: rows)) w
      (⟨one.peersRemoved + rest.peersRemoved, one.rowsDeleted + rest.rowsDeleted⟩,
        if error.isSome then failed + 1 else failed) w₂ (xs ++ ys) := by
  have hadd := hrest.bind (f := fun r => Program.done
    ((⟨one.peersRemoved + r.1.peersRemoved, one.rowsDeleted + r.1.rowsDeleted⟩ : Reconciled),
      if error.isSome then r.2 + 1 else r.2)) (.done _ w₂)
  rw [List.append_nil] at hadd
  exact hone.bind hadd

/-- Rows have been settled, one after the other: the calls that were made, the rows that
    failed, what is left, and the numbers if no row failed. -/
structure Settled (config : NodeConfig) (w : World) (rows : List Session) (done : Reconciled)
    (w' : World) : Prop where
  completes : Completes (reconcile config rows) w
    (done, failures config.policies.query.attempts w rows) w'
    (passCalls config.policies.query.attempts w rows)
  aligned : Aligned w (answered config.policies.query.attempts w rows) w'
  counted : failures config.policies.query.attempts w rows = 0 →
    done = ⟨rows.countP (idle w), rows.countP (absent w)⟩

namespace Settled

variable {w₁ w' : World} {s : Session} {rows : List Session} {one rest : Reconciled}
  {error : Option Error}

theorem nil (hf : w.faults = []) (hi : w.ledger.Indexed) : Settled config w [] ⟨0, 0⟩ w := by
  have hexhausted : exhausted config.policies.query.attempts w [] = 0 := Nat.zero_min _
  have hanswered : answered config.policies.query.attempts w [] = [] := List.drop_nil
  refine ⟨?_, ?_, fun _ => rfl⟩
  · rw [failures, passCalls, hanswered, hexhausted]
    exact .done _ w
  · rw [hanswered]
    exact .of_alike (.refl w) hf hi

/-- A row whose query is exhausted before others. -/
theorem cons_of_le (hle : config.policies.query.attempts ≤ w.chain.failingQueries)
    (hone : Completes (reconcileOne config s) w (⟨0, 0⟩, some (.chain queryFailure)) w₁
      (w.callsWithin config.policies.query.attempts s.id)) (haligned : Aligned w [] w₁)
    (hqueue : w₁.chain.failingQueries =
      w.chain.failingQueries - config.policies.query.attempts)
    (h : Settled config w₁ rows rest w') :
    Settled config w (s :: rows) ⟨0 + rest.peersRemoved, 0 + rest.rowsDeleted⟩ w' := by
  have hpos := config.policies.query.attempts_pos
  obtain ⟨-, hidle, hrejected, -, -⟩ := haligned.same
  have hfailures : failures config.policies.query.attempts w (s :: rows) =
      failures config.policies.query.attempts w₁ rows + 1 :=
    failures_cons_of_le hpos hle hqueue hidle hrejected
  refine ⟨?_, ?_, fun hnone => ?_⟩
  · rw [hfailures, passCalls_cons_of_le hpos hle hqueue haligned.sessions]
    exact completes_cons hone h.completes
  · rw [answered_cons_of_le hpos hle hqueue]
    exact haligned.trans h.aligned
  · rw [hfailures] at hnone
    exact absurd hnone (Nat.succ_ne_zero _)

/-- A row whose query is answered before others, which are then all answered. -/
theorem cons_of_lt (hlt : w.chain.failingQueries < config.policies.query.attempts)
    (hone : Completes (reconcileOne config s) w (one, error) w₁
      (w.callsWithin config.policies.query.attempts s.id)) (haligned : Aligned w [s] w₁)
    (hqueue : w₁.chain.failingQueries = 0) (herror : error.isSome = (idle w s && rejected w s))
    (hcount : error = none → one = ⟨if idle w s then 1 else 0, if absent w s then 1 else 0⟩)
    (h : Settled config w₁ rows rest w') :
    Settled config w (s :: rows)
      ⟨one.peersRemoved + rest.peersRemoved, one.rowsDeleted + rest.rowsDeleted⟩ w' := by
  have hlt₁ : w₁.chain.failingQueries < config.policies.query.attempts := by omega
  obtain ⟨habsent, hidle, hrejected, -, -⟩ := haligned.same
  have hfailures : failures config.policies.query.attempts w (s :: rows) =
      if error.isSome then failures config.policies.query.attempts w₁ rows + 1
      else failures config.policies.query.attempts w₁ rows := by
    rw [failures_of_lt hlt, failures_of_lt hlt₁, List.countP_cons, hidle, hrejected, herror]
    split <;> rfl
  refine ⟨?_, ?_, fun hnone => ?_⟩
  · rw [hfailures, passCalls_cons_of_lt hlt hqueue haligned.sessions]
    exact completes_cons hone h.completes
  · have haligned' := h.aligned
    rw [answered_of_lt hlt₁] at haligned'
    rw [answered_of_lt hlt]
    exact haligned.trans haligned'
  · rw [hfailures] at hnone
    cases error with
    | some e => exact absurd hnone (Nat.succ_ne_zero _)
    | none =>
      rw [hcount rfl, h.counted hnone, hidle, habsent, List.countP_cons, List.countP_cons,
        Nat.add_comm (rows.countP _), Nat.add_comm (rows.countP _)]

end Settled

/-- Rows are settled whatever their number and whatever fails. -/
theorem exists_settled (rows : List Session) (hs : w.table.service = config.service)
    (hf : w.faults = []) (hi : w.ledger.Indexed) : ∃ done w', Settled config w rows done w' := by
  induction rows generalizing w with
  | nil => exact ⟨_, w, .nil hf hi⟩
  | cons s rows ih =>
    rcases Nat.lt_or_ge w.chain.failingQueries config.policies.query.attempts with hlt | hle
    · obtain ⟨one, error, w₁, hone, haligned, hqueue, herror, hcount⟩ :=
        completes_reconcileOne_of_lt hs hf hi s hlt
      obtain ⟨rest, w', hrest⟩ :=
        ih (haligned.service.trans hs) haligned.faults haligned.indexed
      exact ⟨_, w', .cons_of_lt hlt hone haligned hqueue herror hcount hrest⟩
    · obtain ⟨w₁, hone, halike, hqueue⟩ := completes_reconcileOne_of_le s hle
      have haligned : Aligned w [] w₁ := .of_alike halike hf hi
      obtain ⟨rest, w', hrest⟩ :=
        ih (haligned.service.trans hs) haligned.faults haligned.indexed
      exact ⟨_, w', .cons_of_le hle hone haligned hqueue hrest⟩

/-! ## A pass -/

/-- A pass reads the rows, settles them, and gives the numbers or an error. -/
theorem completes_sessionValidationRun {w' : World} {done : Reconciled} {failed : Nat}
    {made : List Chain.Call} (hi : w.ledger.Indexed)
    (hrows : Completes (reconcile config w.ledger.sessions) w (done, failed) w' made) :
    Completes (sessionValidationRun config) w
      (if failed = 0 then .ok done else .error (.reconcile failed w.ledger.sessions.length)) w'
      made := by
  have hfind : World.perform (.findRows .all) w = (.ok w.ledger.sessions, w) :=
    World.perform_findRows_all hi
  have hresult := hrows.bind (f := fun r => Program.done
    (if r.2 = 0 then Except.ok r.1 else .error (Error.reconcile r.2 w.ledger.sessions.length)))
    (.done _ w')
  rw [List.append_nil] at hresult
  exact .ask rfl hfind hresult

/-- A pass that aligns the ledger with the chain. Any operations have led to the ledger; the
    peers in memory, the sessions of the chain and the number of queries that fail are any.
    The rows are taken by ascending id. As many of the first rows fail at their query as the
    failures suffice for, and all others are answered from the sessions of the chain. A row
    is deleted exactly if it was answered, its session is absent, and the kind of service
    knows its peer key. A peer is disconnected exactly if its key is the canonical form of
    the peer key of a row that was answered and whose session is absent or not active.
    Nothing else changes. If rows fail, the error names how many, and of how many; else the
    result counts the rows whose session is absent or not active, and of these the rows
    whose session is absent. -/
theorem sessionValidation_exact (config : NodeConfig) (ops : List Ledger.Operation)
    (peers : Std.ExtTreeMap String Peer.Usage) (capacity removals : Nat) (w : World) :
    let before : World := { w with
      ledger := .after ops, table := ⟨config.service, capacity, peers, removals⟩, faults := [] }
    let rows := before.ledger.sessions
    let attempts := config.policies.query.attempts
    let answered := rows.drop (min rows.length (before.chain.failingQueries / attempts))
    let failed := min rows.length (before.chain.failingQueries / attempts) +
      answered.countP fun s => idle before s && rejected before s
    (rows.map (·.id)).Pairwise (· < ·) ∧ (∀ s, s ∈ rows ↔ before.ledger.Holds s.id s) ∧
    ∃ result after, before.run (sessionValidationRun config) = (.value result, after) ∧
      Chain.calls ((sessionValidationRun config).exchanges World.perform before) =
        passCalls attempts before rows ∧
      (∀ id s, after.ledger.Holds id s ↔ before.ledger.Holds id s ∧
        ¬(s ∈ answered ∧ absent before s = true ∧ rejected before s = false)) ∧
      (∀ key, after.table.peers[key]? =
        if answered.any fun s => idle before s && canonical? config.service s.peerKey == some key
        then none else peers[key]?) ∧
      result = if failed = 0 then .ok ⟨rows.countP (idle before), rows.countP (absent before)⟩
        else .error (.reconcile failed rows.length) := by
  intro before rows attempts answered failed
  have hi : before.ledger.Indexed := .after ops
  have hservice : before.table.service = config.service := rfl
  have hfaults : before.faults = [] := rfl
  obtain ⟨done, after, hrows, haligned, hdone⟩ := exists_settled rows hservice hfaults hi
  have hpass := completes_sessionValidationRun hi hrows
  refine ⟨hi.sessions_ascending, fun s => hi.mem_sessions, _, after, hpass.run_eq, hpass.calls_eq,
    fun id s => ?_, haligned.peers, ?_⟩
  · rw [haligned.holds]
    refine and_congr_right fun hs => ?_
    have hid : s.id = id := hi.id_eq hs
    constructor
    · rintro hkept ⟨hmem, habsent, hrejected⟩
      refine hkept s hmem ?_ hid
      rw [deletes, habsent, hrejected]
      rfl
    · rintro hkept t hmem hdeletes rfl
      have ht : before.ledger.Holds t.id t := hi.mem_sessions.1 (List.mem_of_mem_drop hmem)
      obtain rfl := ht.unique hs
      rw [deletes, Bool.and_eq_true, Bool.not_eq_true'] at hdeletes
      exact hkept ⟨hmem, hdeletes.1, hdeletes.2⟩
  · show (if failed = 0 then _ else _) = _
    split
    · rename_i hnone
      rw [hdone hnone]
    · rfl

end VpnNode.Job
