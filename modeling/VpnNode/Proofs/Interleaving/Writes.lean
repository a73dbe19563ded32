import VpnNode.Proofs.Interleaving.Basic
import VpnNode.Proofs.Ledger.Transaction

/-!
# Operations on a ledger beside each other

Clones of a store work on one ledger. Between the look-up of an operation and its
transaction, others may do theirs.

An update stays within its filter whatever has happened since its look-up. A removal takes
what then stands under its ids; as updates keep the fields that a filter fixes, only a row
that was stored after the look-up can fail the filter.

Main statements:

* `Write.Informed.commit`: what an operation knows from its look-up outlasts the transactions
  of others.
* `Store.Sound.turn`: the invariant outlasts every turn.
* `concurrent_writes`: which rows the updates and the removals of any operations write.
-/

namespace VpnNode.Interleaving

open Ledger (Operation Filter Update)

variable {l l' : Ledger} {s t : Session} {id : UInt64}

/-! ## Writes in flight -/

/-- An operation after its look-up. -/
structure Write where
  operation : Operation
  ids : List UInt64
  /-- How many transactions had been committed at the look-up. -/
  since : Nat

/-- A transaction that was committed. -/
structure Commit where
  write : Write
  before : Ledger
  /-- The rows that it stored, rewrote or removed. -/
  rows : List Session
  after : Ledger

/-- A ledger, the operations that are between their two steps, in the order of their look-ups,
    and the transactions so far. -/
structure Store where
  ledger : Ledger
  pending : List Write
  log : List Commit

/-- What happens next. -/
inductive Turn where
  /-- An operation does its look-up. -/
  | begin (op : Operation)
  /-- A pending operation, by its place, does its transaction and returns. -/
  | commit (k : Nat)

namespace Store

/-- Nobody has begun. -/
def start (l : Ledger) : Store := ⟨l, [], []⟩

/-- A step of an operation that fails ends it. -/
def turn (s : Store) : Turn → Store
  | .begin op =>
    match op.lookUp s.ledger with
    | .error _ => s
    | .ok ids => { s with pending := s.pending ++ [⟨op, ids, s.log.length⟩] }
  | .commit k =>
    match s.pending[k]? with
    | none => s
    | some w =>
      match w.operation.transact s.ledger w.ids with
      | .error _ => { s with pending := s.pending.eraseIdx k }
      | .ok (rows, l) => ⟨l, s.pending.eraseIdx k, s.log ++ [⟨w, s.ledger, rows, l⟩]⟩

def after (s : Store) (turns : List Turn) : Store := turns.foldl turn s

/-- An operation whose steps follow each other does what it does alone. -/
theorem ledger_after_alone (l : Ledger) (op : Operation) :
    ((start l).after [.begin op, .commit 0]).ledger = l.perform op := by
  rw [l.perform_eq_transact op]
  show (((start l).turn (.begin op)).turn (.commit 0)).ledger = _
  cases hids : op.lookUp l with
  | error e => simp [turn, start, hids]
  | ok ids =>
    simp only [turn, start, hids, List.nil_append, List.getElem?_cons_zero]
    cases op.transact l ids <;> rfl

end Store

/-! ## What committed transactions have written -/

/-- One of these transactions, after the first few, stored the row; since then at most its
    usage has changed. -/
def StoredSince (log : List Commit) (since : Nat) (s : Session) : Prop :=
  ∃ j c, since ≤ j ∧ log[j]? = some c ∧ c.write.operation.adds = true ∧ ∃ t ∈ c.rows, t.Fixed s

namespace StoredSince

variable {log : List Commit} {since : Nat}

theorem fixed (h : StoredSince log since s) (hst : s.Fixed t) : StoredSince log since t := by
  obtain ⟨j, c, hj, hc, hadds, r, hr, hrs⟩ := h
  exact ⟨j, c, hj, hc, hadds, r, hr, hrs.trans hst⟩

theorem concat (h : StoredSince log since s) (c : Commit) : StoredSince (log ++ [c]) since s := by
  obtain ⟨j, d, hj, hd, hstored⟩ := h
  have hlt := (List.getElem?_eq_some_iff.1 hd).1
  exact ⟨j, d, hj, (List.getElem?_append_left hlt).trans hd, hstored⟩

/-- The transaction that is committed now stored the row. -/
theorem last (hsince : since ≤ log.length) {c : Commit} (hadds : c.write.operation.adds = true)
    (hs : s ∈ c.rows) : StoredSince (log ++ [c]) since s :=
  ⟨log.length, c, hsince, List.getElem?_concat_length, hadds, s, hs, .refl s⟩

end StoredSince

/-- What a transaction may have written, after earlier ones. -/
structure Commit.Confined (earlier : List Commit) (c : Commit) : Prop where
  since_le : c.write.since ≤ earlier.length
  /-- An update wrote rows that matched its filter in the ledger that its transaction found,
      and left all others as they were. -/
  updates : ∀ f u, c.write.operation.revision? = some (f, u) →
    (∀ t ∈ c.rows, ∃ s, c.before.Holds s.id s ∧ f.matchesRow s = true ∧ u.apply s = .ok t ∧
      c.after.Holds s.id t) ∧
    ∀ id, (∀ t ∈ c.rows, t.id ≠ id) → c.after.rows[id]? = c.before.rows[id]?
  /-- A removal took rows that matched its filter in the ledger that its transaction found,
      or that were stored after its look-up, and no others. -/
  removals : ∀ f, c.write.operation.removal? = some f →
    (∀ s ∈ c.rows, c.before.Holds s.id s ∧
      (f.matchesRow s = true ∨ StoredSince earlier c.write.since s)) ∧
    ∀ id s, c.after.Holds id s ↔ c.before.Holds id s ∧ s ∉ c.rows
  /-- A removal with a filter on ids alone took rows that matched it. -/
  removals_byId : ∀ f, c.write.operation.removal? = some f → f.peerKey = none →
    f.accountAddress = none → f.service = none → ∀ s ∈ c.rows, f.matchesRow s = true

/-! ## What calls in flight know -/

/-- What a call still knows of the ledger from its look-up. -/
structure Write.Informed (l : Ledger) (log : List Commit) (c : Write) : Prop where
  nodup : c.ids.Nodup
  since_le : c.since ≤ log.length
  /-- Under the ids of a removal stand rows that match, unless they are new. -/
  known : ∀ f, c.operation.removal? = some f → ∀ id ∈ c.ids, ∀ s, l.Holds id s →
    f.matchesRow s = true ∨ StoredSince log c.since s
  /-- A removal that fixes the id works on no other. -/
  id_eq : ∀ f, c.operation.removal? = some f → ∀ id ∈ c.ids, ∀ wanted ∈ f.id, id = wanted

namespace Write.Informed

variable {log : List Commit} {c d : Write} {rows : List Session}

/-- A call that has just looked its ids up. -/
theorem of_lookUp (h : l.Indexed) {op : Operation} {ids : List UInt64}
    (hids : op.lookUp l = .ok ids) (log : List Commit) : Informed l log ⟨op, ids, log.length⟩ := by
  obtain ⟨hnodup, hmatch⟩ := h.of_lookUp hids
  refine ⟨hnodup, Nat.le_refl _, fun f hf id hid s hs => ?_, fun f hf id hid wanted hw => ?_⟩
  · obtain ⟨r, hr, hm⟩ := hmatch f hf id hid
    rw [hs.unique hr]
    exact .inl hm
  · obtain ⟨r, hr, hm⟩ := hmatch f hf id hid
    rw [← h.id_eq hr]
    exact (Filter.matchesRow_iff.1 hm).1 wanted hw

/-- What a call knows outlasts the transaction of another. -/
theorem commit (h : l.Indexed) (hc : c.Informed l log) (hd : d.Informed l log)
    (hop : d.operation.transact l d.ids = .ok (rows, l')) :
    c.Informed l' (log ++ [⟨d, l, rows, l'⟩]) where
  nodup := hc.nodup
  since_le := by
    rw [List.length_append]
    exact Nat.le_add_right_of_le hc.since_le
  known f hf id hid t ht := by
    obtain ⟨s, hs, hst⟩ | ⟨hadds, hmem⟩ := h.holds_of_transact hd.nodup hop ht
    · refine (hc.known f hf id hid s hs).imp (fun hm => ?_) fun hstored => ?_
      · rwa [f.matchesRow_fixed hst]
      · exact (hstored.fixed hst).concat _
    · exact .inr (.last hc.since_le hadds hmem)
  id_eq := hc.id_eq

/-- What a call writes, given what it knows. -/
theorem confined (h : l.Indexed) (hc : c.Informed l log)
    (hop : c.operation.transact l c.ids = .ok (rows, l')) :
    Commit.Confined log ⟨c, l, rows, l'⟩ := by
  obtain ⟨-, ⟨hupdate, hremoval⟩, -⟩ | ⟨f, u, hupdate, hremoval, hu⟩ | ⟨f, hremoval, hupdate, hd⟩ :=
    c.operation.transact_cases hop
  · refine ⟨hc.since_le, fun f u hf => ?_, fun f hf => ?_, fun f hf => ?_⟩
    · exact nomatch hupdate.symm.trans hf
    · exact nomatch hremoval.symm.trans hf
    · exact nomatch hremoval.symm.trans hf
  · obtain ⟨hwritten, hothers⟩ := h.mem_of_updateIds hc.nodup hu
    refine ⟨hc.since_le, fun f' u' hf => ?_, fun f hf => ?_, fun f hf => ?_⟩
    · cases hupdate.symm.trans hf
      refine ⟨fun t ht => ?_, hothers⟩
      obtain ⟨s, hs, -, hrest⟩ := hwritten t ht
      exact ⟨s, hs, hrest⟩
    · exact nomatch hremoval.symm.trans hf
    · exact nomatch hremoval.symm.trans hf
  · obtain ⟨hremoved, hleft⟩ := h.mem_of_deleteIds_iff hd
    refine ⟨hc.since_le, fun f u hf => ?_, fun f' hf => ?_,
      fun f' hf hkey haccount hservice s hs => ?_⟩
    · exact nomatch hupdate.symm.trans hf
    · cases hremoval.symm.trans hf
      refine ⟨fun s hs => ?_, fun id s => ?_⟩
      · obtain ⟨hs, hid⟩ := (hremoved s).1 hs
        exact ⟨hs, hc.known f hremoval s.id hid s hs⟩
      · rw [hleft, hremoved]
        refine and_congr_right fun hs => ?_
        rw [h.id_eq hs, and_iff_right hs]
    · cases hremoval.symm.trans hf
      obtain ⟨-, hid⟩ := (hremoved s).1 hs
      refine Filter.matchesRow_iff.2 ⟨hc.id_eq f hremoval s.id hid, ?_, ?_, ?_⟩
      · rw [hkey]; exact nofun
      · rw [haccount]; exact nofun
      · rw [hservice]; exact nofun

end Write.Informed

/-! ## Any number of turns -/

/-- Every call in flight knows what it looked up, and every transaction has kept to it. -/
structure Store.Sound (s : Store) : Prop where
  indexed : s.ledger.Indexed
  informed : ∀ c ∈ s.pending, c.Informed s.ledger s.log
  confined : ∀ (k : Nat) c, s.log[k]? = some c → c.Confined (s.log.take k)

namespace Store.Sound

variable {s : Store}

theorem start (h : l.Indexed) : (Store.start l).Sound :=
  ⟨h, List.forall_mem_nil _, fun k c hc => by cases hc⟩

/-- The invariant outlasts every turn. -/
theorem turn (h : s.Sound) (a : Turn) : (s.turn a).Sound := by
  cases a with
  | begin op =>
    cases hids : op.lookUp s.ledger with
    | error e =>
      simp only [Store.turn, hids]
      exact h
    | ok ids =>
      simp only [Store.turn, hids]
      refine ⟨h.indexed, fun c hc => ?_, h.confined⟩
      rcases List.mem_append.1 hc with hc | hc
      · exact h.informed c hc
      · obtain rfl := List.mem_singleton.1 hc
        exact .of_lookUp h.indexed hids s.log
  | commit k =>
    cases hk : s.pending[k]? with
    | none =>
      simp only [Store.turn, hk]
      exact h
    | some d =>
      have hd := h.informed d (List.mem_of_getElem? hk)
      cases hop : d.operation.transact s.ledger d.ids with
      | error e =>
        simp only [Store.turn, hk, hop]
        exact ⟨h.indexed, fun c hc => h.informed c (List.mem_of_mem_eraseIdx hc), h.confined⟩
      | ok x =>
        obtain ⟨rows, l⟩ := x
        simp only [Store.turn, hk, hop]
        refine ⟨h.indexed.transact hop, fun c hc => ?_, fun j c hc => ?_⟩
        · exact (h.informed c (List.mem_of_mem_eraseIdx hc)).commit h.indexed hd hop
        · rcases getElem?_concat_iff.1 hc with hc | ⟨rfl, rfl⟩
          · have hlt := (List.getElem?_eq_some_iff.1 hc).1
            rw [List.take_append_of_le_length (Nat.le_of_lt hlt)]
            exact h.confined j c hc
          · rw [List.take_left]
            exact hd.confined h.indexed hop

theorem after (h : s.Sound) (turns : List Turn) : (s.after turns).Sound := by
  induction turns generalizing s with
  | nil => exact h
  | cons a turns ih => exact ih (h.turn a)

end Store.Sound

/-- Any number of operations run beside each other on a ledger that operations have led to,
    interleaved in any way at their look-ups and transactions. Every row that an update
    rewrites matches the filter of that update in the ledger that its transaction finds, and
    no other row changes. A removal takes rows that match its filter in that ledger, or rows
    that another call has stored since its look-up; if its filter is on ids alone, all of
    them match. -/
theorem concurrent_writes (ops : List Operation) (turns : List Turn) (k : Nat) (c : Commit) :
    let log := ((Store.start (.after ops)).after turns).log
    log[k]? = some c → c.Confined (log.take k) :=
  ((Store.Sound.start (.after ops)).after turns).confined k c

/-! ## A sample -/

/-- A session that a client opens at a moment; all of them have the same id. -/
def sampleVisit (account key : String) : Session :=
  .new 1 account "sentnode142424242424242424242424242424242snv569" key .wireguard
    ⟨⟨2024, 4, 1, by decide⟩, ⟨3600, by decide⟩, ⟨1, by decide⟩⟩

/-- The session that is there first. -/
def firstVisit : Session :=
  sampleVisit "sent1qyqszqgpqyqszqgpqyqszqgpqyqszqgpfgh8fn"
    "AQEBAQEBAQEBAQEBAQEBAQEBAQEBAQEBAQEBAQEBAQE="

/-- The session of another account that takes its place. -/
def secondVisit : Session :=
  sampleVisit "sent1qvpsxqcrqvpsxqcrqvpsxqcrqvpsxqcreusrgy"
    "AgICAgICAgICAgICAgICAgICAgICAgICAgICAgICAgI="

/-- The sessions of the first account. -/
def firstAccount : Filter := { Filter.all with accountAddress := some firstVisit.accountAddress }

/-- While the sessions of the first account are removed, its session goes, and the id comes
    back with the session of another account. -/
def sampleTurns : List Turn :=
  [.begin (.deleteMany firstAccount), .begin (.deleteOne (.byId 1)), .commit 1,
    .begin (.insert secondVisit), .commit 1, .commit 0]

/-- The last of these transactions removes the session of the other account. -/
theorem sampleTurns_log :
    (((Store.start (.after [.insert firstVisit])).after sampleTurns).log[2]?.map fun c =>
        (c.write.operation.removal?, c.write.since, c.rows)) =
      some (some firstAccount, 0, [secondVisit]) := by
  decide +kernel

/-- Nothing but a row that was stored since its look-up leads a removal out of its filter. -/
theorem removal_confined_sampleTurns :
    let log := ((Store.start (.after [.insert firstVisit])).after sampleTurns).log
    ∃ c, log[2]? = some c ∧ c.before.Holds secondVisit.id secondVisit ∧
      StoredSince (log.take 2) 0 secondVisit := by
  intro log
  obtain ⟨c, hc, heq⟩ := Option.map_eq_some_iff.1 sampleTurns_log
  simp only [Prod.mk.injEq] at heq
  obtain ⟨hremoval, hsince, hrows⟩ := heq
  obtain ⟨htaken, -⟩ :=
    (concurrent_writes [.insert firstVisit] sampleTurns 2 c hc).removals firstAccount hremoval
  have hmem : secondVisit ∈ c.rows := by
    rw [hrows]
    exact List.mem_cons_self
  obtain ⟨hholds, hmatch⟩ := htaken secondVisit hmem
  rw [hsince] at hmatch
  exact ⟨c, hc, hholds, hmatch.resolve_left (by decide)⟩

/-- Not every row that a removal takes matches its filter when its transaction is committed. -/
theorem removal_not_within_filter :
    ¬ ∀ ops turns (k : Nat) c f s, ((Store.start (.after ops)).after turns).log[k]? = some c →
      c.write.operation.removal? = some f → s ∈ c.rows → f.matchesRow s = true := by
  intro h
  obtain ⟨c, hc, heq⟩ := Option.map_eq_some_iff.1 sampleTurns_log
  simp only [Prod.mk.injEq] at heq
  obtain ⟨hremoval, -, hrows⟩ := heq
  have hmem : secondVisit ∈ c.rows := by
    rw [hrows]
    exact List.mem_cons_self
  exact absurd (h _ _ 2 c firstAccount secondVisit hc hremoval hmem) (by decide)

end VpnNode.Interleaving
