import VpnNode.Proofs.Admission.Decision
import VpnNode.Proofs.Program.Safe
import VpnNode.Proofs.Remote.Sidecar
import VpnNode.Proofs.Simulation.Network

/-!
# Refused admissions and a backend over HTTP

An admission adds its peer after all its checks, and removes it again if the session cannot
be stored. Where the backend is reached over HTTP, the peer is there as soon as the backend
says so with its status; the body that goes with it is read afterwards. If it cannot be read,
the client is refused, and nobody removes the peer.

Main statements:

* `Untouched.answer`: up to the connection nothing happens to the peers.
* `run_connect_leaves`: what the connection comes to over HTTP.
* `refusal_keeps_peers_iff`: when a refused admission leaves the peers as they were.
-/

namespace VpnNode.Admission

open Http (Transmission)
open Simulation (World)
open Simulation.World (performOver logging traffic afterProbe)

/-! ## Before the connection -/

/-- A request that does not concern the peers. -/
def Aside : VpnNode.Request → Prop
  | .sleep _ | .now | .querySession _ | .findRows _ => True
  | _ => False

variable {config : NodeConfig} {network : Http.Request → ν → Option Http.Response × ν}
  {peers : ν → Std.ExtTreeMap String Peer.Usage}

/-- The peers are as they were, and only questions have been sent. -/
def Untouched (peers : ν → Std.ExtTreeMap String Peer.Usage)
    (before : Std.ExtTreeMap String Peer.Usage) (s : World × ν × List Transmission) : Prop :=
  peers s.2.1 = before ∧ ∀ t ∈ s.2.2, t.request.method = .get

theorem Untouched.answer (h : Sidecar.Keeps config.backendUrl network peers)
    {before : Std.ExtTreeMap String Peer.Usage} {r : VpnNode.Request} (hr : Aside r)
    {s : World × ν × List Transmission} (hs : Untouched peers before s) :
    Untouched peers before (performOver config (logging network) r s).2 := by
  cases r with
  | querySession id =>
    refine ⟨(h.query _ id s.2.1).trans hs.1, fun t ht => ?_⟩
    rcases List.mem_append.1 ht with ht | ht
    · exact hs.2 t ht
    · obtain rfl := List.mem_singleton.1 ht
      rfl
  | sleep ms => exact hs
  | now => exact hs
  | findRows f => exact hs
  | _ => exact hr.elim

theorem safe_querySession (fair : (r : VpnNode.Request) → r.Answer → Prop) (p : Chain.Policies)
    (id : UInt64) : Program.Safe fair Aside (Chain.querySession p id) fun _ => True := by
  unfold Chain.querySession Chain.retrying
  exact .retry (fun _ => .request trivial) (.request trivial)

theorem safe_checkLedger (fair : (r : VpnNode.Request) → r.Answer → Prop) (id : UInt64)
    (key : String) : Program.Safe fair Aside (checkLedger id key) fun _ => True := by
  refine .ask trivial fun x _ => ?_
  obtain e | (_ | ⟨s, ss⟩) := x
  · trivial
  · refine .ask trivial fun y _ => ?_
    obtain e | (_ | ⟨s, ss⟩) := y <;> trivial
  · trivial

/-! ## What an admission leaves at the backend -/

/-- If an addition succeeded, then its answer could be read. -/
def AdditionRead (t : Transmission) : Prop :=
  t.request.method = .post → ∀ a, t.answer = some a → a.isSuccess = true →
    Sidecar.hasData a = true

/-- What an admission leaves of the peers, by its result and by what went over the network. -/
structure Leaves (before after : Std.ExtTreeMap String Peer.Usage)
    (x : Except Error (List UInt8)) (log : List Transmission) : Prop where
  grows : after = before ∨
    ∃ key usage, before.contains key = false ∧ after = before.insert key usage
  admitted : x.isOk → after ≠ before
  refused : ¬ x.isOk → (after = before ↔ ∀ t ∈ log, AdditionRead t)

theorem insert_ne {before : Std.ExtTreeMap String Peer.Usage} {key : String} {usage : Peer.Usage}
    (h : before.contains key = false) : before.insert key usage ≠ before := by
  intro heq
  have hc := Std.ExtTreeMap.contains_insert_self (t := before) (k := key) (v := usage)
  rw [heq, h] at hc
  cases hc

variable {before after : Std.ExtTreeMap String Peer.Usage} {log : List Transmission}

namespace Leaves

/-- A refusal where nothing has happened to the peers, and all that was added was read. -/
theorem of_unchanged (e : Error) (hsame : after = before) (hlog : ∀ t ∈ log, AdditionRead t) :
    Leaves before after (.error e) log :=
  ⟨.inl hsame, nofun, fun _ => ⟨fun _ => hlog, fun _ => hsame⟩⟩

end Leaves

theorem Untouched.read {s : World × ν × List Transmission} (hs : Untouched peers before s) :
    ∀ t ∈ s.2.2, AdditionRead t := by
  intro t ht hpost
  rw [hs.2 t ht] at hpost
  cases hpost

/-! ## The connection -/

variable {service : Service} {r : Request} {remote : Chain.Session} {quota : Nat} {key : String}
  {i : Peer.Identity}

/-- The connection, request by request. -/
theorem connect_eq (hi : Peer.Identity.ofKey service key = .ok i) :
    connect service r remote quota key = .ask (.addPeer i) fun
      | .error e => .done (.error (.peer e))
      | .ok data => .ask .now fun now =>
        .ask (.insertRow (newSession service r remote quota key now)) fun
          | .ok () => .done (.ok data)
          | .error e => .ask (.hasPeer i) fun found =>
            (afterProbe i found).bind fun _ => .done (.error (.ledger e)) := by
  unfold connect Peer.addByKey Peer.withIdentity
  rw [World.removeIfPresent_eq hi, hi]
  refine congrArg (Program.ask (.addPeer i)) (funext fun added => ?_)
  cases added with
  | error e => rfl
  | ok data => rfl

/-- The peer is taken back from a backend that has it. -/
theorem run_take_back (h : Sidecar.Keeps config.backendUrl network peers) {w : World} {n : ν}
    (hc : (peers n).contains i.key = true) (log : List Transmission) (e : Error) :
    ∃ n' asked, (Program.ask (.hasPeer i) fun found =>
        (afterProbe i found).bind fun _ => .done (.error e : Except Error (List UInt8))).run
          (performOver config (logging network)) (w, n, log) =
        (.value (.error e), w, n', log ++ asked) ∧
      peers n' = (peers n).erase i.key ∧ ∀ t ∈ asked, t.request.method ≠ .post := by
  obtain ⟨a, n₁, hhas, hsame, ha⟩ := h.has i n
  rw [if_pos hc] at ha
  obtain ⟨a', n₂, hremove, ha'⟩ := h.remove i n₁
  rw [hsame, if_pos hc] at ha'
  have hfound := World.performOver_logging_of_call (w := w) (r := .hasPeer i) rfl hhas log
  have hremoved := World.performOver_logging_of_call (w := w) (r := .removePeer i) rfl hremove
    (log ++ [⟨(Sidecar.has config.backendUrl i).request, some a⟩])
  have hpresent : (Sidecar.has config.backendUrl i).read (.ok a) = .ok true :=
    Sidecar.readPresence_of_success ha
  rw [hpresent] at hfound
  refine ⟨n₂, [⟨(Sidecar.has config.backendUrl i).request, some a⟩,
    ⟨(Sidecar.remove config.backendUrl i).request, some a'⟩], ?_, ha'.2, ?_⟩
  · rw [Program.run_ask_of_answer hfound]
    refine (Program.run_ask_of_answer hremoved).trans ?_
    rw [List.append_assoc]
    rfl
  · simp [Sidecar.has, Sidecar.remove]

/-- What the connection comes to: the peer stays exactly if the client is admitted, or the
    answer to the addition cannot be read. -/
theorem run_connect_leaves (h : Sidecar.Keeps config.backendUrl network peers) {w : World} {n : ν}
    (hs : Untouched peers before (w, n, log)) :
    ∃ x w' n' log', (connect service r remote quota key).run
        (performOver config (logging network)) (w, n, log) = (.value x, w', n', log') ∧
      Leaves before (peers n') x log' := by
  cases hi : Peer.Identity.ofKey service key with
  | error e =>
    have hrefused : connect service r remote quota key = .done (.error (.peer e)) := by
      unfold connect Peer.addByKey Peer.withIdentity
      rw [hi]
      rfl
    rw [hrefused]
    exact ⟨_, w, n, log, rfl, .of_unchanged _ hs.1 hs.read⟩
  | ok i =>
    rw [connect_eq hi]
    obtain ⟨a, n₁, hadd, hadded⟩ := h.add i n
    have hsent := World.performOver_logging_of_call (w := w) (r := .addPeer i) rfl hadd log
    have hread : (Sidecar.add config.backendUrl i).read (.ok a) = Sidecar.readAddition i (.ok a) :=
      rfl
    have hiff := Sidecar.readAddition_isOk_iff (i := i) (r := a)
    rw [hread] at hsent
    rw [show peers n = before from hs.1] at hadded
    -- What the answer to the addition means for the log.
    have hlog : (∀ t ∈ log ++ [⟨(Sidecar.add config.backendUrl i).request, some a⟩],
        AdditionRead t) ↔ (a.isSuccess = true → Sidecar.hasData a = true) := by
      rw [List.forall_mem_append, List.forall_mem_singleton]
      constructor
      · exact fun hall hok => hall.2 rfl a rfl hok
      · refine fun hdata => ⟨hs.read, fun _ a' ha' => ?_⟩
        cases ha'
        exact hdata
    cases hanswer : Sidecar.readAddition i (.ok a) with
    | error e =>
      rw [hanswer] at hsent hiff
      refine ⟨_, w, n₁, _, Program.run_ask_of_answer hsent, ?_⟩
      cases hok : a.isSuccess with
      | false =>
        rw [hok, if_neg Bool.false_ne_true] at hadded
        exact .of_unchanged _ hadded (hlog.2 fun hok' => absurd hok' (by rw [hok]; decide))
      | true =>
        rw [hok, if_pos rfl] at hadded
        obtain ⟨hc, usage, hpeers⟩ := hadded
        have hunread : ¬ Sidecar.hasData a = true := fun hdata => nomatch hiff.2 ⟨hok, hdata⟩
        rw [hpeers]
        exact ⟨.inr ⟨i.key, usage, hc, rfl⟩, nofun, fun _ =>
          ⟨fun hsame => absurd hsame (insert_ne hc), fun hall => absurd (hlog.1 hall hok) hunread⟩⟩
    | ok data =>
      rw [hanswer] at hsent hiff
      obtain ⟨hok, hdata⟩ := hiff.1 rfl
      rw [hok, if_pos rfl] at hadded
      obtain ⟨hc, usage, hpeers⟩ := hadded
      have hall := hlog.2 fun _ => hdata
      rw [Program.run_ask_of_answer hsent]
      generalize log ++ [⟨(Sidecar.add config.backendUrl i).request, some a⟩] = log₁ at hall ⊢
      have hnow : performOver config (logging network) .now (w, n₁, log₁) =
          (w.wallClock, w, n₁, log₁) := rfl
      dsimp only
      rw [Program.run_ask_of_answer hnow]
      cases hins : w.ledger.insert (newSession service r remote quota key w.wallClock) with
      | ok ledger =>
        have hrow : performOver config (logging network) (.insertRow (newSession service r remote
            quota key w.wallClock)) (w, n₁, log₁) = (.ok (), { w with ledger }, n₁, log₁) := by
          rw [World.performOver_of_stays rfl, World.perform_insertRow_of_ok hins]
        refine ⟨_, _, n₁, log₁, Program.run_ask_of_answer hrow, ?_⟩
        rw [hpeers]
        exact ⟨.inr ⟨i.key, usage, hc, rfl⟩, fun _ => insert_ne hc, fun hno => absurd rfl hno⟩
      | error e =>
        have hrow : performOver config (logging network) (.insertRow (newSession service r remote
            quota key w.wallClock)) (w, n₁, log₁) = (.error e, w, n₁, log₁) := by
          rw [World.performOver_of_stays rfl, World.perform_insertRow_of_error hins]
        have hthere : (peers n₁).contains i.key = true := by
          rw [hpeers]
          exact Std.ExtTreeMap.contains_insert_self
        obtain ⟨n', asked, hrun, hback, hasked⟩ :=
          run_take_back h (w := w) hthere log₁ (.ledger e)
        refine ⟨_, w, n', _, (Program.run_ask_of_answer hrow).trans hrun, ?_⟩
        rw [hback, hpeers, Peer.Table.erase_insert hc]
        refine .of_unchanged _ rfl (List.forall_mem_append.2 ⟨hall, fun t ht hpost => ?_⟩)
        exact absurd hpost (hasked t ht)

/-! ## The admission -/

/-- What an admission comes to, with a log of what goes over the network. -/
theorem run_accept_leaves (h : Sidecar.Keeps config.backendUrl network peers) (r : Request)
    (w : World) (n : ν) :
    ∃ x w' n' log, (accept config r).run (performOver config (logging network)) (w, n, []) =
        (.value x, w', n', log) ∧ Leaves (peers n) (peers n') x log := by
  have hstep : ∀ (q : VpnNode.Request) s, Aside q → Untouched peers (peers n) s →
      True ∧ Untouched peers (peers n) (performOver config (logging network) q s).2 :=
    fun q s hq hs => ⟨trivial, hs.answer h hq⟩
  have hstart : Untouched peers (peers n) (w, n, []) := ⟨rfl, List.forall_mem_nil _⟩
  rw [accept_eq]
  cases checkRequest config.service r with
  | error e => exact ⟨_, w, n, [], rfl, .of_unchanged e rfl hstart.read⟩
  | ok key =>
    obtain ⟨fetched, ⟨w₁, n₁, log₁⟩, hquery, -, hs₁, -⟩ :=
      (safe_querySession (fun _ _ => True) config.policies r.sessionId).run hstep hstart
    dsimp only
    rw [Program.run_bind_of_value hquery]
    cases fetched with
    | error e => exact ⟨_, w₁, n₁, log₁, rfl, .of_unchanged _ hs₁.1 hs₁.read⟩
    | ok remote =>
      dsimp only
      cases checkRemote config.nodeAddress r remote with
      | error e => exact ⟨_, w₁, n₁, log₁, rfl, .of_unchanged _ hs₁.1 hs₁.read⟩
      | ok remote =>
        obtain ⟨looked, ⟨w₂, n₂, log₂⟩, hlook, -, hs₂, -⟩ :=
          (safe_checkLedger (fun _ _ => True) r.sessionId key).run hstep hs₁
        dsimp only [proceed]
        rw [Program.run_bind_of_value hlook]
        cases looked with
        | error e => exact ⟨_, w₂, n₂, log₂, rfl, .of_unchanged _ hs₂.1 hs₂.read⟩
        | ok _ =>
          cases byteQuota remote with
          | error e => exact ⟨_, w₂, n₂, log₂, rfl, .of_unchanged _ hs₂.1 hs₂.read⟩
          | ok quota => exact run_connect_leaves h hs₂

/-- An admission over HTTP, to a backend that keeps a table of peers and whose bodies are
    arbitrary, with any chain and any ledger: it always returns. It adds at most one peer,
    and one if the client is admitted. If the client is refused, the peers are as they were
    exactly if every success that the backend reported of an addition came with connection
    data that can be read. -/
theorem refusal_keeps_peers_iff (h : Sidecar.Keeps config.backendUrl network peers) (r : Request)
    (w : World) (n : ν) :
    ∃ x w' n', (accept config r).run (performOver config network) (w, n) = (.value x, w', n') ∧
      (peers n' = peers n ∨
        ∃ key usage, (peers n).contains key = false ∧ peers n' = (peers n).insert key usage) ∧
      (x.isOk → peers n' ≠ peers n) ∧
      (¬ x.isOk → (peers n' = peers n ↔
        ∀ t ∈ traffic config network (accept config r) w n, AdditionRead t)) := by
  obtain ⟨x, w', n', log, hrun, hleaves⟩ := run_accept_leaves h r w n
  obtain ⟨hplain, htraffic⟩ := World.run_of_logging hrun
  rw [htraffic]
  exact ⟨x, w', n', hplain, hleaves.grows, hleaves.admitted, hleaves.refused⟩

/-! ## A sample -/

/-- The sample node with a backend over HTTP. -/
def sampleRemoteNode : NodeConfig := { sampleNode with backendUrl := "http://sidecar" }

/-- Surroundings without rows. -/
def sampleHost : World := { sampleWorld with state := { rpc := "http://rpc-a" } }

/-- What the gateway says of the session of the sample client. -/
def sampleSessionText : String :=
  "[4,\"sent1qyqszqgpqyqszqgpqyqszqgpqyqszqgpfgh8fn\"," ++
    "\"sentnode142424242424242424242424242424242snv569\",\"0\",\"0\",\"1000000000\"," ++
    "0,3600000000000,\"active\"]"

/-- A backend that says of each peer that it has added that it has done so, but gives data that
    are no base64. -/
def garblingNetwork : Http.Request → Std.ExtTreeMap String Peer.Usage →
    Option Http.Response × Std.ExtTreeMap String Peer.Usage :=
  Sidecar.sampleNetwork sampleRemoteNode.backendUrl (Utf8.octets "\x7b\"data\":\"%\"\x7d")
    (Utf8.octets sampleSessionText)

/-- The sample client is refused, and is connected. -/
theorem run_accept_garbled :
    (match (accept sampleRemoteNode sampleRequest).run (performOver sampleRemoteNode
        garblingNetwork) (sampleHost, ∅) with
      | (.value (.error _), _, peers) => peers.contains sampleRequest.peerKey
      | _ => false) = true := by
  decide +kernel

/-- The backend has not sent what the sample client needs, and so it keeps the peer. -/
theorem refusal_keeps_peer_garbled :
    ∃ x w' peers, (accept sampleRemoteNode sampleRequest).run (performOver sampleRemoteNode
        garblingNetwork) (sampleHost, ∅) = (.value x, w', peers) ∧ ¬ x.isOk ∧ peers ≠ ∅ ∧
      ¬ ∀ t ∈ traffic sampleRemoteNode garblingNetwork (accept sampleRemoteNode sampleRequest)
        sampleHost ∅, AdditionRead t := by
  obtain ⟨x, w', peers, hrun, -, -, hrefused⟩ :=
    refusal_keeps_peers_iff
      (Sidecar.keeps_sampleNetwork sampleRemoteNode.backendUrl _ (Utf8.octets sampleSessionText))
      sampleRequest sampleHost ∅
  have hgarbled := run_accept_garbled
  unfold garblingNetwork at hgarbled ⊢
  rw [hrun] at hgarbled ⊢
  cases x with
  | ok data => cases hgarbled
  | error e =>
    have hne : peers ≠ ∅ := by
      rintro rfl
      cases hgarbled
    exact ⟨_, w', peers, rfl, nofun, hne, fun hall => hne ((hrefused nofun).2 hall)⟩

/-- Not every refused admission leaves the peers as they were. -/
theorem refusal_does_not_keep_peers :
    ¬ ∀ (config : NodeConfig) (ν : Type) (network : Http.Request → ν → Option Http.Response × ν)
      (peers : ν → Std.ExtTreeMap String Peer.Usage),
      Sidecar.Keeps config.backendUrl network peers → ∀ r w n e w' n',
        (accept config r).run (performOver config network) (w, n) = (.value (.error e), w', n') →
        peers n' = peers n := by
  intro hclaim
  have hgarbled := run_accept_garbled
  split at hgarbled
  · rename_i e w' peers hrun
    have hsame := hclaim _ _ garblingNetwork id (Sidecar.keeps_sampleNetwork _ _ _) _ _ _ e w' peers
      hrun
    rw [show peers = ∅ from hsame] at hgarbled
    cases hgarbled
  · cases hgarbled

end VpnNode.Admission
