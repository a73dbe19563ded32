import VpnNode.Proofs.Codec.Form
import VpnNode.Proofs.Peer.Table
import VpnNode.Proofs.Result
import VpnNode.Remote.Gateway
import VpnNode.Remote.Sidecar

/-!
# A backend over HTTP that keeps a table

The backend is a program of its own. What the node relies on are its statuses: what they say
of the table of peers. Nothing is said of the bodies.

Main statements:

* `readAddition_isOk_iff`: which answers to an addition can be read.
* `keeps_sampleNetwork`: a network with such a backend.
-/

namespace VpnNode

theorem Url.withQuery_injective {u : Url} {key v v' : String}
    (h : u.withQuery key v = u.withQuery key v') : v = v' := by
  have hquery := congrArg Url.query h
  simp only [withQuery, Option.some.injEq] at hquery
  refine Form.encode_injective ?_
  split at hquery
  · split at hquery
    · exact (String.append_right_inj _).1 hquery
    · exact (String.append_right_inj _).1 ((String.append_right_inj _).1 hquery)
  · exact (String.append_right_inj _).1 hquery

namespace Sidecar

open Http (Response)

/-! ## What is relied on -/

/-- A network reaches a backend that keeps a table of peers and answers by it. -/
structure Keeps (base : String) (network : Http.Request → ν → Option Response × ν)
    (peers : ν → Std.ExtTreeMap String Peer.Usage) : Prop where
  /-- An addition succeeds where it adds the peer, and changes nothing where it fails. -/
  add : ∀ i n, ∃ r n', network (Sidecar.add base i).request n = (some r, n') ∧
    if r.isSuccess then
      (peers n).contains i.key = false ∧ ∃ usage, peers n' = (peers n).insert i.key usage
    else peers n' = peers n
  /-- Whether a peer is there can be asked. -/
  has : ∀ i n, ∃ r n', network (Sidecar.has base i).request n = (some r, n') ∧
    peers n' = peers n ∧ if (peers n).contains i.key then r.isSuccess = true else r.status = 404
  /-- A peer that is there can be removed. -/
  remove : ∀ i n, ∃ r n', network (Sidecar.remove base i).request n = (some r, n') ∧
    if (peers n).contains i.key then r.isSuccess = true ∧ peers n' = (peers n).erase i.key
    else r.status = 404 ∧ peers n' = peers n
  /-- A question to the chain has nothing to do with the peers. -/
  query : ∀ rpc id n, peers (network (Gateway.querySession rpc id).request n).2 = peers n

/-- Do the octets of a body hold what a client needs to connect? -/
def hasData (r : Response) : Bool :=
  match r.json dataRecord.read with
  | .ok text => (Base64.decode text).isOk
  | .error _ => false

/-- An answer to an addition is taken as a success if its status is one and its body holds
    what a client needs. -/
theorem readAddition_isOk_iff {i : Peer.Identity} {r : Response} :
    (readAddition i (.ok r)).isOk ↔ r.isSuccess = true ∧ hasData r = true := by
  unfold readAddition hasData
  dsimp only
  cases hs : r.isSuccess with
  | false =>
    rw [if_neg Bool.false_ne_true]
    split <;> simp [Except.isOk, Except.toBool]
  | true =>
    rw [if_pos rfl]
    cases r.json dataRecord.read with
    | error f => simp [Except.isOk, Except.toBool]
    | ok text =>
      dsimp only
      rw [isOk_mapError, and_iff_right rfl]

theorem readPresence_of_success {r : Response} (h : r.isSuccess = true) :
    readPresence (.ok r) = .ok true := if_pos h

/-! ## A sample -/

/-- The key in the body of an addition. -/
def addedKey? : Http.Body → Option String
  | .json (.object [_, (_, .string key)]) => some key
  | _ => none

/-- The peer that a URL names. -/
def namedKey? (base : String) (peers : Std.ExtTreeMap String Peer.Usage) (url : Url) :
    Option String :=
  peers.keys.find? fun key => (Url.under base "/peer").withQuery "key" key = url

/-- A network with a backend and a gateway to the chain, which answer additions and questions
    for a session with these bodies. -/
def sampleNetwork (base : String) (addition session : List UInt8) (q : Http.Request)
    (peers : Std.ExtTreeMap String Peer.Usage) :
    Option Response × Std.ExtTreeMap String Peer.Usage :=
  match q.method with
  | .post =>
    match addedKey? q.body with
    | none => (some ⟨400, [], true⟩, peers)
    | some key =>
      if peers.contains key then (some ⟨409, [], true⟩, peers)
      else (some ⟨201, addition, true⟩, peers.insert key ⟨0, 0⟩)
  | .get =>
    if q.url.query.isNone then (some ⟨200, session, true⟩, peers)
    else (some ⟨if (namedKey? base peers q.url).isSome then 200 else 404, [], true⟩, peers)
  | .delete =>
    match namedKey? base peers q.url with
    | some key => (some ⟨200, [], true⟩, peers.erase key)
    | none => (some ⟨404, [], true⟩, peers)

/-- A URL names the peer that it was made for, if that is there. -/
theorem namedKey?_peerUrl (base : String) (peers : Std.ExtTreeMap String Peer.Usage)
    (i : Peer.Identity) :
    namedKey? base peers (peerUrl base i) = if peers.contains i.key then some i.key else none := by
  have hnamed : ∀ key, ((Url.under base "/peer").withQuery "key" key = peerUrl base i) ↔
      key = i.key := fun key => ⟨Url.withQuery_injective, fun h => h ▸ rfl⟩
  unfold namedKey?
  simp only [hnamed]
  cases hfound : peers.keys.find? fun key => decide (key = i.key) with
  | some key =>
    obtain rfl : key = i.key := by simpa using List.find?_some hfound
    have hmem := List.mem_of_find?_eq_some hfound
    rw [Std.ExtTreeMap.mem_keys, ← Std.ExtTreeMap.contains_iff_mem] at hmem
    rw [if_pos hmem]
  | none =>
    rw [List.find?_eq_none] at hfound
    refine (if_neg fun hc => ?_).symm
    rw [Std.ExtTreeMap.contains_iff_mem, ← Std.ExtTreeMap.mem_keys] at hc
    simpa using hfound i.key hc

/-- Whatever the bodies are, the sample keeps a table. -/
theorem keeps_sampleNetwork (base : String) (addition session : List UInt8) :
    Keeps base (sampleNetwork base addition session) id where
  add i peers := by
    have hanswer : sampleNetwork base addition session (Sidecar.add base i).request peers =
        if peers.contains i.key then (some ⟨409, [], true⟩, peers)
        else (some ⟨201, addition, true⟩, peers.insert i.key ⟨0, 0⟩) := by
      cases i <;> rfl
    cases hc : peers.contains i.key with
    | true => exact ⟨_, _, hanswer.trans (if_pos hc), rfl⟩
    | false =>
      refine ⟨_, _, hanswer.trans (if_neg (ne_true_of_eq_false hc)), ?_⟩
      rw [if_pos (by rfl)]
      exact ⟨hc, _, rfl⟩
  has i peers := by
    have hanswer : sampleNetwork base addition session (Sidecar.has base i).request peers =
        (some ⟨if (namedKey? base peers (peerUrl base i)).isSome then 200 else 404, [], true⟩,
          peers) := rfl
    rw [namedKey?_peerUrl] at hanswer
    refine ⟨_, _, hanswer, rfl, ?_⟩
    cases hc : peers.contains i.key with
    | true => simp [hc, Response.isSuccess]
    | false => simp [hc]
  remove i peers := by
    have hanswer : sampleNetwork base addition session (Sidecar.remove base i).request peers =
        match namedKey? base peers (peerUrl base i) with
        | some key => (some ⟨200, [], true⟩, peers.erase key)
        | none => (some ⟨404, [], true⟩, peers) := rfl
    rw [namedKey?_peerUrl] at hanswer
    cases hc : peers.contains i.key with
    | true =>
      rw [if_pos hc] at hanswer
      refine ⟨_, _, hanswer, ?_⟩
      rw [if_pos (by exact hc)]
      exact ⟨rfl, rfl⟩
    | false =>
      rw [if_neg (ne_true_of_eq_false hc)] at hanswer
      refine ⟨_, _, hanswer, ?_⟩
      rw [if_neg (by exact ne_true_of_eq_false hc)]
      exact ⟨rfl, rfl⟩
  query rpc id peers := by
    show (sampleNetwork base addition session (Gateway.querySession rpc id).request peers).2 = peers
    unfold sampleNetwork Gateway.querySession
    dsimp only
    split <;> rfl

end Sidecar

end VpnNode
