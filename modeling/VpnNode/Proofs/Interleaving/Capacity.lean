import Mathlib.Data.List.Nodup
import VpnNode.Ledger.Text
import VpnNode.Proofs.Admission.Decision
import VpnNode.Proofs.Interleaving.Peers

/-!
# How many peers a node connects

A backend refuses a peer once it is full. The settings of a node name a limit as well, and it
is reported to clients, but no task looks at it. So a node connects as many peers as its
backend has room for.

Main statements:

* `Within.after`: a backend never has more peers than it has room for.
* `exists_steps`: a task that is let run comes to what it comes to alone.
* `exists_hosting`: as many clients as there is room for can be admitted, one after the other.
* `after_maxPeers`: the limit in the settings does not matter to what happens.
* `capacity_alone_limits_peers`: how many peers can be connected.
-/

namespace VpnNode.Interleaving

open Simulation (World)
open Peer.Identity (canonical? canonical?_eq_some_iff)

/-! ## Room -/

/-- A backend with this capacity has no more peers than that, and no failures in store. -/
structure Within (capacity : Nat) (w : World) : Prop where
  faultless : w.faults = []
  capacity_eq : w.table.capacity = capacity
  size_le : w.table.peers.size ≤ capacity

namespace Within

variable {config : NodeConfig} {capacity : Nat} {w : World} {n : Node}

theorem addPeer (h : Within capacity w) (i : Peer.Identity) :
    Within capacity (World.perform (.addPeer i) w).2 := by
  rw [World.perform_addPeer h.faultless]
  cases hadd : w.table.add i with
  | error e => exact h
  | ok x =>
    obtain ⟨data, table⟩ := x
    obtain ⟨-, -, hroom, -, htable⟩ := Peer.Table.add_eq_ok_iff.1 hadd
    refine ⟨h.faultless, ?_, ?_⟩
    · rw [htable]
      exact h.capacity_eq
    · rw [Peer.Table.size_add hadd, ← h.capacity_eq]
      exact hroom

theorem removePeer (h : Within capacity w) (i : Peer.Identity) :
    Within capacity (World.perform (.removePeer i) w).2 := by
  rw [World.perform_removePeer h.faultless]
  cases hremove : w.table.remove i with
  | error e => exact h
  | ok table =>
    obtain ⟨-, -, htable⟩ := Peer.Table.remove_eq_ok_iff.1 hremove
    refine ⟨h.faultless, ?_, ?_⟩
    · rw [htable]
      exact h.capacity_eq
    · rw [Peer.Table.size_remove hremove]
      exact Nat.le_trans (Nat.sub_le _ _) h.size_le

theorem updateLedger (h : Within capacity w) (x : Except ε (α × Ledger)) :
    Within capacity (w.updateLedger x).2 := by
  cases x with
  | ok x => exact ⟨h.faultless, h.capacity_eq, h.size_le⟩
  | error e => exact h

/-- An answer leaves the backend within its capacity. -/
theorem perform (h : Within capacity w) (r : Request) : Within capacity (World.perform r w).2 := by
  cases r with
  | addPeer i => exact h.addPeer i
  | removePeer i => exact h.removePeer i
  | hasPeer i =>
    rw [World.perform_hasPeer h.faultless]
    exact h
  | peerStatistics =>
    rw [World.perform_peerStatistics h.faultless]
    exact h
  | peerCount =>
    rw [World.perform_peerCount h.faultless]
    exact h
  | insertRow _ | updateRow _ _ | deleteRow _ => exact h.updateLedger _
  | _ => exact ⟨h.faultless, h.capacity_eq, h.size_le⟩

theorem move (h : Within capacity n.world) (m : Move) :
    Within capacity (n.move config m).world := by
  cases m with
  | begin e =>
    show Within capacity (if n.admits e then n.begin config e else n).world
    split <;> exact h
  | step k =>
    show Within capacity (n.step k).world
    obtain hn | ⟨e, r, next, -, hn⟩ := n.step_cases k
    · rw [hn]
      exact h
    · rw [hn]
      exact h.perform r
  | chain c => exact ⟨h.faultless, h.capacity_eq, h.size_le⟩
  | clock now => exact ⟨h.faultless, h.capacity_eq, h.size_le⟩
  | traffic key usage =>
    refine ⟨h.faultless, (Peer.Table.capacity_setUsage ..).trans h.capacity_eq, ?_⟩
    show (n.world.table.setUsage key usage).peers.size ≤ capacity
    rw [Peer.Table.size_setUsage]
    exact h.size_le

/-- A backend never has more peers than it has room for. -/
theorem after (config : NodeConfig) (capacity : Nat) (w : World) (moves : List Move) :
    Within capacity (Node.after config capacity w moves).world := by
  have hstart : Within capacity (Node.start config capacity w).world :=
    ⟨rfl, rfl, Nat.zero_le _⟩
  have hrun : ∀ n : Node, Within capacity n.world →
      Within capacity (moves.foldl (Node.move config) n).world := by
    induction moves with
    | nil => exact fun n hn => hn
    | cons m moves ih => exact fun n hn => ih _ (hn.move m)
  exact hrun _ hstart

end Within

/-! ## A task that is let run -/

/-- A request that never waits for the account. -/
def Prompt : Request → Prop
  | .lockAccount => False
  | _ => True

/-- An admission never waits for the account. -/
theorem Admitting.prompt {service : Service} {r : Request} (h : Admitting service r) :
    Prompt r := by
  cases r <;> first | exact h.elim | trivial

theorem Node.step_of_prompt {n : Node} {k : Nat} {e : Errand} {r : Request}
    {next : r.Answer → Program Unit} (hr : Prompt r) (hk : n.tasks[k]? = some ⟨e, .ask r next⟩) :
    n.step k = n.answer k e r next := by
  unfold Node.step
  rw [hk]
  cases r <;> first | rfl | exact hr.elim

/-- A task that is let run comes to what it comes to alone; the others stand where they stood. -/
theorem exists_steps (config : NodeConfig) {e : Errand} {p : Program Unit} (hp : Asks Prompt p)
    {n : Node} {k : Nat} (hk : n.tasks[k]? = some ⟨e, p⟩) :
    ∃ steps : List Move, (steps.foldl (Node.move config) n).world = (n.world.run p).2 ∧
      ∀ {j t}, (steps.foldl (Node.move config) n).tasks[j]? = some t → t.inFlight = true →
        j ≠ k ∧ n.tasks[j]? = some t := by
  induction p generalizing n with
  | done _ | abort _ =>
    refine ⟨[], rfl, fun {j t} ht hflight => ⟨?_, ht⟩⟩
    rintro rfl
    obtain rfl := Option.some.inj (hk.symm.trans ht)
    cases hflight
  | ask r next ih =>
    have hstep := Node.step_of_prompt hp.1 hk
    have hnext := (Node.getElem?_answer (e := e) hk r next).2 (.inl ⟨rfl, rfl⟩)
    obtain ⟨steps, hworld, htasks⟩ := ih _ (hp.2 _) hnext
    have hfirst : (Move.step k :: steps).foldl (Node.move config) n =
        steps.foldl (Node.move config) (n.answer k e r next) := by
      rw [List.foldl_cons]
      exact congrArg (steps.foldl (Node.move config)) hstep
    refine ⟨.step k :: steps, ?_, fun {j t} ht hflight => ?_⟩
    · rw [hfirst]
      exact hworld
    · rw [hfirst] at ht
      obtain ⟨hne, hj⟩ := htasks ht hflight
      exact ⟨hne, (((Node.getElem?_answer hk r next).1 hj).resolve_left fun h => hne h.1).2⟩

/-! ## Clients -/

/-- A request that is in order by itself. -/
structure Fit (config : NodeConfig) (r : Admission.Request) : Prop where
  session_ne_zero : r.sessionId ≠ 0
  signature_ok : (Base64.decode r.signature).isOk
  key_ok : (canonical? config.service r.peerKey).isSome
  account_fit : Session.FitAddress r.accountAddress

/-- A session that entitles the client. -/
def entitlement (config : NodeConfig) (r : Admission.Request) : Chain.Session where
  id := r.sessionId
  accountAddress := r.accountAddress
  nodeAddress := config.nodeAddress
  downloadBytes := "0"
  uploadBytes := "0"
  maxBytes := "0"
  duration := 0
  maxDuration := 0
  status := .active

/-- A node at rest that hosts these clients and nobody else. -/
structure Hosts (config : NodeConfig) (n : Node) (clients : List Admission.Request) : Prop where
  rested : ∀ t ∈ n.tasks, t.inFlight = false
  size_eq : n.world.table.peers.size = clients.length
  connected : ∀ key, n.world.table.contains key = true ↔
    ∃ r ∈ clients, canonical? config.service r.peerKey = some key
  stored : ∀ {id s}, n.world.ledger.Holds id s →
    ∃ r ∈ clients, r.sessionId = id ∧ canonical? config.service r.peerKey = some s.peerKey

variable {config : NodeConfig} {capacity : Nat} {w : World}

/-- A request that is in order is admissible where its client is not hosted yet, there is room,
    and the chain has its session. -/
theorem Fit.admissible {r : Admission.Request} (h : Fit config r)
    (hnode : Session.FitAddress config.nodeAddress) {n : Node} {clients : List Admission.Request}
    (hosts : Hosts config n clients) (hroom : clients.length < n.world.table.capacity)
    (hid : ∀ q ∈ clients, q.sessionId ≠ r.sessionId)
    (hkey : ∀ q ∈ clients, canonical? config.service q.peerKey ≠
      canonical? config.service r.peerKey) :
    ∃ i, Admission.Admissible config r
      { n.world with chain := ({} : Simulation.Chain).putSession (entitlement config r) } i
      (entitlement config r) 0 := by
  obtain ⟨key, hcanonical⟩ := Option.isSome_iff_exists.1 h.key_ok
  obtain ⟨i, hi, rfl⟩ := canonical?_eq_some_iff.1 hcanonical
  rw [hcanonical] at hkey
  exact ⟨i, {
    session_ne_zero := h.session_ne_zero
    signature_ok := h.signature_ok
    key_ok := hi
    answered := config.policies.query.attempts_pos
    known := by simp [Simulation.Chain.putSession, entitlement]
    active := rfl
    account_eq := rfl
    node_eq := rfl
    id_free := fun t ht => by
      obtain ⟨q, hq, hsame, -⟩ := hosts.stored ht
      exact hid q hq hsame
    key_free := fun id t ht hsame => by
      obtain ⟨q, hq, -, hkeyq⟩ := hosts.stored ht
      exact hkey q hq (hkeyq.trans (congrArg some hsame))
    quota_eq := by
      show Decimal.parse? "0" = some 0
      decide
    absent := by
      refine Bool.eq_false_iff.2 fun hc => ?_
      obtain ⟨q, hq, hkeyq⟩ := (hosts.connected i.key).1 hc
      exact hkey q hq hkeyq
    room := hosts.size_eq ▸ hroom
    account_fit := h.account_fit
    node_fit := hnode }⟩

theorem Hosts.start (config : NodeConfig) (capacity : Nat) (w : World) :
    Hosts config (.start config capacity w) [] where
  rested t ht := absurd ht List.not_mem_nil
  size_eq := rfl
  connected key := by simp [Node.start, Peer.Table.empty, Peer.Table.contains]
  stored hs := by simp [Node.start, Ledger.empty, Ledger.Holds] at hs

/-- A node at rest that has admitted one client more. -/
theorem Hosts.cons {n n' : Node} {clients : List Admission.Request} (h : Hosts config n clients)
    {r : Admission.Request} {i : Peer.Identity} {remote : Chain.Session} {quota : Nat} {now : Time}
    (hi : Peer.Identity.ofKey config.service r.peerKey = .ok i)
    (habsent : n.world.table.contains i.key = false) (hrested : ∀ t ∈ n'.tasks, t.inFlight = false)
    (hledger : n'.world.ledger = ⟨n.world.ledger.rows.insert r.sessionId
        (.row (Admission.grantedRow config r remote quota i.key now)),
      n.world.ledger.keys.insert i.key r.sessionId⟩)
    (htable : n'.world.table =
      { n.world.table with peers := n.world.table.peers.insert i.key ⟨0, 0⟩ }) :
    Hosts config n' (r :: clients) where
  rested := hrested
  size_eq := by
    have hmem : i.key ∉ n.world.table.peers := by
      rw [← Std.ExtTreeMap.contains_iff_mem]
      exact ne_true_of_eq_false habsent
    rw [htable, List.length_cons, ← h.size_eq]
    exact Std.ExtTreeMap.size_insert.trans (if_neg hmem)
  connected key := by
    have hcontains : n'.world.table.contains key =
        (key == i.key || n.world.table.contains key) := by
      rw [htable]
      simp only [Peer.Table.contains, Std.ExtTreeMap.contains_insert, Peer.Table.compare_beq_eq]
    rw [hcontains, Bool.or_eq_true, beq_iff_eq, h.connected]
    simp only [List.mem_cons, exists_eq_or_imp, Peer.Identity.canonical?_of_ok hi,
      Option.some.injEq]
    exact or_congr_left eq_comm
  stored {id s} hs := by
    rw [hledger] at hs
    simp only [Ledger.Holds, Std.ExtTreeMap.getElem?_insert, Std.compare_eq_iff_eq] at hs
    split at hs
    · rename_i hid
      cases hs
      exact ⟨r, List.mem_cons_self, hid, Peer.Identity.canonical?_of_ok hi⟩
    · obtain ⟨q, hq, hqs⟩ := h.stored hs
      exact ⟨q, List.mem_cons_of_mem r hq, hqs⟩

/-- One client more can be admitted, if there is room. -/
theorem Hosts.exists_cons {moves : List Move} {clients : List Admission.Request}
    (h : Hosts config (.after config capacity w moves) clients) {r : Admission.Request}
    (hfit : Fit config r) (hnode : Session.FitAddress config.nodeAddress)
    (hroom : clients.length < capacity) (hid : ∀ q ∈ clients, q.sessionId ≠ r.sessionId)
    (hkey : ∀ q ∈ clients, canonical? config.service q.peerKey ≠
      canonical? config.service r.peerKey) :
    ∃ more, Hosts config (.after config capacity w (moves ++ more)) (r :: clients) := by
  obtain ⟨duty, hsound⟩ := Sound.after config capacity w moves
  have hcapacity := (Within.after config capacity w moves).capacity_eq
  unfold Node.after at *
  simp only [List.foldl_append]
  generalize moves.foldl (Node.move config) (Node.start config capacity w) = n at *
  -- The chain comes to know the session, then the admission begins and is let run.
  let chain := ({} : Simulation.Chain).putSession (entitlement config r)
  let granted : Node := { n with world := { n.world with chain } }
  obtain ⟨i, hadmissible⟩ := hfit.admissible hnode h (hcapacity ▸ hroom) hid hkey
  have hchain : chain.Keyed := (Simulation.Chain.keyed_of_sessions_empty rfl).putSession _
  obtain ⟨x, w', hrun, hdecided⟩ : ∃ x w',
      granted.world.run (Admission.accept config r) = (.value x, w') ∧
        Admission.Decided config r granted.world x w' :=
    Admission.run_accept_decided hsound.metered.indexed hchain hsound.metered.faultless
      hsound.metered.service_eq
  have hprogram : granted.world.run ((Errand.admission r).program config) = (.value (), w') :=
    World.run_bind hrun
  have hbegun := (Node.getElem?_begin (n := granted) (e := .admission r) config).2
    (.inr ⟨rfl, rfl⟩)
  have hprompt : Asks Prompt ((Errand.admission r).program config) :=
    Asks.bind ((accept_admitting config r).mono fun _ h => h.prompt) fun _ => trivial
  obtain ⟨steps, hworld, htasks⟩ := exists_steps config hprompt hbegun
  refine ⟨.chain chain :: .begin (.admission r) :: steps, ?_⟩
  have hbegin : granted.move config (.begin (.admission r)) =
      granted.begin config (.admission r) := rfl
  show Hosts config (steps.foldl (Node.move config)
    (granted.move config (.begin (.admission r)))) (r :: clients)
  rw [hbegin]
  have hworld' : (steps.foldl (Node.move config) (granted.begin config (.admission r))).world =
      w' := hworld.trans (congrArg Prod.snd hprogram)
  cases x with
  | error e => exact absurd hadmissible (hdecided.1 _ _ _)
  | ok data =>
    obtain ⟨i', remote, quota, ha, -, hledger, htable⟩ := hdecided
    refine h.cons ha.key_ok ha.absent (fun t ht => ?_) (hworld' ▸ hledger) (hworld' ▸ htable)
    -- No task is in flight: not the new one, and none of the others.
    refine Bool.eq_false_iff.2 fun hflight => ?_
    obtain ⟨j, hj⟩ := List.mem_iff_getElem?.1 ht
    obtain ⟨hne, hold⟩ := htasks hj hflight
    obtain hold | ⟨hlast, -⟩ := (Node.getElem?_begin config).1 hold
    · rw [h.rested t (List.mem_of_getElem? hold)] at hflight
      cases hflight
    · exact hne hlast

/-- As many clients as there is room for can be admitted, one after the other. -/
theorem exists_hosting (w : World) (hnode : Session.FitAddress config.nodeAddress)
    {clients : List Admission.Request} (hfit : ∀ r ∈ clients, Fit config r)
    (hids : (clients.map fun r => r.sessionId).Nodup)
    (hkeys : (clients.map fun r => canonical? config.service r.peerKey).Nodup)
    (hroom : clients.length ≤ capacity) :
    ∃ moves, Hosts config (.after config capacity w moves) clients := by
  induction clients with
  | nil => exact ⟨[], .start config capacity w⟩
  | cons r clients ih =>
    rw [List.map_cons, List.nodup_cons] at hids hkeys
    rw [List.length_cons] at hroom
    obtain ⟨moves, hosts⟩ := ih (fun q hq => hfit q (List.mem_cons_of_mem r hq)) hids.2 hkeys.2
      (Nat.le_of_succ_le hroom)
    obtain ⟨more, hmore⟩ := hosts.exists_cons (hfit r List.mem_cons_self) hnode hroom
      (fun q hq hsame => hids.1 (List.mem_map.2 ⟨q, hq, hsame⟩))
      fun q hq hsame => hkeys.1 (List.mem_map.2 ⟨q, hq, hsame⟩)
    exact ⟨_, hmore⟩

/-! ## A client for each id -/

/-- A canonical key for each id. -/
def keyOf (service : Service) (id : UInt64) : String :=
  match service with
  | .v2ray => Uuid.render ⟨List.replicate 8 0 ++ Ledger.octetsOfId id, rfl⟩
  | .wireguard => Base64.encode (List.replicate 24 0 ++ Ledger.octetsOfId id)

theorem canonical?_keyOf (service : Service) (id : UInt64) :
    canonical? service (keyOf service id) = some (keyOf service id) := by
  refine canonical?_eq_some_iff.2 ?_
  cases service with
  | v2ray =>
    refine ⟨.v2ray (keyOf .v2ray id), ?_, rfl⟩
    simp only [Peer.Identity.ofKey, keyOf, Uuid.trim_render, Uuid.parse_render]
  | wireguard =>
    refine ⟨.wireguard (keyOf .wireguard id), ?_, rfl⟩
    simp only [Peer.Identity.ofKey, keyOf, Base64.trim_encode, Base64.decode_encode]
    rfl

theorem keyOf_injective (service : Service) : Function.Injective (keyOf service) := by
  intro id id' h
  have hoctets : Ledger.octetsOfId id = Ledger.octetsOfId id' := by
    cases service with
    | v2ray =>
      have hparse := congrArg Uuid.parse h
      simp only [keyOf, Uuid.parse_render, Except.ok.injEq] at hparse
      exact List.append_cancel_left (congrArg Uuid.octets hparse)
    | wireguard =>
      have hdecode := congrArg Base64.decode h
      simp only [keyOf, Base64.decode_encode, Except.ok.injEq] at hdecode
      exact List.append_cancel_left hdecode
  rw [← Ledger.idOfOctets_octetsOfId id, hoctets, Ledger.idOfOctets_octetsOfId]

/-- A client for each id, with the account of the sample. -/
def clientOf (service : Service) (id : UInt64) : Admission.Request :=
  { Admission.sampleRequest with sessionId := id, peerKey := keyOf service id }

theorem fit_sampleAccount : Session.FitAddress Admission.sampleRequest.accountAddress :=
  Session.fitAddress_of_isOk (by decide) (by decide +kernel)

theorem fit_clientOf (config : NodeConfig) {id : UInt64} (hid : id ≠ 0) :
    Fit config (clientOf config.service id) where
  session_ne_zero := hid
  signature_ok := by
    show (Base64.decode "c2ln").isOk = true
    decide
  key_ok := by
    rw [clientOf, canonical?_keyOf]
    rfl
  account_fit := fit_sampleAccount

/-- The clients for the first ids. -/
def firstClients (service : Service) (count : Nat) : List Admission.Request :=
  (List.range count).map fun k => clientOf service (UInt64.ofNat (k + 1))

@[simp] theorem length_firstClients (service : Service) (count : Nat) :
    (firstClients service count).length = count := by
  rw [firstClients, List.length_map, List.length_range]

/-- Every number of clients that there is room for can be admitted. -/
theorem exists_hosting_firstClients (hnode : Session.FitAddress config.nodeAddress)
    (hcapacity : capacity < UInt64.size) (w : World) {count : Nat} (hcount : count ≤ capacity) :
    ∃ moves, Hosts config (.after config capacity w moves)
      (firstClients config.service count) := by
  have hfirst : ∀ k ∈ List.range count, k + 1 < UInt64.size := fun k hk => by
    have := List.mem_range.1 hk
    omega
  have hids : ∀ j ∈ List.range count, ∀ k ∈ List.range count,
      UInt64.ofNat (j + 1) = UInt64.ofNat (k + 1) → j = k := by
    intro j hj k hk hsame
    have htoNat := congrArg UInt64.toNat hsame
    rw [UInt64.toNat_ofNat_of_lt' (hfirst j hj), UInt64.toNat_ofNat_of_lt' (hfirst k hk)] at htoNat
    exact Nat.succ.inj htoNat
  refine exists_hosting w hnode (fun r hr => ?_) ?_ ?_ ?_
  · obtain ⟨k, hk, rfl⟩ := List.mem_map.1 hr
    refine fit_clientOf config fun hzero => ?_
    have htoNat := congrArg UInt64.toNat hzero
    rw [UInt64.toNat_ofNat_of_lt' (hfirst k hk)] at htoNat
    cases htoNat
  · rw [firstClients, List.map_map]
    exact List.nodup_range.map_on hids
  · rw [firstClients, List.map_map]
    refine List.nodup_range.map_on fun j hj k hk hsame => hids j hj k hk ?_
    simp only [Function.comp_apply, clientOf, canonical?_keyOf, Option.some.injEq] at hsame
    exact keyOf_injective _ hsame
  · rwa [length_firstClients]

/-! ## The limit in the settings -/

theorem reconcile_maxPeers (config : NodeConfig) (limit : UInt64) (rows : List Session) :
    Job.reconcile { config with maxPeers := limit } rows = Job.reconcile config rows := by
  induction rows with
  | nil => rfl
  | cons s rows ih =>
    rw [Job.reconcile, ih]
    rfl

/-- No task looks at the limit. -/
theorem program_maxPeers (config : NodeConfig) (limit : UInt64) (e : Errand) :
    e.program { config with maxPeers := limit } = e.program config := by
  cases e with
  | admission r => rfl
  | pass j =>
    cases j with
    | sessionValidation =>
      simp only [Errand.program, Job.run, Job.sessionValidationRun, reconcile_maxPeers]
    | _ => rfl

/-- So it does not matter to what happens at a node. -/
theorem after_maxPeers (config : NodeConfig) (limit : UInt64) (capacity : Nat) (w : World)
    (moves : List Move) :
    Node.after { config with maxPeers := limit } capacity w moves =
      Node.after config capacity w moves := by
  have hmove : Node.move { config with maxPeers := limit } = Node.move config := by
    funext n m
    cases m with
    | begin e =>
      simp only [Node.move, Node.begin, program_maxPeers]
    | _ => rfl
  unfold Node.after
  rw [hmove]
  rfl

/-! ## How many peers can be connected -/

/-- Admissions and passes run beside each other at a node that begins without rows and peers,
    interleaved in any way, while the chain changes at will. The limit in the settings does not
    matter to what happens. The backend never has more peers than it has room for, and every
    number up to that is reached, with all tasks returned. -/
theorem capacity_alone_limits_peers (config : NodeConfig)
    (hnode : Session.FitAddress config.nodeAddress) (capacity : Nat)
    (hcapacity : capacity < UInt64.size) (w : World) :
    (∀ limit moves, Node.after { config with maxPeers := limit } capacity w moves =
      Node.after config capacity w moves) ∧
    (∀ moves, (Node.after config capacity w moves).world.table.count ≤ capacity) ∧
    ∀ count ≤ capacity, ∃ moves, (Node.after config capacity w moves).world.table.count = count ∧
      ∀ t ∈ (Node.after config capacity w moves).tasks, t.inFlight = false := by
  refine ⟨fun limit moves => after_maxPeers config limit capacity w moves,
    fun moves => (Within.after config capacity w moves).size_le, fun count hcount => ?_⟩
  obtain ⟨moves, hosts⟩ := exists_hosting_firstClients hnode hcapacity w hcount
  exact ⟨moves, hosts.size_eq.trans (length_firstClients _ _), hosts.rested⟩

/-! ## A sample -/

theorem fit_sampleNode : Session.FitAddress Admission.sampleNode.nodeAddress :=
  Session.fitAddress_of_isOk (by decide) (by decide +kernel)

/-- The sample node connects one peer more than its settings allow. -/
theorem exceeds_sampleNode :
    Peer.Table.unlimited < UInt64.size ∧ Admission.sampleNode.maxPeers = 250 ∧
    ∃ moves, (Node.after Admission.sampleNode Peer.Table.unlimited Admission.sampleWorld
      moves).world.table.count = 251 := by
  obtain ⟨-, -, hreached⟩ := capacity_alone_limits_peers Admission.sampleNode fit_sampleNode
    Peer.Table.unlimited (by decide) Admission.sampleWorld
  obtain ⟨moves, hcount, -⟩ := hreached 251 (by decide)
  exact ⟨by decide, rfl, moves, hcount⟩

/-- The limit is not enforced. -/
theorem count_not_le_maxPeers :
    ¬ ∀ (config : NodeConfig) (w : World) (moves : List Move),
      (Node.after config Peer.Table.unlimited w moves).world.table.count ≤
        config.maxPeers.toNat := by
  intro hclaim
  have hcapacity : Peer.Table.unlimited < UInt64.size := by decide
  have hroom : 251 ≤ Peer.Table.unlimited := by decide
  obtain ⟨moves, hosts⟩ :=
    exists_hosting_firstClients fit_sampleNode hcapacity Admission.sampleWorld hroom
  have hle := hclaim Admission.sampleNode Admission.sampleWorld moves
  rw [Peer.Table.count, hosts.size_eq, length_firstClients] at hle
  exact absurd hle (by decide)

end VpnNode.Interleaving
