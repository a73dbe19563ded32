import VpnNode.NodeConfig
import VpnNode.Proofs.Address
import VpnNode.Proofs.Config.Check
import VpnNode.Proofs.Result
import VpnNode.Proofs.Text.Pieces

/-!
# From a configuration to the settings of a node

The check of a configuration and the making of a node's settings look at some of the same
entries, each in its own way: where the check asks that an endpoint is not blank, the
settings keep what is left of it between its blanks. They agree. What the check does not
look into are the kind of service, the account and the readable part of the address, and
these three alone can keep a checked configuration from becoming settings.

Main statements:

* `ofConfig_isOk_iff`: which configurations become settings.
* `frozen_of_ofConfig`: what becomes of a configuration.
* `hindrance_of_sound`: why a configuration that passes the check does not become settings.
* `check_agrees_with_freezing`: the two together.
-/

namespace VpnNode

variable {c : Config} {n : NodeConfig} {fault : Config.Fault}

theorem Service.ofName?_eq_some_iff {s : String} {k : Service} : ofName? s = some k ↔ s = k.name :=
  ⟨name_of_ofName?, fun h => h ▸ ofName?_name k⟩

theorem Peer.parseService_eq_ok_iff {s : String} {k : Service} :
    parseService s = .ok k ↔ Service.folded s = k.name := by
  rw [← Service.ofName?_eq_some_iff, parseService, Service.parse?]
  cases Service.ofName? (Service.folded s) <;> simp

/-- A name is refused because no kind of service has it. -/
theorem Peer.not_name_of_parseService {s : String} {e : Error} (h : parseService s = .error e) :
    e = .unknownService (Service.folded s) ∧ ∀ k : Service, Service.folded s ≠ k.name := by
  constructor
  · unfold parseService at h
    split at h <;> simp_all
  · intro k hk
    rw [parseService_eq_ok_iff.2 hk] at h
    simp at h

namespace NodeConfig

/-! ## What the settings are -/

/-- What it takes for a configuration to become settings. -/
structure Freezable (c : Config) : Prop where
  service : ∃ k : Service, Service.folded c.service.kind = k.name
  gigabytePrices : ∃ coins, Coin.parseList c.node.gigabytePrices = .ok coins
  hourlyPrices : ∃ coins, Coin.parseList c.node.hourlyPrices = .ok coins
  endpoint : ∃ a ∈ c.query.rpcAddresses, ¬ Text.isAllBlank a
  account : ∃ found payload, Bech32.decode c.tx.fromAddress = .ok (found, payload) ∧ payload ≠ []
  addressPart : Bech32.IsReadable c.node.addressPart

/-- The settings are those of the configuration: its endpoints that are not blank, without
    the blanks at their ends, its prices, and the address of its account under the readable
    part of a node. -/
structure Frozen (c : Config) (n : NodeConfig) : Prop where
  service : Service.folded c.service.kind = n.service.name
  gigabytePrices : Coin.parseList c.node.gigabytePrices = .ok n.gigabytePrices
  hourlyPrices : Coin.parseList c.node.hourlyPrices = .ok n.hourlyPrices
  rpcAddresses : n.rpcAddresses =
    (c.query.rpcAddresses.filter fun a => !Text.isAllBlank a).map Text.trim
  nodeAddress : ∃ found payload, Bech32.decode c.tx.fromAddress = .ok (found, payload) ∧
    payload ≠ [] ∧
    Address.decode n.nodeAddress = .ok (Text.asciiLower c.node.addressPart, payload)
  intervals : n.intervals = c.node.intervals
  queryTimeout : n.queryTimeout = c.query.timeout
  probeTimeout : n.probeTimeout = c.query.probeTimeout

namespace Draft

/-- What is left of the entries is empty where they were blank, so blank entries go. -/
theorem endpoints_eq (entries : List String) :
    endpoints entries = (entries.filter fun a => !Text.isAllBlank a).map Text.trim := by
  have hblank : ∀ a, (Text.trim a != "") = !Text.isAllBlank a := by
    intro a
    rw [Bool.eq_iff_iff]
    simp [Text.trim_eq_empty_iff]
  rw [endpoints, List.filter_map]
  congr 2
  funext a
  exact hblank a

theorem endpoints_ne_nil_iff {entries : List String} :
    endpoints entries ≠ [] ↔ ∃ a ∈ entries, ¬ Text.isAllBlank a := by
  rw [endpoints_eq, Ne, List.map_eq_nil_iff, List.filter_eq_nil_iff]
  simp

/-- Which of its entries a draft owes to the configuration, and what they are. -/
structure Filled (c : Config) (d : Draft) (k : Service) : Prop where
  service : d.service = some k
  accountAddress : d.accountAddress = c.tx.fromAddress
  addressPart : d.addressPart = c.node.addressPart
  gigabytePrices : Coin.parseList c.node.gigabytePrices = .ok d.gigabytePrices
  hourlyPrices : Coin.parseList c.node.hourlyPrices = .ok d.hourlyPrices
  rpcAddresses : d.rpcAddresses = endpoints c.query.rpcAddresses
  intervals : d.intervals = c.node.intervals
  queryTimeout : d.queryTimeout = c.query.timeout
  probeTimeout : d.probeTimeout = c.query.probeTimeout

/-- A draft is filled in from a configuration that names a service and prices. -/
theorem filled_of_ofConfig {d : Draft} (h : ofConfig c = .ok d) :
    ∃ k, Peer.parseService c.service.kind = .ok k ∧ Filled c d k := by
  simp only [ofConfig, prices, bind_eq_ok_iff, mapError_eq_ok_iff] at h
  obtain ⟨k, hservice, gigabytePrices, hgigabyte, hourlyPrices, hhourly, h⟩ := h
  cases h
  exact ⟨k, hservice, rfl, rfl, rfl, hgigabyte, hhourly, rfl, rfl, rfl, rfl⟩

theorem exists_ofConfig_iff : (∃ d, ofConfig c = .ok d) ↔
    (∃ k : Service, Service.folded c.service.kind = k.name) ∧
    (∃ coins, Coin.parseList c.node.gigabytePrices = .ok coins) ∧
    ∃ coins, Coin.parseList c.node.hourlyPrices = .ok coins := by
  constructor
  · rintro ⟨d, h⟩
    obtain ⟨k, hk, hfilled⟩ := filled_of_ofConfig h
    exact ⟨⟨k, Peer.parseService_eq_ok_iff.1 hk⟩, ⟨_, hfilled.gigabytePrices⟩,
      ⟨_, hfilled.hourlyPrices⟩⟩
  · rintro ⟨⟨k, hk⟩, ⟨gigabytePrices, hgigabyte⟩, hourlyPrices, hhourly⟩
    simp only [ofConfig, prices, bind_eq_ok_iff, mapError_eq_ok_iff]
    exact ⟨_, k, Peer.parseService_eq_ok_iff.2 hk, gigabytePrices, hgigabyte, hourlyPrices,
      hhourly, rfl⟩

/-- A draft is missing because of the service or of prices. -/
theorem fault_of_ofConfig (h : ofConfig c = .error fault) :
    (∃ e, Peer.parseService c.service.kind = .error e ∧ fault = .service e) ∨
      ∃ e, (Coin.parseList c.node.gigabytePrices = .error e ∨
        Coin.parseList c.node.hourlyPrices = .error e) ∧ fault = .coin e := by
  simp only [ofConfig, prices, bind_eq_error_iff, mapError_eq_error_iff, mapError_eq_ok_iff] at h
  obtain h | ⟨k, -, ⟨e, he, hfault⟩ | ⟨coins, -, ⟨e, he, hfault⟩ | ⟨_, -, h⟩⟩⟩ := h
  · exact .inl h
  · exact .inr ⟨e, .inl he, hfault⟩
  · exact .inr ⟨e, .inr he, hfault⟩
  · cases h

theorem freeze_eq_error_iff {d : Draft} {k : Service} (hk : d.service = some k)
    (hne : d.rpcAddresses ≠ []) :
    d.freeze = .error fault ↔
      ∃ e, Address.ofAccount d.accountAddress d.addressPart = .error e ∧ fault = .account e := by
  have hne' : d.rpcAddresses.isEmpty = false := by simpa using hne
  simp only [freeze, hk, hne', Bool.false_eq_true, if_false]
  cases Address.ofAccount d.accountAddress d.addressPart <;> simp [eq_comm]

end Draft

/-! ## Which configurations become settings -/

theorem ofConfig_eq_ok_iff :
    ofConfig c = .ok n ↔ ∃ d, Draft.ofConfig c = .ok d ∧ d.freeze = .ok n := bind_eq_ok_iff

/-- A configuration becomes settings exactly if it names a kind of service, prices, an
    endpoint, an account, and a readable part that an address can stand under. -/
theorem ofConfig_isOk_iff : (∃ n, ofConfig c = .ok n) ↔ Freezable c := by
  simp only [ofConfig_eq_ok_iff]
  constructor
  · rintro ⟨n, d, hd, hn⟩
    obtain ⟨k, -, hfilled⟩ := Draft.filled_of_ofConfig hd
    obtain ⟨hservice, hgigabyte, hhourly⟩ := Draft.exists_ofConfig_iff.1 ⟨d, hd⟩
    obtain ⟨-, hendpoint, haddress⟩ := Draft.freeze_isOk_iff.1 (isOk_iff.2 ⟨n, hn⟩)
    rw [hfilled.rpcAddresses, Draft.endpoints_ne_nil_iff] at hendpoint
    rw [hfilled.accountAddress, hfilled.addressPart, Address.ofAccount_isOk_iff] at haddress
    exact ⟨hservice, hgigabyte, hhourly, hendpoint, haddress.1, haddress.2⟩
  · intro h
    obtain ⟨d, hd⟩ :=
      Draft.exists_ofConfig_iff.2 ⟨h.service, h.gigabytePrices, h.hourlyPrices⟩
    obtain ⟨k, -, hfilled⟩ := Draft.filled_of_ofConfig hd
    have hfreeze : d.freeze.isOk := by
      refine Draft.freeze_isOk_iff.2 ⟨by simp [hfilled.service], ?_, ?_⟩
      · rw [hfilled.rpcAddresses, Draft.endpoints_ne_nil_iff]
        exact h.endpoint
      · rw [hfilled.accountAddress, hfilled.addressPart, Address.ofAccount_isOk_iff]
        exact ⟨h.account, h.addressPart⟩
    obtain ⟨n, hn⟩ := isOk_iff.1 hfreeze
    exact ⟨n, d, hd, hn⟩

/-- The settings that a draft freezes to are its own. -/
theorem frozen_of_freeze {d : Draft} {k : Service} (hk : Service.folded c.service.kind = k.name)
    (hfilled : Draft.Filled c d k) (h : d.freeze = .ok n) : Frozen c n := by
  obtain ⟨-, hne, -⟩ := Draft.freeze_isOk_iff.1 (isOk_iff.2 ⟨n, h⟩)
  have hne' : d.rpcAddresses.isEmpty = false := by simpa using hne
  simp only [Draft.freeze, hfilled.service, hne', Bool.false_eq_true, if_false] at h
  split at h
  · cases h
  · rename_i nodeAddress haddress
    cases h
    obtain ⟨found, payload, hdecode, hencode⟩ := Address.ofAccount_eq_ok_iff.1 haddress
    have hpayload := Address.decode_ne_nil hdecode
    have hread := Address.decode_encode hpayload hencode
    rw [hfilled.accountAddress, Address.decode_eq_ok_iff] at hdecode
    rw [hfilled.addressPart] at hread
    exact {
      service := hk
      gigabytePrices := hfilled.gigabytePrices
      hourlyPrices := hfilled.hourlyPrices
      rpcAddresses := hfilled.rpcAddresses.trans (Draft.endpoints_eq _)
      nodeAddress := ⟨found, payload, hdecode.1, hdecode.2, hread⟩
      intervals := hfilled.intervals
      queryTimeout := hfilled.queryTimeout
      probeTimeout := hfilled.probeTimeout }

theorem frozen_of_ofConfig (h : ofConfig c = .ok n) : Frozen c n := by
  obtain ⟨d, hd, hn⟩ := ofConfig_eq_ok_iff.1 h
  obtain ⟨k, hk, hfilled⟩ := Draft.filled_of_ofConfig hd
  exact frozen_of_freeze (Peer.parseService_eq_ok_iff.1 hk) hfilled hn

/-! ## After the check -/

/-- Why a configuration that passes the check does not become settings. -/
inductive Hindrance (c : Config) : Config.Fault → Prop
  /-- No kind of service has the name. -/
  | service (h : ∀ k : Service, Service.folded c.service.kind ≠ k.name) :
    Hindrance c (.service (.unknownService (Service.folded c.service.kind)))
  /-- The account is no address. -/
  | account (reason : String)
      (h : ¬ ∃ found payload, Bech32.decode c.tx.fromAddress = .ok (found, payload) ∧
        payload ≠ []) :
    Hindrance c (.account (.decode c.tx.fromAddress reason))
  /-- No address can stand under the readable part. -/
  | addressPart (reason : String) (h : ¬ Bech32.IsReadable c.node.addressPart) :
    Hindrance c (.account (.encode reason))

/-- The service, the account and the readable part are all that the check leaves open. -/
theorem hindrance_of_sound (hc : c.Sound) (h : ofConfig c = .error fault) : Hindrance c fault := by
  obtain hdraft | ⟨d, hd, hfreeze⟩ := bind_eq_error_iff.1 h
  · obtain ⟨e, he, rfl⟩ | ⟨e, he, -⟩ := Draft.fault_of_ofConfig hdraft
    · obtain ⟨rfl, hunknown⟩ := Peer.not_name_of_parseService he
      exact .service hunknown
    · obtain ⟨⟨gigabytePrices, hgigabyte⟩, hourlyPrices, hhourly⟩ :=
        And.intro hc.gigabytePrices hc.hourlyPrices
      rw [hgigabyte, hhourly] at he
      obtain he | he := he <;> cases he
  · obtain ⟨k, -, hfilled⟩ := Draft.filled_of_ofConfig hd
    have hne : d.rpcAddresses ≠ [] := by
      rw [hfilled.rpcAddresses, Draft.endpoints_ne_nil_iff]
      exact hc.endpoint
    obtain ⟨e, he, rfl⟩ := (Draft.freeze_eq_error_iff hfilled.service hne).1 hfreeze
    rw [hfilled.accountAddress, hfilled.addressPart] at he
    obtain ⟨reason, rfl, haccount⟩ | ⟨reason, rfl, hpart⟩ := Address.fault_of_ofAccount he
    · exact .account reason haccount
    · exact .addressPart reason hpart

/-- A configuration becomes settings exactly if it names a kind of service, prices, an
    endpoint, an account and a readable part that can be written; and the settings are its
    own. Once it has passed the check, only the service, the account and the readable part
    can be in the way, and the settings never have a job run, or a query given up, after no
    time at all. -/
theorem check_agrees_with_freezing (c : Config) :
    ((∃ n, ofConfig c = .ok n) ↔ Freezable c) ∧
    (∀ n, ofConfig c = .ok n → Frozen c n) ∧
    (c.validate = .ok () →
      (∀ fault, ofConfig c = .error fault → Hindrance c fault) ∧
      ∀ n, ofConfig c = .ok n →
        (∀ seconds ∈ n.intervals.toList, 0 < seconds) ∧ 0 < n.queryTimeout ∧
          0 < n.probeTimeout) := by
  refine ⟨ofConfig_isOk_iff, fun n => frozen_of_ofConfig, fun hcheck => ?_⟩
  have hc := Config.validate_eq_ok_iff_sound.1 hcheck
  refine ⟨fun fault => hindrance_of_sound hc, fun n hn => ?_⟩
  have hfrozen := frozen_of_ofConfig hn
  rw [hfrozen.intervals, hfrozen.queryTimeout, hfrozen.probeTimeout]
  exact ⟨hc.intervals, hc.timeout, hc.probeTimeout⟩

/-- A configuration with blanks where they do not matter. -/
def spacious : Config where
  node := { moniker := "node", remoteUrl := "https://node", addressPart := "SENTNODE" }
  query := { rpcAddresses := [" http://a ", "\t", "http://b"] }
  tx := {
    chainId := "dvpn"
    fromName := "operator"
    fromAddress := "sent1qvpsxqcrqvpsxqcrqvpsxqcrqvpsxqcreusrgy" }
  service := { kind := " WireGuard\n" }

theorem check_agrees_with_freezing_spacious : spacious.validate = .ok () ∧
    ∃ n, ofConfig spacious = .ok n ∧ n.rpcAddresses = ["http://a", "http://b"] := by
  obtain ⟨n, hn⟩ : ∃ n, ofConfig spacious = .ok n := isOk_iff.1 (by decide +kernel)
  have hfrozen := (check_agrees_with_freezing spacious).2.1 n hn
  exact ⟨rfl, n, hn, hfrozen.rpcAddresses.trans (by decide)⟩

end NodeConfig

end VpnNode
