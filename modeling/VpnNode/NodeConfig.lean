import VpnNode.Config.Basic
import VpnNode.Retry

/-!
# The settings that a node runs with

A draft, from which the settings are built, is filled in, from a configuration or by hand,
and then frozen. Freezing needs a kind of service and an endpoint of the chain, and works
out the node's address from the account that operates it.

Main statement:

* `freeze_isOk_iff`: when a draft can be frozen.
-/

namespace VpnNode

namespace Chain

/-- How often queries, submissions and polls are attempted. -/
structure Policies where
  query : RetryPolicy := ⟨5, 1000⟩
  broadcast : RetryPolicy := ⟨5, 6000⟩
  confirm : RetryPolicy := ⟨60, 1000⟩
  deriving DecidableEq

/-- What goes with every transaction. -/
structure TxOptions where
  chainId : String := ""
  fromName : String := ""
  feeGranter : Option String := none
  gas : UInt64 := 200000
  gasAdjustment : Binary64 := Config.defaultGasAdjustment
  gasPrices : String := ""
  simulate : Bool := true
  deriving DecidableEq

end Chain

/-- The settings that a node runs with. Times are in milliseconds. -/
structure NodeConfig where
  moniker : String
  remoteUrl : String
  listenOn : String
  service : Service
  accountAddress : String
  nodeAddress : String
  gigabytePrices : List Coin
  hourlyPrices : List Coin
  rpcAddresses : List String
  intervals : Intervals
  policies : Chain.Policies
  queryTimeout : UInt64
  probeTimeout : UInt64
  tx : Chain.TxOptions
  maxPeers : UInt64
  backendUrl : String
  geoipUrl : String
  speedtestUrl : String
  deriving DecidableEq

namespace NodeConfig

/-- Settings that are still being filled in. -/
structure Draft where
  moniker : String := ""
  remoteUrl : String := ""
  listenOn : String := "0.0.0.0:7777"
  service : Option Service := none
  accountAddress : String := ""
  addressPart : String := "sentnode"
  gigabytePrices : List Coin := []
  hourlyPrices : List Coin := []
  rpcAddresses : List String := []
  intervals : Intervals := {}
  policies : Chain.Policies := {}
  queryTimeout : UInt64 := 15000
  probeTimeout : UInt64 := 15000
  tx : Chain.TxOptions := {}
  maxPeers : UInt64 := 250
  backendUrl : String := ""
  geoipUrl : String := ""
  speedtestUrl : String := ""

namespace Draft

/-- The prices of a setting. -/
def prices (text : String) : Except Config.Fault (List Coin) := (Coin.parseList text).mapError .coin

/-- The endpoints of a setting: the entries that are not blank, without the blanks at
    their ends. -/
def endpoints (entries : List String) : List String :=
  (entries.map Text.trim).filter fun a => a != ""

/-- The draft of a configuration. -/
def ofConfig (c : Config) : Except Config.Fault Draft := do
  let service ← (Peer.parseService c.service.kind).mapError .service
  let gigabytePrices ← prices c.node.gigabytePrices
  let hourlyPrices ← prices c.node.hourlyPrices
  return {
    moniker := c.node.moniker
    remoteUrl := c.node.remoteUrl
    listenOn := c.node.listenOn
    service := some service
    accountAddress := c.tx.fromAddress
    addressPart := c.node.addressPart
    gigabytePrices
    hourlyPrices
    rpcAddresses := endpoints c.query.rpcAddresses
    intervals := c.node.intervals
    policies := {
      query := ⟨c.query.maxRetries, c.query.retryDelay⟩
      broadcast := ⟨c.tx.broadcastRetries, c.tx.broadcastDelay⟩
      confirm := ⟨c.tx.confirmRetries, c.tx.confirmDelay⟩ }
    queryTimeout := c.query.timeout
    probeTimeout := c.query.probeTimeout
    tx := {
      chainId := c.tx.chainId
      fromName := c.tx.fromName
      feeGranter := c.tx.feeGranter
      gas := c.tx.gas
      gasAdjustment := c.tx.gasAdjustment
      gasPrices := c.tx.gasPrices
      simulate := c.tx.simulate }
    maxPeers := c.service.maxPeers
    backendUrl := c.service.backendUrl
    geoipUrl := c.node.geoipUrl
    speedtestUrl := c.node.speedtestUrl }

/-- Freezes a draft. -/
def freeze (d : Draft) : Except Config.Fault NodeConfig :=
  match d.service with
  | none => .error .serviceMissing
  | some service =>
    if d.rpcAddresses.isEmpty then .error .noRpcAddress
    else match Address.ofAccount d.accountAddress d.addressPart with
    | .error e => .error (.account e)
    | .ok nodeAddress => .ok {
        moniker := d.moniker
        remoteUrl := d.remoteUrl
        listenOn := d.listenOn
        service
        accountAddress := d.accountAddress
        nodeAddress
        gigabytePrices := d.gigabytePrices
        hourlyPrices := d.hourlyPrices
        rpcAddresses := d.rpcAddresses
        intervals := d.intervals
        policies := d.policies
        queryTimeout := d.queryTimeout
        probeTimeout := d.probeTimeout
        tx := d.tx
        maxPeers := d.maxPeers
        backendUrl := d.backendUrl
        geoipUrl := d.geoipUrl
        speedtestUrl := d.speedtestUrl }

/-- A draft can be frozen exactly if it names a service and an endpoint and the node has
    an address. -/
theorem freeze_isOk_iff {d : Draft} :
    d.freeze.isOk ↔ d.service.isSome ∧ d.rpcAddresses ≠ [] ∧
      (Address.ofAccount d.accountAddress d.addressPart).isOk := by
  unfold freeze
  cases d.service with
  | none => simp [Except.isOk, Except.toBool]
  | some s =>
    cases hr : d.rpcAddresses with
    | nil => simp [Except.isOk, Except.toBool]
    | cons a r =>
      cases ha : Address.ofAccount d.accountAddress d.addressPart <;>
        simp [Except.isOk, Except.toBool]

end Draft

/-- The settings of a configuration. -/
def ofConfig (c : Config) : Except Config.Fault NodeConfig := do (← Draft.ofConfig c).freeze

end VpnNode.NodeConfig
