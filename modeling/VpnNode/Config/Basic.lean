import VpnNode.Coin
import VpnNode.Number.Binary64
import VpnNode.Address
import VpnNode.Peer.Error

/-!
# The configuration file

The settings of a node in five sections, each setting with a default, and the check of
those settings that an operator must supply.

Main statement:

* `validate_eq_ok_iff`: a configuration passes exactly if every rule finds it sound.
-/

namespace VpnNode

/-- How many seconds pass between two runs of each job. -/
structure Intervals where
  bestRpcEndpoint : UInt64 := 15
  geoipLocation : UInt64 := 86400
  usageToChain : UInt64 := 3600
  usageToLedger : UInt64 := 5
  usageValidation : UInt64 := 5
  sessionValidation : UInt64 := 60
  speedtest : UInt64 := 604800
  statusUpdate : UInt64 := 1800
  deriving DecidableEq

namespace Intervals

/-- The intervals in order. -/
def toList (i : Intervals) : List UInt64 :=
  [i.bestRpcEndpoint, i.geoipLocation, i.usageToChain, i.usageToLedger, i.usageValidation,
    i.sessionValidation, i.speedtest, i.statusUpdate]

/-- The names of the settings, in the same order. -/
def keys : List String :=
  ["interval_best_rpc_endpoint_secs", "interval_geoip_location_secs",
    "interval_session_usage_sync_with_blockchain_secs",
    "interval_session_usage_sync_with_database_secs", "interval_session_usage_validate_secs",
    "interval_session_validate_secs", "interval_speedtest_secs", "interval_status_update_secs"]

end Intervals

namespace Config

structure NodeSection where
  moniker : String := ""
  listenOn : String := "0.0.0.0:7777"
  remoteUrl : String := ""
  addressPart : String := "sentnode"
  gigabytePrices : String := ""
  hourlyPrices : String := ""
  geoipUrl : String := "http://ip-api.com/json"
  speedtestUrl : String := ""
  intervals : Intervals := {}
  deriving DecidableEq

structure QuerySection where
  rpcAddresses : List String := ["http://127.0.0.1:26657"]
  maxRetries : UInt32 := 5
  retryDelay : UInt64 := 1000
  timeout : UInt64 := 15000
  probeTimeout : UInt64 := 15000
  deriving DecidableEq

/-- The gas adjustment where none is set: 1.15. -/
def defaultGasAdjustment : Binary64 := Binary64.ofDecimal false 115 (-2)

structure TxSection where
  chainId : String := ""
  fromName : String := ""
  fromAddress : String := ""
  feeGranter : Option String := none
  gas : UInt64 := 200000
  gasAdjustment : Binary64 := defaultGasAdjustment
  gasPrices : String := "0.1udvpn"
  simulate : Bool := true
  broadcastRetries : UInt32 := 5
  broadcastDelay : UInt64 := 6000
  confirmRetries : UInt32 := 60
  confirmDelay : UInt64 := 1000
  deriving DecidableEq

structure ServiceSection where
  kind : String := "wireguard"
  backendUrl : String := "http://127.0.0.1:7878"
  maxPeers : UInt64 := 250
  deriving DecidableEq

structure LogSection where
  level : String := "info"
  deriving DecidableEq

end Config

/-- The settings of a node. -/
structure Config where
  node : Config.NodeSection := {}
  query : Config.QuerySection := {}
  tx : Config.TxSection := {}
  service : Config.ServiceSection := {}
  log : Config.LogSection := {}
  deriving DecidableEq

namespace Config

/-- A rule that a configuration breaks. -/
inductive Fault where
  /-- A setting that must be given is blank. -/
  | blank (field : String)
  /-- A setting of a transaction that must be given is blank. -/
  | empty (field : String)
  | coin (fault : Coin.Fault)
  | notPositive (field : String)
  | noRpcEntry
  | zeroTimeout
  | service (error : Peer.Error)
  | serviceMissing
  | noRpcAddress
  | account (error : Address.Error)
  deriving DecidableEq

def Fault.message : Fault → String
  | .blank field => s!"{field} must be non-empty"
  | .empty field => s!"{field} must not be empty"
  | .coin fault => fault.message
  | .notPositive field => s!"{field} must be greater than zero"
  | .noRpcEntry => "at least one query.rpc_addrs entry must be provided"
  | .zeroTimeout => "query timeouts must be greater than zero"
  | .service error => error.message
  | .serviceMissing => "service type is not set"
  | .noRpcAddress => "no rpc address configured"
  | .account error => s!"account address: {error.message}"

/-- Why a configuration cannot be had. -/
inductive Error where
  /-- The file system refused, with this text. -/
  | io (reason : String)
  /-- The text is no configuration. -/
  | parse
  /-- The configuration has no text. -/
  | serialize
  | invalid (fault : Fault)
  deriving DecidableEq

def Error.message : Error → String
  | .io reason => s!"failed to read config file: {reason}"
  | .parse => "failed to parse config file"
  | .serialize => "failed to serialize config"
  | .invalid fault => s!"invalid config: {fault.message}"

/-! ## The check -/

/-- A rule holds, or its fault is reported. -/
def demand (holds : Bool) (fault : Fault) : Except Fault Unit := if holds then .ok () else .error fault

/-- A list of prices can be read. -/
def demandPrices (text : String) : Except Fault Unit :=
  match Coin.parseList text with
  | .ok _ => .ok ()
  | .error fault => .error (.coin fault)

/-- The rules, in the order in which they are applied. -/
def rules (c : Config) : List (Except Fault Unit) :=
  [demand (!Text.isAllBlank c.node.moniker) (.blank "node.moniker"),
    demand (!Text.isAllBlank c.node.listenOn) (.blank "node.listen_on"),
    demand (!Text.isAllBlank c.node.remoteUrl) (.blank "node.remote_url"),
    demand (!Text.isAllBlank c.node.addressPart) (.blank "node.address_prefix"),
    demandPrices c.node.gigabytePrices,
    demandPrices c.node.hourlyPrices] ++
  (Intervals.keys.zip c.node.intervals.toList).map (fun (key, seconds) =>
    demand (seconds != 0) (.notPositive s!"node.{key}")) ++
  [demand (c.query.rpcAddresses.any fun a => !Text.isAllBlank a) .noRpcEntry,
    demand (c.query.timeout != 0 && c.query.probeTimeout != 0) .zeroTimeout,
    demand (!Text.isAllBlank c.tx.chainId) (.empty "tx.chain_id"),
    demand (!Text.isAllBlank c.tx.fromName) (.empty "tx.from_name"),
    demand (!Text.isAllBlank c.tx.fromAddress) (.empty "tx.from_address"),
    demand (c.tx.gas != 0) (.notPositive "tx.gas"),
    demand (!c.tx.gasAdjustment.isAtMostZero) (.notPositive "tx.gas_adjustment"),
    demand (!Text.isAllBlank c.service.kind) (.blank "service.type"),
    demand (c.service.maxPeers != 0) (.notPositive "service.max_peers")]

/-- Checks the settings that have no usable default; reports the first fault. -/
def validate (c : Config) : Except Fault Unit := c.rules.forM id

theorem forM_id_eq_ok_iff {xs : List (Except ε Unit)} :
    xs.forM id = .ok () ↔ ∀ x ∈ xs, x = .ok () := by
  induction xs with
  | nil => simp [pure, Except.pure]
  | cons x r ih =>
    have h : (x :: r).forM id = x.bind fun _ => r.forM id := rfl
    rw [h]
    cases x with
    | error e => simp [Except.bind]
    | ok v => simpa [Except.bind] using ih

/-- A configuration passes exactly if every rule finds it sound. -/
theorem validate_eq_ok_iff {c : Config} : c.validate = .ok () ↔ ∀ r ∈ c.rules, r = .ok () :=
  forM_id_eq_ok_iff

/-- Do two configurations agree, their numbers compared as numbers? -/
def agrees (a b : Config) : Bool :=
  a.tx.gasAdjustment.equals b.tx.gasAdjustment &&
    decide ({ a with tx := { a.tx with gasAdjustment := .zero } } =
      { b with tx := { b.tx with gasAdjustment := .zero } })

end VpnNode.Config
