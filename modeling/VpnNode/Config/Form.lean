import VpnNode.Config.Basic
import VpnNode.Toml.Sheet
import VpnNode.Toml.Statement

/-!
# The form of a configuration

A configuration is written as a TOML sheet with a section for each group of settings. In
reading, a setting that is missing has its default, and unknown settings and sections are
passed over. A section may also be given as an array of its settings in order.

Main statements:

* `Field.readText_toValue`, `Field.readNat_toValue`, `Field.readTexts_toValue`: a setting is
  read back from what is written for it.
-/

namespace VpnNode.Config

/-- A setting of a section: its key, how a value changes the section, and what is written
    for it, if anything. -/
structure Field (σ : Type) where
  key : String
  read : Toml.Value → σ → Option σ
  entry : σ → Option Toml.Entry

namespace Field

/-! ## Kinds of settings -/

def readText : Toml.Value → Option String
  | .text s => some s
  | _ => none

/-- A whole number from zero up to a limit that is excluded. -/
def readNat (limit : Nat) : Toml.Value → Option Nat
  | .integer n => if 0 ≤ n ∧ n < limit then some n.toNat else none
  | _ => none

def readReal : Toml.Value → Option Binary64
  | .real x => some x
  | .integer n => some (Binary64.ofInt n)
  | _ => none

def readFlag : Toml.Value → Option Bool
  | .flag b => some b
  | _ => none

def readTexts : Toml.Value → Option (List String)
  | .array items => items.mapM readText
  | _ => none

/-- A setting of one kind, with its place in a section. -/
def of (key : String) (read : Toml.Value → Option α) (entry : α → Option Toml.Entry)
    (get : σ → α) (set : α → σ → σ) : Field σ where
  key
  read := fun v s => (read v).map fun a => set a s
  entry := fun s => entry (get s)

def text (key : String) : (σ → String) → (String → σ → σ) → Field σ :=
  of key readText fun s => some (.text s)

def optionalText (key : String) : (σ → Option String) → (Option String → σ → σ) → Field σ :=
  of key (fun v => (readText v).map some) fun s => s.map .text

def uint64 (key : String) : (σ → UInt64) → (UInt64 → σ → σ) → Field σ :=
  of key (fun v => (readNat UInt64.size v).map UInt64.ofNat) fun n => some (.integer n.toNat)

def uint32 (key : String) : (σ → UInt32) → (UInt32 → σ → σ) → Field σ :=
  of key (fun v => (readNat UInt32.size v).map UInt32.ofNat) fun n => some (.integer n.toNat)

def real (key : String) : (σ → Binary64) → (Binary64 → σ → σ) → Field σ :=
  of key readReal fun x => some (.real x)

def flag (key : String) : (σ → Bool) → (Bool → σ → σ) → Field σ :=
  of key readFlag fun b => some (.flag b)

def texts (key : String) : (σ → List String) → (List String → σ → σ) → Field σ :=
  of key readTexts fun ss => some (.texts ss)

/-! ## Sections -/

/-- Reads the settings that a table has. -/
def readMembers (fields : List (Field σ)) (ms : Toml.Members) (s : σ) : Option σ :=
  fields.foldlM (fun s f =>
    match ms.lookup f.key with
    | some v => f.read v s
    | none => some s) s

/-- Reads settings in order, as far as they go. -/
def readItems (fields : List (Field σ)) (vs : List Toml.Value) (s : σ) : Option σ :=
  (fields.zip vs).foldlM (fun s (f, v) => f.read v s) s

/-- Reads a section over its defaults. A moment has no settings. -/
def readSection (fields : List (Field σ)) (s : σ) : Toml.Value → Option σ
  | .table _ ms => readMembers fields ms s
  | .array vs => readItems fields vs s
  | .tables ts => readItems fields (ts.map (.table .header)) s
  | .moment _ => some s
  | _ => none

/-- The lines of a section. -/
def lines (fields : List (Field σ)) (s : σ) : List (String × Toml.Entry) :=
  fields.filterMap fun f => (f.entry s).map fun e => (f.key, e)

/-- Every text is read back from what is written for it. -/
theorem readText_toValue (s : String) : readText (Toml.Entry.text s).toValue = some s := rfl

/-- Every whole number in its range is read back. -/
theorem readNat_toValue {n limit : Nat} (h : n < limit) :
    readNat limit (Toml.Entry.integer n).toValue = some n := by
  simp [readNat, Toml.Entry.toValue, h]

/-- Every list of texts is read back. -/
theorem readTexts_toValue (ss : List String) :
    readTexts (Toml.Entry.texts ss).toValue = some ss := by
  induction ss with
  | nil => rfl
  | cons s ss ih =>
    simp only [readTexts, Toml.Entry.toValue, List.map_cons, List.mapM_cons] at ih ⊢
    simp [ih, readText]

end Field

/-! ## The settings -/

def NodeSection.fields : List (Field NodeSection) :=
  [.text "moniker" (·.moniker) fun a s => { s with moniker := a },
    .text "listen_on" (·.listenOn) fun a s => { s with listenOn := a },
    .text "remote_url" (·.remoteUrl) fun a s => { s with remoteUrl := a },
    .text "address_prefix" (·.addressPart) fun a s => { s with addressPart := a },
    .text "gigabyte_prices" (·.gigabytePrices) fun a s => { s with gigabytePrices := a },
    .text "hourly_prices" (·.hourlyPrices) fun a s => { s with hourlyPrices := a },
    .text "geoip_url" (·.geoipUrl) fun a s => { s with geoipUrl := a },
    .text "speedtest_url" (·.speedtestUrl) fun a s => { s with speedtestUrl := a },
    .uint64 "interval_best_rpc_endpoint_secs" (·.intervals.bestRpcEndpoint) fun a s =>
      { s with intervals := { s.intervals with bestRpcEndpoint := a } },
    .uint64 "interval_geoip_location_secs" (·.intervals.geoipLocation) fun a s =>
      { s with intervals := { s.intervals with geoipLocation := a } },
    .uint64 "interval_session_usage_sync_with_blockchain_secs" (·.intervals.usageToChain)
      fun a s => { s with intervals := { s.intervals with usageToChain := a } },
    .uint64 "interval_session_usage_sync_with_database_secs" (·.intervals.usageToLedger)
      fun a s => { s with intervals := { s.intervals with usageToLedger := a } },
    .uint64 "interval_session_usage_validate_secs" (·.intervals.usageValidation) fun a s =>
      { s with intervals := { s.intervals with usageValidation := a } },
    .uint64 "interval_session_validate_secs" (·.intervals.sessionValidation) fun a s =>
      { s with intervals := { s.intervals with sessionValidation := a } },
    .uint64 "interval_speedtest_secs" (·.intervals.speedtest) fun a s =>
      { s with intervals := { s.intervals with speedtest := a } },
    .uint64 "interval_status_update_secs" (·.intervals.statusUpdate) fun a s =>
      { s with intervals := { s.intervals with statusUpdate := a } }]

def QuerySection.fields : List (Field QuerySection) :=
  [.texts "rpc_addrs" (·.rpcAddresses) fun a s => { s with rpcAddresses := a },
    .uint32 "max_retries" (·.maxRetries) fun a s => { s with maxRetries := a },
    .uint64 "retry_delay_ms" (·.retryDelay) fun a s => { s with retryDelay := a },
    .uint64 "timeout_ms" (·.timeout) fun a s => { s with timeout := a },
    .uint64 "probe_timeout_ms" (·.probeTimeout) fun a s => { s with probeTimeout := a }]

def TxSection.fields : List (Field TxSection) :=
  [.text "chain_id" (·.chainId) fun a s => { s with chainId := a },
    .text "from_name" (·.fromName) fun a s => { s with fromName := a },
    .text "from_address" (·.fromAddress) fun a s => { s with fromAddress := a },
    .optionalText "fee_granter_address" (·.feeGranter) fun a s => { s with feeGranter := a },
    .uint64 "gas" (·.gas) fun a s => { s with gas := a },
    .real "gas_adjustment" (·.gasAdjustment) fun a s => { s with gasAdjustment := a },
    .text "gas_prices" (·.gasPrices) fun a s => { s with gasPrices := a },
    .flag "simulate_and_execute" (·.simulate) fun a s => { s with simulate := a },
    .uint32 "broadcast_max_retries" (·.broadcastRetries) fun a s =>
      { s with broadcastRetries := a },
    .uint64 "broadcast_retry_delay_ms" (·.broadcastDelay) fun a s => { s with broadcastDelay := a },
    .uint32 "confirm_max_retries" (·.confirmRetries) fun a s => { s with confirmRetries := a },
    .uint64 "confirm_retry_delay_ms" (·.confirmDelay) fun a s => { s with confirmDelay := a }]

def ServiceSection.fields : List (Field ServiceSection) :=
  [.text "type" (·.kind) fun a s => { s with kind := a },
    .text "backend_url" (·.backendUrl) fun a s => { s with backendUrl := a },
    .uint64 "max_peers" (·.maxPeers) fun a s => { s with maxPeers := a }]

def LogSection.fields : List (Field LogSection) :=
  [.text "level" (·.level) fun a s => { s with level := a }]

/-- A section of a configuration: its name, how a value changes the configuration, and
    its lines. -/
structure Part where
  name : String
  read : Toml.Value → Config → Option Config
  lines : Config → List (String × Toml.Entry)

/-- A section with its settings and its place in a configuration. -/
def Part.of (name : String) (fields : List (Field σ)) (initial : σ) (get : Config → σ)
    (set : σ → Config → Config) : Part where
  name
  read := fun v c => (Field.readSection fields initial v).map fun s => set s c
  lines := fun c => Field.lines fields (get c)

/-- The sections, in order. -/
def parts : List Part :=
  [.of "node" NodeSection.fields {} (·.node) fun s c => { c with node := s },
    .of "query" QuerySection.fields {} (·.query) fun s c => { c with query := s },
    .of "tx" TxSection.fields {} (·.tx) fun s c => { c with tx := s },
    .of "service" ServiceSection.fields {} (·.service) fun s c => { c with service := s },
    .of "log" LogSection.fields {} (·.log) fun s c => { c with log := s }]

/-- The configuration that the members of a text make. -/
def ofMembers? (ms : Toml.Members) : Option Config :=
  parts.foldlM (fun c p =>
    match ms.lookup p.name with
    | some v => p.read v c
    | none => some c) {}

/-- Reads a configuration. -/
def parse (text : String) : Except Error Config :=
  match (Toml.Members.ofText? text).bind ofMembers? with
  | some c => .ok c
  | none => .error .parse

/-- The sections of a configuration and their lines. -/
def sheet (c : Config) : Toml.Sheet := parts.map fun p => (p.name, p.lines c)

/-- The text of a configuration; whole numbers beyond 63 bits cannot be written. -/
def render (c : Config) : Except Error String :=
  if c.sheet.isWritable then .ok (String.ofList c.sheet.write) else .error .serialize

end VpnNode.Config
