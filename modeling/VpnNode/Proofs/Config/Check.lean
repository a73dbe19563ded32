import Mathlib.Tactic.MkIffOfInductiveProp
import VpnNode.Config.Basic

/-!
# What the check of a configuration establishes

Main statement:

* `validate_eq_ok_iff_sound`: a configuration passes exactly if it is sound.
-/

namespace VpnNode.Config

/-- What the check demands of a configuration. -/
@[mk_iff]
structure Sound (c : Config) : Prop where
  moniker : ¬ Text.isAllBlank c.node.moniker
  listenOn : ¬ Text.isAllBlank c.node.listenOn
  remoteUrl : ¬ Text.isAllBlank c.node.remoteUrl
  addressPart : ¬ Text.isAllBlank c.node.addressPart
  gigabytePrices : ∃ coins, Coin.parseList c.node.gigabytePrices = .ok coins
  hourlyPrices : ∃ coins, Coin.parseList c.node.hourlyPrices = .ok coins
  intervals : ∀ n ∈ c.node.intervals.toList, 0 < n
  endpoint : ∃ a ∈ c.query.rpcAddresses, ¬ Text.isAllBlank a
  timeout : 0 < c.query.timeout
  probeTimeout : 0 < c.query.probeTimeout
  chainId : ¬ Text.isAllBlank c.tx.chainId
  fromName : ¬ Text.isAllBlank c.tx.fromName
  fromAddress : ¬ Text.isAllBlank c.tx.fromAddress
  gas : 0 < c.tx.gas
  gasAdjustment : c.tx.gasAdjustment.isAtMostZero = false
  kind : ¬ Text.isAllBlank c.service.kind
  maxPeers : 0 < c.service.maxPeers

theorem demand_eq_ok_iff {holds : Bool} {fault : Fault} : demand holds fault = .ok () ↔ holds := by
  unfold demand
  split <;> simp_all

theorem demandPrices_eq_ok_iff {text : String} :
    demandPrices text = .ok () ↔ ∃ coins, Coin.parseList text = .ok coins := by
  unfold demandPrices
  split <;> simp_all

/-- A configuration passes exactly if it is sound. -/
theorem validate_eq_ok_iff_sound {c : Config} : c.validate = .ok () ↔ c.Sound := by
  rw [validate_eq_ok_iff, sound_iff]
  simp [rules, demand_eq_ok_iff, demandPrices_eq_ok_iff, Intervals.keys, Intervals.toList,
    UInt64.pos_iff_ne_zero, and_assoc]

end VpnNode.Config
