import VpnNode.Peer.Table

/-!
# Additions and removals at a backend in memory

Main statements:

* `add_eq_ok_iff`, `remove_eq_ok_iff`: when a peer is connected or disconnected, and what
  the table is then.
* `remove_add`: a removal takes back an addition.
* `size_add`, `size_remove`: how many peers there are then.
* `getElem?_dismiss`: a removal that may find nobody concerns one key.
* `Balanced.ext`: which peers are left tells how many removals there were.
-/

namespace VpnNode.Peer.Table

variable {t u : Table} {i : Identity}

theorem checkService_eq_ok_iff : t.checkService i = .ok () ↔ i.service = t.service := by
  unfold checkService
  split <;> simp_all

/-- A peer is connected if it is of the table's kind and new, and there is room. -/
theorem add_eq_ok_iff {data : List UInt8} :
    t.add i = .ok (data, u) ↔ i.service = t.service ∧ t.contains i.key = false ∧
      t.peers.size < t.capacity ∧ data = Utf8.octets i.key ∧
      u = { t with peers := t.peers.insert i.key ⟨0, 0⟩ } := by
  unfold add checkService
  by_cases hs : i.service = t.service
  · by_cases hc : t.contains i.key
    · simp [hs, hc, bind, Except.bind, throw, throwThe, MonadExceptOf.throw]
    · by_cases hl : t.capacity ≤ t.peers.size
      · have hnot : ¬ t.peers.size < t.capacity := by omega
        simp [hs, hc, hl, hnot, bind, Except.bind, throw, throwThe, MonadExceptOf.throw]
      · have hlt : t.peers.size < t.capacity := by omega
        simp [hs, hc, hl, hlt, bind, Except.bind, pure, Except.pure, eq_comm]
  · simp [hs, bind, Except.bind]

/-- A backend knows whether it has a peer of its kind. -/
theorem has_eq (h : i.service = t.service) : t.has i = .ok (t.contains i.key) := by
  unfold has
  rw [checkService_eq_ok_iff.2 h]
  rfl

theorem remove_eq_ok_iff :
    t.remove i = .ok u ↔ i.service = t.service ∧ t.contains i.key ∧
      u = { t with peers := t.peers.erase i.key, removals := t.removals + 1 } := by
  unfold remove checkService
  by_cases hs : i.service = t.service
  · by_cases hc : t.contains i.key
    · simp [hs, hc, bind, Except.bind, pure, Except.pure, eq_comm]
    · simp [hs, hc, bind, Except.bind, throw, throwThe, MonadExceptOf.throw]
  · simp [hs, bind, Except.bind]

/-- Traffic connects nobody and disconnects nobody. -/
theorem contains_setUsage (t : Table) (key : String) (usage : Usage) (k : String) :
    (t.setUsage key usage).contains k = t.contains k := by
  unfold setUsage
  split
  · rename_i hkey
    simp only [contains, Std.ExtTreeMap.contains_insert, compare_beq_eq]
    by_cases hk : k = key
    · subst hk
      rw [beq_self_eq_true, Bool.true_or]
      exact hkey.symm
    · rw [beq_false_of_ne hk, Bool.false_or]
  · rfl

theorem service_setUsage (t : Table) (key : String) (usage : Usage) :
    (t.setUsage key usage).service = t.service := by
  unfold setUsage
  split <;> rfl

/-- Erasing a key that has just been put in leaves what was there. -/
theorem erase_insert {m : Std.ExtTreeMap String Usage} {key : String} {usage : Usage}
    (h : m.contains key = false) : (m.insert key usage).erase key = m := by
  apply Std.ExtTreeMap.ext_getElem?
  intro k
  rw [Std.ExtTreeMap.getElem?_erase, Std.ExtTreeMap.getElem?_insert]
  simp only [Std.compare_eq_iff_eq]
  split
  · rename_i hk
    subst hk
    rw [Std.ExtTreeMap.contains_eq_isSome_getElem?] at h
    cases hm : m[key]? with
    | none => rfl
    | some u =>
      rw [hm] at h
      cases h
  · rfl

/-- A removal takes back an addition; only the removal is counted. -/
theorem remove_add {data : List UInt8} (h : t.add i = .ok (data, u)) :
    u.remove i = .ok { t with removals := t.removals + 1 } := by
  obtain ⟨hs, hc, -, -, rfl⟩ := add_eq_ok_iff.1 h
  refine remove_eq_ok_iff.2 ⟨hs, ?_, ?_⟩
  · simp [contains]
  · rw [erase_insert hc]

/-! ## How many peers there are -/

theorem size_add {data : List UInt8} (h : t.add i = .ok (data, u)) :
    u.peers.size = t.peers.size + 1 := by
  obtain ⟨-, hc, -, -, rfl⟩ := add_eq_ok_iff.1 h
  have hmem : i.key ∉ t.peers := by
    rw [← Std.ExtTreeMap.contains_iff_mem]
    exact ne_true_of_eq_false hc
  exact Std.ExtTreeMap.size_insert.trans (if_neg hmem)

theorem size_remove (h : t.remove i = .ok u) : u.peers.size = t.peers.size - 1 := by
  obtain ⟨-, hc, rfl⟩ := remove_eq_ok_iff.1 h
  exact Std.ExtTreeMap.size_erase.trans (if_pos (Std.ExtTreeMap.contains_iff_mem.1 hc))

theorem size_setUsage (t : Table) (key : String) (usage : Usage) :
    (t.setUsage key usage).peers.size = t.peers.size := by
  unfold setUsage
  split
  · rename_i hc
    exact Std.ExtTreeMap.size_insert.trans (if_pos (Std.ExtTreeMap.contains_iff_mem.1 hc))
  · rfl

theorem capacity_setUsage (t : Table) (key : String) (usage : Usage) :
    (t.setUsage key usage).capacity = t.capacity := by
  unfold setUsage
  split <;> rfl

/-! ## Counters -/

theorem contains_eq_isSome (t : Table) (key : String) : t.contains key = t.peers[key]?.isSome :=
  Std.ExtTreeMap.contains_eq_isSome_getElem?

/-- Every peer that is connected has sent and received this much. -/
def withUsage (t : Table) (usage : String → Usage) : Table :=
  { t with peers := t.peers.map fun key _ => usage key }

@[simp] theorem contains_withUsage (t : Table) (usage : String → Usage) (key : String) :
    (t.withUsage usage).contains key = t.contains key :=
  Std.ExtTreeMap.contains_map

/-- The statistics list every peer once, under its key. -/
theorem nodup_keys_statistics (t : Table) : (t.statistics.map (·.key)).Nodup := by
  have hkeys : t.statistics.map (·.key) = t.peers.keys := by
    rw [← Std.ExtTreeMap.map_fst_toList_eq_keys, statistics, List.map_map]
    rfl
  rw [hkeys]
  exact Std.ExtTreeMap.nodup_keys

theorem mem_statistics {t : Table} {stat : Statistic} :
    stat ∈ t.statistics ↔ t.peers[stat.key]? = some ⟨stat.download, stat.upload⟩ := by
  unfold statistics
  rw [List.mem_map, ← Std.ExtTreeMap.mem_toList_iff_getElem?_eq_some]
  constructor
  · rintro ⟨⟨key, u⟩, hmem, rfl⟩
    exact hmem
  · exact fun hmem => ⟨_, hmem, rfl⟩

/-- A peer is listed with its counters, whoever else is connected. -/
theorem mem_statistics_withUsage {t : Table} {usage : String → Usage} {stat : Statistic} :
    stat ∈ (t.withUsage usage).statistics ↔
      t.contains stat.key = true ∧ usage stat.key = ⟨stat.download, stat.upload⟩ := by
  rw [mem_statistics, withUsage, Std.ExtTreeMap.getElem?_map, contains_eq_isSome]
  cases t.peers[stat.key]? with
  | none => simp
  | some u => simp

/-! ## Removals that may find nobody -/

/-- Disconnects the peer with a key, if it is connected. -/
def dismiss (t : Table) (key : String) : Table :=
  if t.contains key then { t with peers := t.peers.erase key, removals := t.removals + 1 } else t

theorem dismiss_of_not_contains {key : String} (h : t.contains key = false) :
    t.dismiss key = t := by
  unfold dismiss
  rw [h]
  rfl

theorem remove_eq_dismiss (hs : i.service = t.service) (hc : t.contains i.key = true) :
    t.remove i = .ok (t.dismiss i.key) :=
  remove_eq_ok_iff.2 ⟨hs, hc, if_pos hc⟩

theorem remove_of_not_contains (hs : i.service = t.service) (hc : t.contains i.key = false) :
    t.remove i = .error (.notFound i.key) := by
  unfold remove
  rw [checkService_eq_ok_iff.2 hs, hc]
  rfl

@[simp] theorem service_dismiss (t : Table) (key : String) : (t.dismiss key).service = t.service := by
  unfold dismiss
  split <;> rfl

/-- Neither does a removal by a key that may stand for nobody change the kind of service. -/
theorem service_elim_dismiss (t : Table) (key : Option String) :
    (key.elim t t.dismiss).service = t.service := by
  cases key with
  | none => rfl
  | some key => exact t.service_dismiss key

/-- After that the key is not connected, and nothing else has changed. -/
theorem getElem?_dismiss (t : Table) (key k : String) :
    (t.dismiss key).peers[k]? = if key = k then none else t.peers[k]? := by
  unfold dismiss
  split
  · rw [Std.ExtTreeMap.getElem?_erase]
    simp only [Std.compare_eq_iff_eq]
  · rename_i hc
    split
    · rename_i hk
      subst hk
      rw [contains_eq_isSome] at hc
      simpa using hc
    · rfl

theorem contains_dismiss (t : Table) (key : String) : (t.dismiss key).contains key = false := by
  rw [contains_eq_isSome, getElem?_dismiss, if_pos rfl]
  rfl

theorem dismiss_dismiss (t : Table) (key : String) : (t.dismiss key).dismiss key = t.dismiss key :=
  dismiss_of_not_contains (t.contains_dismiss key)

/-! ## Removals are counted -/

/-- Peers have been disconnected, each by a removal that was counted, and nobody has been
    connected. -/
structure Balanced (t u : Table) : Prop where
  service : u.service = t.service
  capacity : u.capacity = t.capacity
  total : u.removals + u.peers.size = t.removals + t.peers.size

namespace Balanced

variable {v : Table}

theorem refl (t : Table) : Balanced t t := ⟨rfl, rfl, rfl⟩

theorem trans (h : Balanced t u) (h' : Balanced u v) : Balanced t v where
  service := h'.service.trans h.service
  capacity := h'.capacity.trans h.capacity
  total := h'.total.trans h.total

theorem remove (h : t.remove i = .ok u) : Balanced t u := by
  have hsize := size_remove h
  obtain ⟨-, hc, rfl⟩ := remove_eq_ok_iff.1 h
  refine ⟨rfl, rfl, ?_⟩
  have hpos : t.peers.size ≠ 0 := by
    intro hzero
    rw [contains, Std.ExtTreeMap.eq_empty_iff_size_eq_zero.2 hzero,
      Std.ExtTreeMap.contains_empty] at hc
    exact Bool.noConfusion hc
  show t.removals + 1 + (t.peers.erase i.key).size = _
  rw [hsize]
  omega

/-- Of tables that come from one, those with the same peers are equal. -/
theorem ext (h : Balanced t u) (h' : Balanced t v)
    (hpeers : ∀ key : String, u.peers[key]? = v.peers[key]?) : u = v := by
  have hsame : u.peers = v.peers := Std.ExtTreeMap.ext_getElem? hpeers
  have htotal := h.total.trans h'.total.symm
  rw [hsame, Nat.add_right_cancel_iff] at htotal
  obtain ⟨service, capacity, peers, removals⟩ := u
  obtain ⟨service', capacity', peers', removals'⟩ := v
  obtain rfl : service = service' := h.service.trans h'.service.symm
  obtain rfl : capacity = capacity' := h.capacity.trans h'.capacity.symm
  obtain rfl : peers = peers' := hsame
  obtain rfl : removals = removals' := htotal
  rfl

end Balanced

end VpnNode.Peer.Table
