import VpnNode.Peer.Identity
import VpnNode.Proofs.Codec.Uuid

/-!
# Canonical keys

Main statements:

* `ofKey_key`: the canonical key of an identity stands for that identity.
* `canonical?_eq_some_iff`: the canonical form of a key.
* `isAllBlank_key`: a canonical key may stand in a row.
-/

namespace VpnNode.Peer.Identity

/-- The canonical key of an identity stands for that identity, at the kind of service that
    it was made for. -/
theorem ofKey_key {service : Service} {key : String} {i : Identity}
    (h : ofKey service key = .ok i) : ofKey service i.key = .ok i := by
  unfold ofKey at h
  cases service with
  | v2ray =>
    simp only at h
    split at h
    · rename_i u _
      cases h
      simp only [ofKey, Identity.key, Uuid.trim_render, Uuid.parse_render]
    · cases h
  | wireguard =>
    simp only at h
    split at h
    · cases h
    · rename_i raw _
      split at h
      · rename_i hlen
        cases h
        simp only [ofKey, Identity.key, Base64.trim_encode, Base64.decode_encode, hlen, if_true]
      · cases h

/-- The canonical form of a key, if the kind of service knows the key. -/
def canonical? (service : Service) (key : String) : Option String :=
  match ofKey service key with
  | .ok i => some i.key
  | .error _ => none

theorem canonical?_of_ok {service : Service} {key : String} {i : Identity}
    (h : ofKey service key = .ok i) : canonical? service key = some i.key := by
  unfold canonical?
  rw [h]

theorem canonical?_of_error {service : Service} {key : String} {e : Error}
    (h : ofKey service key = .error e) : canonical? service key = none := by
  unfold canonical?
  rw [h]

theorem canonical?_eq_some_iff {service : Service} {key k : String} :
    canonical? service key = some k ↔ ∃ i, ofKey service key = .ok i ∧ i.key = k := by
  unfold canonical?
  cases ofKey service key with
  | error e => simp
  | ok i => simp

/-- A canonical key may stand in a row: it holds more than blanks. -/
theorem isAllBlank_key {service : Service} {key : String} {i : Identity}
    (h : ofKey service key = .ok i) : Text.isAllBlank i.key = false := by
  have hfirst : ∀ cs : List Char, cs ≠ [] → (∀ c ∈ cs, Text.isBlank c = false) →
      Text.isAllBlank (String.ofList cs) = false := by
    intro cs hne hcs
    obtain ⟨c, hc⟩ := List.exists_mem_of_ne_nil cs hne
    rw [Text.isAllBlank, String.toList_ofList, List.all_eq_false]
    exact ⟨c, hc, by rw [hcs c hc]; exact Bool.false_ne_true⟩
  unfold ofKey at h
  cases service with
  | v2ray =>
    simp only at h
    split at h
    · rename_i u _
      cases h
      refine hfirst _ ?_ (Uuid.isBlank_hyphenated _ _)
      rw [← List.length_pos_iff, Uuid.length_hyphenated u.length_eq]
      omega
    · cases h
  | wireguard =>
    simp only at h
    split at h
    · cases h
    · rename_i raw _
      split at h
      · rename_i hlen
        cases h
        refine hfirst _ (fun hnil => ?_) (Base64.isBlank_write _)
        have hread := Base64.read?_write raw
        rw [hnil] at hread
        cases hread
        cases hlen
      · cases h

end VpnNode.Peer.Identity
