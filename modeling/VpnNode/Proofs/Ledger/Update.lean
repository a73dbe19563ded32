import VpnNode.Ledger.Filter

/-!
# What an update leaves alone

An update may write the counters of a row, its duration, its signature and the time of
the write. Who the client is, what it may use and when it came are fixed.

Main statement:

* `Update.apply_fixed`: an update keeps the fixed fields of a row.
-/

namespace VpnNode

namespace Session

/-- Two versions of a row that differ at most in the fields that usage reports write. -/
structure Fixed (s t : Session) : Prop where
  id : t.id = s.id
  accountAddress : t.accountAddress = s.accountAddress
  nodeAddress : t.nodeAddress = s.nodeAddress
  maxBytes : t.maxBytes = s.maxBytes
  maxDuration : t.maxDuration = s.maxDuration
  peerKey : t.peerKey = s.peerKey
  service : t.service = s.service
  createdAt : t.createdAt = s.createdAt

theorem Fixed.refl (s : Session) : Fixed s s := ⟨rfl, rfl, rfl, rfl, rfl, rfl, rfl, rfl⟩

theorem Fixed.trans {s t u : Session} (h : Fixed s t) (h' : Fixed t u) : Fixed s u where
  id := h'.id.trans h.id
  accountAddress := h'.accountAddress.trans h.accountAddress
  nodeAddress := h'.nodeAddress.trans h.nodeAddress
  maxBytes := h'.maxBytes.trans h.maxBytes
  maxDuration := h'.maxDuration.trans h.maxDuration
  peerKey := h'.peerKey.trans h.peerKey
  service := h'.service.trans h.service
  createdAt := h'.createdAt.trans h.createdAt

theorem applyDownload_fixed {s t : Session} {download : Option Nat}
    (h : s.applyDownload download = .ok t) : Fixed s t := by
  unfold applyDownload at h
  cases download with
  | none => cases h; exact Fixed.refl s
  | some n =>
    dsimp only at h
    split at h
    · cases h
    · cases h; exact ⟨rfl, rfl, rfl, rfl, rfl, rfl, rfl, rfl⟩

theorem applyUpload_fixed {s t : Session} {upload : Option Nat}
    (h : s.applyUpload upload = .ok t) : Fixed s t := by
  unfold applyUpload at h
  cases upload with
  | none => cases h; exact Fixed.refl s
  | some n =>
    dsimp only at h
    split at h
    · cases h
    · cases h; exact ⟨rfl, rfl, rfl, rfl, rfl, rfl, rfl, rfl⟩

theorem applyUsage_fixed {s t : Session} {download upload : Option Nat} {now : Time}
    (h : s.applyUsage download upload now = .ok t) : Fixed s t := by
  unfold applyUsage at h
  split at h
  · cases h; exact Fixed.refl s
  · cases hd : s.applyDownload download with
    | error i => rw [hd] at h; cases h
    | ok s₁ =>
      cases hu : s₁.applyUpload upload with
      | error i => simp [hd, hu, bind, Except.bind] at h
      | ok s₂ =>
        simp only [hd, hu, bind, Except.bind, pure, Except.pure, Except.ok.injEq] at h
        subst h
        exact ((applyDownload_fixed hd).trans (applyUpload_fixed hu)).trans
          ⟨rfl, rfl, rfl, rfl, rfl, rfl, rfl, rfl⟩

end Session

namespace Ledger

/-- An update keeps the fixed fields of a row. -/
theorem Update.apply_fixed {u : Update} {s t : Session} (h : u.apply s = .ok t) : s.Fixed t := by
  unfold apply at h
  split at h
  · cases h
  · rename_i s₁ hs
    cases h
    exact (Session.applyUsage_fixed hs).trans ⟨rfl, rfl, rfl, rfl, rfl, rfl, rfl, rfl⟩

end Ledger

end VpnNode
