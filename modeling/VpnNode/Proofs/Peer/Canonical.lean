import VpnNode.Proofs.Codec.Spelling
import VpnNode.Proofs.Peer.Identity

/-!
# Keys and what they denote

A key denotes the sixteen octets of a UUID or the 32 octets of a public key. Blanks around
it do not matter. Keys that denote the same octets stand for one identity, whose key is the
spelling that all of them share: of a public key there is no other, while a UUID has a few
forms and letters in either case.

Main statements:

* `ofKey_eq_ok_iff`: the identity of a key is made of the octets that it denotes.
* `denotes_wireguard_iff`, `denotes_v2ray_iff`: the spellings of octets.
* `keys_canonical`: keys have one canonical form.
-/

namespace VpnNode.Peer.Identity

/-- A key denotes octets. -/
def Denotes : Service → String → List UInt8 → Prop
  | .v2ray, key, bs => ∃ u, Uuid.parse (Text.trim key) = .ok u ∧ u.octets = bs
  | .wireguard, key, bs => Base64.decode (Text.trim key) = .ok bs ∧ bs.length = publicKeySize

/-- The identity that is made of octets. -/
def ofOctets : Service → List UInt8 → Identity
  | .v2ray, bs => .v2ray (String.ofList (Uuid.hyphenated Uuid.groupSizes bs))
  | .wireguard, bs => .wireguard (Base64.encode bs)

variable {service : Service} {key : String} {bs bs' : List UInt8} {i : Identity}

/-- The identity of a key is made of the octets that it denotes. -/
theorem ofKey_eq_ok_iff :
    ofKey service key = .ok i ↔ ∃ bs, Denotes service key bs ∧ i = ofOctets service bs := by
  unfold ofKey
  cases service with
  | v2ray =>
    dsimp only [Denotes]
    cases Uuid.parse (Text.trim key) with
    | error f => simp
    | ok u =>
      simp only [Except.ok.injEq]
      constructor
      · rintro rfl
        exact ⟨u.octets, ⟨u, rfl, rfl⟩, rfl⟩
      · rintro ⟨_, ⟨_, rfl, rfl⟩, rfl⟩
        rfl
  | wireguard =>
    dsimp only [Denotes]
    cases Base64.decode (Text.trim key) with
    | error f => simp
    | ok raw =>
      dsimp only
      split
      · rename_i hlength
        simp only [Except.ok.injEq]
        constructor
        · rintro rfl
          exact ⟨raw, ⟨rfl, hlength⟩, rfl⟩
        · rintro ⟨_, ⟨rfl, -⟩, rfl⟩
          rfl
      · rename_i hlength
        refine ⟨fun h => (by cases h), ?_⟩
        rintro ⟨_, ⟨hraw, hsize⟩, -⟩
        cases hraw
        exact absurd hsize hlength

theorem Denotes.unique (h : Denotes service key bs) (h' : Denotes service key bs') : bs = bs' := by
  cases service with
  | v2ray =>
    obtain ⟨u, hu, rfl⟩ := h
    obtain ⟨u', hu', rfl⟩ := h'
    rw [hu, Except.ok.injEq] at hu'
    rw [hu']
  | wireguard => exact Except.ok.inj (h.1.symm.trans h'.1)

/-- Octets are told apart by their identities. -/
theorem Denotes.ofOctets_inj {key' : String} (h : Denotes service key bs)
    (h' : Denotes service key' bs') (heq : ofOctets service bs = ofOctets service bs') :
    bs = bs' := by
  cases service with
  | v2ray =>
    obtain ⟨u, -, rfl⟩ := h
    obtain ⟨u', -, rfl⟩ := h'
    have hrender : u.render = u'.render := v2ray.inj heq
    have hread := u.parse_render
    rw [hrender, u'.parse_render, Except.ok.injEq] at hread
    rw [hread]
  | wireguard =>
    have hencode : Base64.encode bs = Base64.encode bs' := wireguard.inj heq
    have hread := Base64.decode_encode bs
    rw [hencode, Base64.decode_encode, Except.ok.injEq] at hread
    exact hread.symm

/-- Blanks around a key do not matter. -/
theorem trim_append {before after : List Char} (hbefore : before.all Text.isBlank)
    (hafter : after.all Text.isBlank) (key : String) :
    Text.trim (String.ofList (before ++ key.toList ++ after)) = Text.trim key := by
  rw [Text.trim, String.toList_ofList, Text.trimChars_append hbefore hafter, Text.trim]

/-- A public key has one spelling. -/
theorem denotes_wireguard_iff :
    Denotes .wireguard key bs ↔ bs.length = publicKeySize ∧ Text.trim key = Base64.encode bs := by
  rw [Denotes, Base64.decode_eq_ok_iff_eq_encode, and_comm]

/-- A UUID has four forms, with letters in either case. -/
theorem denotes_v2ray_iff : Denotes .v2ray key bs ↔
    ∃ u : Uuid, (Text.trim key).toList.map Char.toLower ∈ u.forms ∧ u.octets = bs := by
  simp only [Denotes, Uuid.parse_eq_ok_iff_mem_forms]

/-- Keys have one canonical form. Whatever blanks are around it, a key is accepted exactly
    if it denotes octets, and no others then. The key of its identity stands for that
    identity again, and two accepted keys have one identity exactly if they denote the same
    octets. A public key is accepted in one spelling only, which is its canonical key; a
    UUID is accepted in its four forms, with letters in either case, and its canonical key
    is the hyphenated one with letters in lower case. -/
theorem keys_canonical (service : Service) (key : String) :
    (∀ before after i, before.all Text.isBlank → after.all Text.isBlank →
      (ofKey service (String.ofList (before ++ key.toList ++ after)) = .ok i ↔
        ofKey service key = .ok i)) ∧
    ((∃ i, ofKey service key = .ok i) ↔ ∃ bs, Denotes service key bs) ∧
    (∀ bs bs', Denotes service key bs → Denotes service key bs' → bs = bs') ∧
    (∀ i, ofKey service key = .ok i → ofKey service i.key = .ok i) ∧
    (∀ key' i i', ofKey service key = .ok i → ofKey service key' = .ok i' →
      (i = i' ↔ ∃ bs, Denotes service key bs ∧ Denotes service key' bs)) ∧
    (∀ bs, Denotes .wireguard key bs ↔
      bs.length = publicKeySize ∧ Text.trim key = Base64.encode bs) ∧
    (∀ i, ofKey .wireguard key = .ok i → i.key = Text.trim key) ∧
    (∀ bs, Denotes .v2ray key bs ↔
      ∃ u : Uuid, (Text.trim key).toList.map Char.toLower ∈ u.forms ∧ u.octets = bs) ∧
    ∀ u : Uuid, (Text.trim key).toList.map Char.toLower ∈ u.forms →
      ofKey .v2ray key = .ok (.v2ray u.render) ∧ Text.asciiLower u.render = u.render := by
  refine ⟨?_, ?_, fun _ _ => Denotes.unique, fun i => ofKey_key, ?_,
    fun bs => denotes_wireguard_iff, ?_, fun bs => denotes_v2ray_iff, ?_⟩
  · intro before after i hbefore hafter
    rw [ofKey_eq_ok_iff, ofKey_eq_ok_iff]
    cases service <;> simp only [Denotes, trim_append hbefore hafter]
  · constructor
    · rintro ⟨i, hi⟩
      obtain ⟨bs, hbs, -⟩ := ofKey_eq_ok_iff.1 hi
      exact ⟨bs, hbs⟩
    · rintro ⟨bs, hbs⟩
      exact ⟨_, ofKey_eq_ok_iff.2 ⟨bs, hbs, rfl⟩⟩
  · intro key' i i' hi hi'
    obtain ⟨bs, hbs, rfl⟩ := ofKey_eq_ok_iff.1 hi
    obtain ⟨bs', hbs', rfl⟩ := ofKey_eq_ok_iff.1 hi'
    constructor
    · intro heq
      exact ⟨bs, hbs, hbs.ofOctets_inj hbs' heq ▸ hbs'⟩
    · rintro ⟨cs, hcs, hcs'⟩
      rw [hbs.unique hcs, hbs'.unique hcs']
  · intro i hi
    obtain ⟨bs, hbs, rfl⟩ := ofKey_eq_ok_iff.1 hi
    exact (denotes_wireguard_iff.1 hbs).2.symm
  · intro u hu
    have hdenotes : Denotes .v2ray key u.octets := ⟨u, Uuid.parse_eq_ok_iff_mem_forms.2 hu, rfl⟩
    exact ⟨ofKey_eq_ok_iff.2 ⟨u.octets, hdenotes, rfl⟩, u.asciiLower_render⟩

end VpnNode.Peer.Identity
