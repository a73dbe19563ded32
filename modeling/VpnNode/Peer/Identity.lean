import VpnNode.Codec.Base64
import VpnNode.Codec.Uuid
import VpnNode.Json.Record
import VpnNode.Peer.Error

/-!
# Peer identities

A backend knows a peer by an identity of its own kind: a UUID for V2Ray, a public
key of 32 octets for WireGuard. An identity made from the key that a client sends
holds the canonical spelling of that key, whatever spelling the client chose.

Main statement:

* `service_ofKey`: an identity belongs to the kind of service that it was made for.
-/

namespace VpnNode.Peer

/-- What a backend knows a peer by. -/
inductive Identity where
  | v2ray (uuid : String)
  | wireguard (publicKey : String)
  deriving DecidableEq, Repr

namespace Identity

/-- The number of octets of a WireGuard public key. -/
def publicKeySize : Nat := 32

def service : Identity → Service
  | .v2ray _ => .v2ray
  | .wireguard _ => .wireguard

/-- The canonical key of a peer. -/
def key : Identity → String
  | .v2ray uuid => uuid
  | .wireguard publicKey => publicKey

/-- The identity that a key stands for. -/
def ofKey (service : Service) (key : String) : Except Error Identity :=
  let invalid (reason : String) : Except Error Identity := .error (.invalidKey service key reason)
  match service with
  | .v2ray =>
    match Uuid.parse (Text.trim key) with
    | .ok uuid => .ok (.v2ray uuid.render)
    | .error f => invalid f.message
  | .wireguard =>
    match Base64.decode (Text.trim key) with
    | .error f => invalid f.message
    | .ok raw =>
      if raw.length = publicKeySize then .ok (.wireguard (Base64.encode raw))
      else invalid s!"expected {Decimal.render publicKeySize} bytes, got {Decimal.render raw.length}"

/-! ## JSON -/

def toJson : Identity → Json
  | .v2ray uuid => .object [("type", .string "v2ray"), ("uuid", .string uuid)]
  | .wireguard publicKey =>
    .object [("type", .string "wireguard"), ("public_key", .string publicKey)]

/-- The members of an identity of a kind. -/
def record : Service → Json.Record Identity
  | .v2ray => (Json.Record.pure Identity.v2ray).required "uuid" Json.Reader.text
  | .wireguard => (Json.Record.pure Identity.wireguard).required "public_key" Json.Reader.text

def reader : Json.Reader Identity := Json.Reader.tagged fun tag => (Service.ofName? tag).map record

/-- An identity belongs to the kind of service that it was made for. -/
theorem service_ofKey {service : Service} {key : String} {i : Identity}
    (h : ofKey service key = .ok i) : i.service = service := by
  unfold ofKey at h
  cases service with
  | v2ray =>
    simp only at h
    split at h
    · simp only [Except.ok.injEq] at h; subst h; rfl
    · simp at h
  | wireguard =>
    simp only at h
    split at h
    · simp at h
    · split at h
      · simp only [Except.ok.injEq] at h; subst h; rfl
      · simp at h

end VpnNode.Peer.Identity
