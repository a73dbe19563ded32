import VpnNode.Json.Record

/-!
# Traffic counters

What a backend reports about a peer.
-/

namespace VpnNode.Peer

/-- The traffic counters of a peer, with its key. -/
structure Statistic where
  key : String
  download : UInt64
  upload : UInt64
  deriving DecidableEq, Repr

namespace Statistic

open Json

def toJson (s : Statistic) : Json :=
  .object [("key", .string s.key), ("download_bytes", .ofNat s.download.toNat),
    ("upload_bytes", .ofNat s.upload.toNat)]

def record : Record Statistic :=
  (Record.pure Statistic.mk)
    |>.required "key" Reader.text
    |>.required "download_bytes" Reader.uint64
    |>.required "upload_bytes" Reader.uint64

end Statistic

end VpnNode.Peer
