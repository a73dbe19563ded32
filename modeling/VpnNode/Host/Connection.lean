import Std.Async.DNS
import Std.Async.TCP
import Std.Async.Timer
import VpnNode.Http.Wire

/-!
# Connections of the host

Octets over TCP, and requests over HTTP. Every exchange has a connection of its own and a
moment by which it is over. Only plain HTTP is spoken; what needs encryption is left to a
server in between.
-/

namespace VpnNode.Host

open Std.Async Std.Net

/-! ## Octets -/

/-- The moment, in milliseconds, that lies so far ahead. -/
def deadline (ms : Nat) : IO Nat := return (← IO.monoMsNow) + ms

/-- The milliseconds that are left until a moment. -/
def remaining (moment : Nat) : IO Nat := return moment - (← IO.monoMsNow)

/-- The value of an action, unless it takes longer than to a moment. -/
def before (moment : Nat) (act : Async α) : IO (Option α) := do
  let ms ← remaining moment
  Async.block <| Async.race (some <$> act) do
    sleep (.ofNat ms)
    return none

/-- The octets that come next on a connection, unless it is closed or the moment comes. -/
def receiveSome (socket : TCP.Socket.Client) (moment : Nat) : IO (Option ByteArray) := do
  let timer ← Async.block <| Selector.sleep (.ofNat (← remaining moment))
  Async.block <| Selectable.one #[
    .case (socket.recvSelector 65536) fun octets => return octets,
    .case timer fun () => return none]

/-- The octets that come on a connection, until they are enough, it is closed, the moment
    comes, or there are too many of them. -/
def receive (socket : TCP.Socket.Client) (moment most : Nat) (enough : ByteArray → Bool) :
    IO (List UInt8) := do
  let mut octets := ByteArray.empty
  while octets.size ≤ most && !enough octets do
    match ← receiveSome socket moment with
    | some more => octets := octets ++ more
    | none => break
  return octets.toList

/-! ## Addresses -/

def socketAddress (port : UInt16) : IPAddr → SocketAddress
  | .v4 addr => .v4 ⟨addr, port⟩
  | .v6 addr => .v6 ⟨addr, port⟩

/-- The addresses of a host, by its name or spelled out. -/
def addressesOf (host : String) (port : UInt16) : Async (List SocketAddress) := do
  let spelled : Option IPAddr :=
    (IPv4Addr.ofString host).map .v4 <|> (IPv6Addr.ofString host).map .v6
  let found ← match spelled with
    | some a => pure [a]
    | none => do pure (← DNS.getAddrInfo host "").toList
  return found.map (socketAddress port)

/-! ## Requests -/

/-- The octets of a request. -/
def requestOctets (r : Http.Request) : ByteArray :=
  let body : ByteArray := match r.body with
    | .zeros n => ⟨Array.replicate n 0⟩
    | b => ⟨b.octets.toArray⟩
  ⟨r.head.render.toArray⟩ ++ body

/-- A connection to the first of some addresses that takes one. -/
def connectOne (moment : Nat) : List SocketAddress → IO (Option TCP.Socket.Client)
  | [] => return none
  | a :: rest => do
    let socket ← TCP.Socket.Client.mk
    let connected ← try before moment (socket.connect a) catch _ => pure none
    if connected.isSome then return some socket else connectOne moment rest

/-- The most octets of a response. -/
def mostOctets : Nat := 1 <<< 28

/-- Sends a request and waits for the response, so many milliseconds at most. A response
    that has no end in time is none. -/
def exchange (timeout : Nat) (r : Http.Request) : IO (Option Http.Response) := do
  try
    let moment ← deadline timeout
    match Url.serverOf? r.url.authority with
    | some (host, port) =>
      if r.url.scheme ≠ "http" then return none
      let some addresses ← before moment (addressesOf host port) | return none
      let some socket ← connectOne moment addresses | return none
      let some () ← before moment (socket.send (requestOctets r)) | return none
      let octets ← receive socket moment mostOctets fun _ => false
      let late := (← remaining moment) = 0
      if late && !Http.isWhole Http.Head.responseExtent octets then return none
      return Http.Response.ofOctets? octets
    | none => return none
  catch _ => return none

end VpnNode.Host
