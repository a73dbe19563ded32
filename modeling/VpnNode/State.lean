import VpnNode.Json.Record

/-!
# What the node knows about itself

The endpoint of the chain in use, and the last known location and speed. Jobs write
these values, others read them. Handles to one state share it: what one writes, all of
them see.
-/

namespace VpnNode

/-- Where the node is. -/
structure Location where
  ip : String := ""
  city : String := ""
  country : String := ""
  countryCode : String := ""
  latitude : Binary64 := .zero
  longitude : Binary64 := .zero
  deriving DecidableEq

/-- How fast the node is, in octets per second. -/
structure Speed where
  download : UInt64
  upload : UInt64
  deriving DecidableEq

namespace Location

open Json

def toJson (l : Location) : Json :=
  .object [("ip", .string l.ip), ("city", .string l.city), ("country", .string l.country),
    ("country_code", .string l.countryCode), ("latitude", .number (.real l.latitude)),
    ("longitude", .number (.real l.longitude))]

def record : Record Location :=
  (Record.pure Location.mk)
    |>.required "ip" Reader.text
    |>.required "city" Reader.text
    |>.required "country" Reader.text
    |>.required "country_code" Reader.text
    |>.required "latitude" Reader.real
    |>.required "longitude" Reader.real

end Location

namespace Speed

open Json

def toJson (s : Speed) : Json :=
  .object [("download_bps", .ofNat s.download.toNat), ("upload_bps", .ofNat s.upload.toNat)]

def record : Record Speed :=
  (Record.pure Speed.mk)
    |>.required "download_bps" Reader.uint64
    |>.required "upload_bps" Reader.uint64

end Speed

/-- What the node knows about itself. -/
structure State where
  rpc : String := ""
  location : Option Location := none
  speed : Option Speed := none
  deriving DecidableEq

/-! ## Shared states -/

/-- States, and handles to them: each handle names one of the states. -/
structure SharedStates where
  states : List State
  handles : List Nat

namespace SharedStates

/-- One handle to one state. -/
def single (s : State) : SharedStates := ⟨[s], [0]⟩

/-- The state behind a handle. -/
def get? (m : SharedStates) (handle : Nat) : Option State := do m.states[← m.handles[handle]?]?

/-- Changes the state behind a handle. -/
def modify (m : SharedStates) (handle : Nat) (f : State → State) : SharedStates :=
  match m.handles[handle]? with
  | some i => { m with states := m.states.modify i f }
  | none => m

/-- Appends a handle to the state behind a handle. -/
def clone (m : SharedStates) (handle : Nat) : SharedStates :=
  { m with handles := m.handles ++ m.handles[handle]?.toList }

/-- Appends a handle to a new state. -/
def fresh (m : SharedStates) : SharedStates := ⟨m.states ++ [{ rpc := "" }], m.handles ++ [m.states.length]⟩

end VpnNode.SharedStates
