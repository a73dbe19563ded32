import VpnNode.Text.Blank

/-!
# Kinds of service

The kind of VPN that a node runs.
-/

namespace VpnNode

/-- The kind of VPN that a node runs. -/
inductive Service where
  | v2ray
  | wireguard
  deriving DecidableEq, Repr

namespace Service

def name : Service → String
  | .v2ray => "v2ray"
  | .wireguard => "wireguard"

/-- The kind with exactly this name. -/
def ofName? (s : String) : Option Service :=
  if s = "v2ray" then some .v2ray
  else if s = "wireguard" then some .wireguard
  else none

/-- The form in which names are compared: without blanks at the ends, in lower
    case. -/
def folded (s : String) : String := Text.asciiLower (Text.trim s)

/-- The kind with this name, whatever the case of its letters and the blanks around
    it. -/
def parse? (s : String) : Option Service := ofName? (folded s)

theorem ofName?_name (k : Service) : ofName? k.name = some k := by cases k <;> rfl

theorem name_of_ofName? {s : String} {k : Service} (h : ofName? s = some k) : s = k.name := by
  unfold ofName? at h
  split at h
  · simp_all [name]; subst h; rfl
  · split at h
    · simp_all; subst h; rfl
    · simp at h

end VpnNode.Service
