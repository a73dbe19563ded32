import VpnNode.Api.Basic
import VpnNode.Http.Wire

/-!
# The web interface as octets

A call is read from the octets of a request, and a reply is written as those of a response.
Every reply ends its connection.
-/

namespace VpnNode.Api

open Http (Head)

/-- The call in the octets of a request. A body that is no text counts as empty. -/
def Call.ofOctets? (octets : List UInt8) : Option Call := do
  let (head, rest) ← Head.split? octets
  let method ← head.words[0]?
  let target ← head.words[1]?
  let body := (head.requestExtent.body rest).1
  return Call.ofHeaders method target head.headers ((Utf8.decode? body).getD "")

namespace Reply

/-- The octets of the body of a reply. -/
def content (r : Reply) : List UInt8 := r.body.elim [] fun v => Utf8.octets v.render

def headers (r : Reply) : List (String × String) :=
  ("content-length", Decimal.render r.content.length) ::
    (if r.body.isSome then [("content-type", "application/json")] else []) ++
    r.crossOriginHeaders ++ [("connection", "close")]

/-- The octets of a reply. -/
def octets (r : Reply) : List UInt8 :=
  Head.render ⟨s!"HTTP/1.1 {Http.statusText r.status}", r.headers⟩ ++ r.content

end Reply

end VpnNode.Api
