import Keyleport.Lib.StdString

/-!
# Peers and messages

`networking/p2p/peer.h` and `networking/p2p/message.h`: the address of a device and a payload
with the two addresses it travels between.
-/

namespace Keyleport

/-- `p2p::peer`: a device on the network, known by its address. -/
structure Peer where
  ipAddress : StdString
deriving DecidableEq, Repr

/-- `peer::self()`. -/
def Peer.self : Peer := ⟨StdString.ofString "127.0.0.1"⟩

/-- `p2p::message`. The receiving side sets `sender` from the transport, not from the payload. -/
structure Message where
  /-- `from_`. -/
  sender : Peer
  /-- `to_`. -/
  recipient : Peer
  payload : StdString
deriving DecidableEq, Repr

instance : Inhabited Peer := ⟨⟨[]⟩⟩

instance : Inhabited Message := ⟨⟨default, default, []⟩⟩

end Keyleport
