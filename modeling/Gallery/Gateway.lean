import Gallery.Membership

namespace Gallery

open Text

-- `message_gw`, with the string in its `addr`.
structure MessageGw where
  type : Int32
  addr : CString
  port : Int32
  deriving DecidableEq, Repr

-- A message the gateway sends to a peer over a connection of its own.
structure PeerMessage where
  peer : DataR
  message : CString
  type : Int32
  deriving DecidableEq, Repr

-- The memory of the gateway and what it has sent to its peers.
structure GatewayState where
  ring : Process
  list_lock : Bool
  sent : List PeerMessage

namespace GatewayState

def start : GatewayState := ⟨Process.start, false, []⟩

-- The entries of `peer_list` from the root on.
def registered (g : GatewayState) : List DataR := (ringElements g.ring).getD []

-- `list_lock` is not recursive and no other thread runs: a thread that finds it held
-- waits forever.
def lock (g : GatewayState) : Option GatewayState :=
  if g.list_lock then none else some { g with list_lock := true }

def unlock (g : GatewayState) : GatewayState := { g with list_lock := false }

def printPeers (g : GatewayState) : Option GatewayState := g.lock.map unlock

section Threads

-- Who answers when asked, and a bound on the rounds of every loop.
variable (online : DataR → Bool) (fuel : Nat)

-- The entries a broadcast reaches, in their order; `none` when its loop does not end.
def toldBy (exc : Option DataR) (g : GatewayState) : Option (List DataR) :=
  match g.ring.peer_list with
  | none => some []
  | some r => broadcastPeersLoop online g.ring.heap r exc fuel r

def broadcastPeers (message : CString) (type : Int32) (exc : Option DataR) (g : GatewayState) :
    Option GatewayState := do
  let g ← g.lock
  let told ← g.toldBy online fuel exc
  some { g with sent := g.sent ++ told.map (PeerMessage.mk · message type) }.unlock

-- The search of `connection_client` for a peer that answers. One that does not stays
-- in the list, and the lock is still held when the others are told.
def clientLoop : Nat → GatewayState → Option (GatewayState × Option DataR)
  | 0, _ => none
  | rounds + 1, g =>
      match g.ring.peer_list with
      | none => some (g, none)
      | some r => do
          let g ← g.lock
          let next ← g.ring.heap.next r
          let K ← g.ring.heap.key next
          let g := { g with ring := ⟨g.ring.heap, some next⟩ }
          if online K then some (g.unlock, some K)
          else if (peerIdText K).length < MESSAGE_SIZE then do
            let g ← g.broadcastPeers online fuel (peerIdText K) 12 none
            let g ← g.printPeers
            clientLoop rounds g
          else none

-- One request of a client: `buff` is what it sent, the result what it is sent back.
def connectionClient (buff : MessageGw) (g : GatewayState) : Option (GatewayState × MessageGw) := do
  let (g, found) ← g.clientLoop online fuel fuel
  match found with
  | none => some (g, { buff with type := 1 })
  | some K => some (g, { buff with type := 0, addr := K.addr, port := K.port })

-- One message about peers. `sender` is the address it came from; a new peer is sent a
-- list. `held` is what the `data_r` held into which a report is read. The lock is given back
-- and taken again between the parts of a branch.
def connectionPeer (held : DataR) (sender : CString) (buff : MessageGw) (g : GatewayState) :
    Option (GatewayState × Option (List DataR)) :=
  match buff.type.toInt with
  | 0 => do
      let g ← g.lock
      let (ring, d_send) ← gatewayRegister online g.ring (setDataR sender buff.port)
      let g ← { g with ring := ring }.unlock.printPeers
      some (g, some d_send)
  | -1 => do
      let K := setDataR sender buff.port
      let g ← g.lock
      let ring ← g.ring.remove K
      let g ← { g with ring := ring }.unlock.printPeers
      if (peerIdText K).length < MESSAGE_SIZE then do
        let g ← g.broadcastPeers online fuel (peerIdText K) 12 none
        some (g, none)
      else none
  | -2 => do
      let g ← g.lock
      let ring ← deletePeer held g.ring buff.addr
      let g ← { g with ring := ring }.unlock.printPeers
      let g ← g.broadcastPeers online fuel buff.addr 12 (some (setDataR sender buff.port))
      some (g, none)
  | _ => none

end Threads

end GatewayState

end Gallery
