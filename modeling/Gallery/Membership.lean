import Gallery.RingList
import Gallery.Text

namespace Gallery

open Text

-- A process and the ring of peers it keeps.
structure Process where
  heap : RingHeap
  peer_list : Option Addr

def Process.start : Process := ⟨Heap.empty, none⟩

def Process.append (p : Process) (K : DataR) : Option Process := do
  let (heap, peer_list) ← ringAppend p.heap p.peer_list K
  some ⟨heap, peer_list⟩

def Process.remove (p : Process) (K : DataR) : Option Process := do
  let (_, heap, peer_list) ← ringRemove p.heap p.peer_list K
  some ⟨heap, peer_list⟩

-- `sizeof` of `data_r.addr`, of the gateway's local `message` and of `data_r`.
def ADDR_SIZE : Nat := 20
def MESSAGE_SIZE : Nat := 30
def DATA_R_SIZE : Nat := 24

-- The longest datagram that `sendto` takes over IPv4, and the entries it holds.
def UDP_LIMIT : Nat := 65507
def MAX_MEMBERS : Nat := UDP_LIMIT / DATA_R_SIZE

section Texts

-- `"%s,%d"`, with which a new peer introduces itself.
def identityText (K : DataR) : CString := K.addr ++ 44 :: decimalInt K.port.toInt

-- `"%s,%u"`, with which the gateway names a peer.
def peerIdText (K : DataR) : CString := K.addr ++ 44 :: decimal K.port.toUInt32.toNat

-- `"%[^,],%d"`: the peer a new peer says it is; without a number `port` stays 0.
def introducedPeer (buffer : CString) : Option DataR := do
  let (addr, s) ← scanUntil 44 buffer
  let port : Int32 :=
    match (scanLiteral 44 s).bind (fun (_, s) => scanInt s) with
    | none => 0
    | some (port, _) => port
  if addr.length < ADDR_SIZE then some (setDataR addr port) else none

def registerPeer (p : Process) (buffer : CString) : Option Process := do
  let K ← introducedPeer buffer
  p.append K

-- `"%[^,],%u"` into a `data_r K` of which nothing was set: what the text does not give is
-- as `held` has it. The number is stored in an `int`.
def namedPeer (held : DataR) (buffer : CString) : Option DataR :=
  match scanUntil 44 buffer with
  | none => some held
  | some (addr, s) =>
      let port : Int32 :=
        match (scanLiteral 44 s).bind (fun (_, s) => scanUInt s) with
        | none => held.port
        | some (port, _) => port.toInt32
      if addr.length < ADDR_SIZE then some (setDataR addr port) else none

def deletePeer (held : DataR) (p : Process) (buffer : CString) : Option Process := do
  let K ← namedPeer held buffer
  p.remove K

end Texts

-- What the messages about peers do to the peer that gets them.
def connectionPeers (held : DataR) (p : Process) (m : MessagePhoto) : Option Process :=
  match m.type.toInt with
  | 7 => registerPeer p m.text
  | 8 => registerPeer p m.text
  | 12 => deletePeer held p m.text
  | _ => none

section Gateway

variable (online : DataR → Bool)

-- The loop that checks the peers before the list is sent; the last one, which is
-- the new peer, is not asked.
def probeLoop : Nat → RingHeap → Option Addr → Addr → Option (RingHeap × Option Addr)
  | 0, _, _, _ => none
  | fuel + 1, h, root, aux => do
      let next ← h.next aux
      if some next = root then some (h, root)
      else
        let k ← h.key aux
        if online k then probeLoop fuel h root next
        else
          let dead ← h.prev next
          let k ← h.key dead
          let (_, h, root) ← ringRemove h root k
          if root = none then some (h, root) else probeLoop fuel h root next

-- The array `d_send` of `send_ring_udp`: `size` elements from the root on.
def vectorize (h : RingHeap) : Nat → Addr → Option (List DataR)
  | 0, _ => some []
  | size + 1, a => do
      let k ← h.key a
      let next ← h.next a
      let rest ← vectorize h size next
      some (k :: rest)

-- `send_ring_udp`. A list that no datagram holds is not sent: the function returns -1 and
-- its caller exits.
def sendRingUdp (p : Process) : Option (List DataR) := do
  let size ← ringCount p.heap p.peer_list
  if size = 0 then some []
  else if size < 0 then none
  else
    let r ← p.peer_list
    let d_send ← vectorize p.heap size.toNatClampNeg r
    if d_send.length * DATA_R_SIZE ≤ UDP_LIMIT then some d_send else none

-- The elements of a ring from `aux` to its end.
def ringElementsLoop (h : RingHeap) (r : Addr) : Nat → Addr → Option (List DataR)
  | 0, _ => none
  | fuel + 1, aux => do
      let k ← h.key aux
      let next ← h.next aux
      let rest ← if next = r then some [] else ringElementsLoop h r fuel next
      some (k :: rest)

def ringElements (p : Process) : Option (List DataR) :=
  match p.peer_list with
  | none => some []
  | some r => ringElementsLoop p.heap r p.heap.brk r

-- What comes after the new peer is in the list, with the lock taken anew: its own list and
-- the elements that are to be sent.
def snapshotRing (g : Process) : Option (Process × List DataR) := do
  let r ← g.peer_list
  let (heap, peer_list) ← probeLoop online g.heap.brk g.heap g.peer_list r
  let d_send ← ringElements ⟨heap, peer_list⟩
  some (⟨heap, peer_list⟩, d_send)

-- The gateway's part of a type 0 message.
def gatewayRegister (g : Process) (K : DataR) : Option (Process × List DataR) := do
  let g ← g.append K
  snapshotRing online g

-- The peers `broadcastPeers` reaches. An entry equal to `exc` is not passed over:
-- the loop stays at it unless it is the root.
def broadcastPeersLoop (h : RingHeap) (r : Addr) (exc : Option DataR) :
    Nat → Addr → Option (List DataR)
  | 0, _ => none
  | fuel + 1, aux => do
      let k ← h.key aux
      if exc.all (fun K => !equalDataR k K) then
        let next ← h.next aux
        let rest ← if next = r then some [] else broadcastPeersLoop h r exc fuel next
        some (if online k then k :: rest else rest)
      else if aux = r then some []
      else broadcastPeersLoop h r exc fuel aux

def broadcastPeers (g : Process) (exc : Option DataR) : Option (List DataR) :=
  match g.peer_list with
  | none => some []
  | some r => broadcastPeersLoop online g.heap r exc g.heap.brk r

end Gateway

section NewPeer

-- `recv_ring_udp`
def recvRingUdp : Process → List DataR → Option Process
  | p, [] => some p
  | p, K :: rest => do recvRingUdp (← p.append K) rest

-- `peer_list = peer_list->prev;`
def reroot (p : Process) : Option Process := do
  let r ← p.peer_list
  let last ← p.heap.prev r
  some ⟨p.heap, some last⟩

-- Whom the new peer tells, and with which type: the first one sends its photos.
def notifyLoop (h : RingHeap) (r : Addr) : Nat → Addr → Bool → Option (List (DataR × Int32))
  | 0, _, _ => none
  | fuel + 1, aux, has_photos =>
      if aux = r then some []
      else do
        let k ← h.key aux
        let next ← h.next aux
        let rest ← notifyLoop h r fuel next true
        some ((k, if has_photos then 7 else 8) :: rest)

-- The messages of `notify_and_recv_photos`; `buff` is what the sender's local
-- structure held. The transfer of the photos has no part in the lists of peers.
def notifyPeers (buff : MessagePhoto) (p : Process) : Option (List (DataR × MessagePhoto)) := do
  let count ← ringCount p.heap p.peer_list
  if count = 1 then some []
  else
    let r ← p.peer_list
    let K ← p.heap.key r
    let aux ← p.heap.next r
    let calls ← notifyLoop p.heap r p.heap.brk aux false
    calls.mapM (fun (k, type) => (MessagePhoto.fill buff (identityText K) type).map (fun m => (k, m)))

end NewPeer

-- The gateway and the peers that listen, each at its identity.
structure System where
  gateway : Process
  peers : DataR → Option Process

def System.start : System := ⟨Process.start, fun _ => none⟩

def System.online (s : System) (K : DataR) : Bool := (s.peers K).isSome

-- Messages sent one after the other, each to the peer that listens there.
def deliverAll (held : DataR) : (DataR → Option Process) → List (DataR × MessagePhoto) →
    Option (DataR → Option Process)
  | peers, [] => some peers
  | peers, (K, m) :: rest => do
      let p ← peers K
      let p ← connectionPeers held p m
      deliverAll held (Function.update peers K (some p)) rest

section Events

-- What the local structures of the senders and of `delete_peer` held.
variable (buff : MessagePhoto) (held : DataR)

-- A new peer: type 0 to the gateway, the list it sends back, the other peers told.
-- Only then does it listen.
def System.join (s : System) (K : DataR) : Option System := do
  let (gateway, _) ← gatewayRegister s.online s.gateway K
  let d_send ← sendRingUdp gateway
  let p ← recvRingUdp Process.start d_send
  let p ← reroot p
  let messages ← notifyPeers buff p
  let peers ← deliverAll held s.peers messages
  some ⟨gateway, Function.update peers K (some p)⟩

-- A peer that leaves: type -1 to the gateway, which tells the peers it still lists.
def System.leave (s : System) (K : DataR) : Option System := do
  let gateway ← s.gateway.remove K
  let text := peerIdText K
  if text.length < MESSAGE_SIZE then
    let s : System := ⟨gateway, Function.update s.peers K none⟩
    let told ← broadcastPeers s.online s.gateway none
    let m ← MessagePhoto.fill buff text 12
    let peers ← deliverAll held s.peers (told.map (fun k => (k, m)))
    some ⟨s.gateway, peers⟩
  else none

inductive Membership
  | join (K : DataR)
  | leave (K : DataR)

def System.event (s : System) : Membership → Option System
  | .join K => s.join buff held K
  | .leave K => s.leave buff held K

-- Each event is done with before the next one starts.
def System.run : System → List Membership → Option System
  | s, [] => some s
  | s, e :: rest => do System.run (← s.event buff held e) rest

end Events

end Gallery
