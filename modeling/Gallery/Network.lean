import Gallery.Cluster

namespace Gallery

-- Where the thread of the gateway that handles the peers stands. `probe` and `tell`
-- hold `list_lock`; `first` says that `tell` is still at the root of the ring.
inductive GatewayTask
  | idle
  | append (K : DataR)
  | lockProbe (K : DataR)
  | probe (K : DataR) (rest : List DataR)
  | remove (dead sender : DataR)
  | lockTell (dead sender : DataR)
  | tell (dead sender : DataR) (first : Bool) (rest : List DataR)

-- The ring of the gateway is read from its root, which the thread that handles the
-- clients moves on.
structure Gateway where
  peer_list : List DataR
  list_lock : Bool
  task : GatewayTask

-- Where a new peer stands before it listens: it waits for the list, tells the
-- others, or waits for the photos of the first one.
inductive Joiner
  | asked
  | notify (rest : List DataR) (has_photos : Bool)
  | await (rest : List DataR)

-- The peers, the gateway and the new peers. `newPeers` are the type 0 datagrams on
-- their way, `lists` the lists sent back; type 1 datagrams are part of `askId`.
structure Network where
  cluster : Cluster
  gateway : Gateway
  newPeers : List DataR
  lists : List (DataR × List DataR)
  joiners : List (DataR × Joiner)

inductive NetworkAction
  | cluster (a : ClusterAction)
  -- A new process sends its type 0, and goes on with the `j`-th list or photos.
  | start (K : DataR)
  | join (i j : Nat)
  -- The gateway takes a type 0 or a type -2 datagram, and goes on.
  | register (i : Nat)
  | report (i : Nat)
  | gateway
  -- A client asks the gateway for a peer.
  | assign

section Gateway

variable (online : DataR → Bool)

-- The list for the new peer, and a type 12 message: to whom and whom it is about.
structure GatewayEffect where
  gateway : Gateway
  lists : List (DataR × List DataR) := []
  sent : List (DataR × Packet) := []

-- `none` is a thread that waits for the lock, or that stays at the peer left out.
def runGateway (g : Gateway) : Option GatewayEffect :=
  match g.task with
  | .idle => none
  | .append K =>
      if g.list_lock then none
      else some { gateway := { g with peer_list := g.peer_list ++ [K], task := .lockProbe K } }
  | .lockProbe K =>
      if g.list_lock then none
      else some { gateway := { g with list_lock := true, task := .probe K g.peer_list } }
  | .probe K (k :: k' :: rest) =>
      if online k then some { gateway := { g with task := .probe K (k' :: rest) } }
      else
        some { gateway := { g with
          peer_list := g.peer_list.erase k
          task := .probe K (k' :: rest) } }
  | .probe K _ =>
      some {
        gateway := { g with list_lock := false, task := .idle }
        lists := [(K, g.peer_list)] }
  | .remove dead sender =>
      if g.list_lock then none
      else
        some { gateway := { g with
          peer_list := g.peer_list.erase dead
          task := .lockTell dead sender } }
  | .lockTell dead sender =>
      if g.list_lock then none
      else if g.peer_list = [] then some { gateway := { g with task := .idle } }
      else
        some { gateway := { g with
          list_lock := true
          task := .tell dead sender true g.peer_list } }
  | .tell _ _ _ [] => some { gateway := { g with list_lock := false, task := .idle } }
  | .tell dead sender first (k :: rest) =>
      if k = sender then
        if first then some { gateway := { g with list_lock := false, task := .idle } } else none
      else
        some {
          gateway := { g with task := .tell dead sender false rest }
          sent := if online k then [(k, .deletePeer dead)] else [] }

-- The next peer of the ring, if it is online. Otherwise `broadcastPeers` waits for the
-- lock this thread holds.
def assignPeer (g : Gateway) : Option Gateway :=
  if g.list_lock then none
  else
    match g.peer_list with
    | [] => some g
    | root :: rest =>
        let peer_list := rest ++ [root]
        some { g with peer_list := peer_list, list_lock := !peer_list.head?.all online }

end Gateway

-- The photos of the first peer, each listed and then written.
def Peer.recvPhotos : Peer → List (Data × List Byte) → Option Peer
  | p, [] => some p
  | p, (K, bytes) :: rest =>
      if bytes = [] ∨ 2 ^ 31 ≤ bytes.length then none
      else
        Peer.recvPhotos (({ p with photo_list := listInsert p.photo_list K } : Peer).writeFile
          (fileName K.id) bytes) rest

def Replica.setPeerList (r : Replica) (peer_list : List DataR) : Replica :=
  { r with peer_list := peer_list }

def Cluster.setReplica (s : Cluster) (K : DataR) (r : Replica) : Cluster :=
  { s with replica := Function.update s.replica K r }

def Cluster.send (s : Cluster) (sent : List (DataR × Packet)) : Cluster :=
  { s with packets := s.packets ++ sent }

def Cluster.listen (s : Cluster) (K : DataR) : Cluster :=
  { s with listening := Function.update s.listening K true }

-- The new peer `K` goes on; `joiners` are the others. `none` is one that waits, or
-- one whose `connect_peer` fails.
def Network.runJoiner (s : Network) (K : DataR) (joiners : List (DataR × Joiner)) (j : Nat) :
    Joiner → Option Network
  | .asked => do
      let ((other, d_recv), lists) ← pick s.lists j
      let r := s.cluster.replica K
      -- `peer_list = peer_list->prev;`
      let peer_list := r.peer_list ++ d_recv
      let root ← peer_list.getLast?
      if other = K then
        some { s with
          cluster := s.cluster.setReplica K (r.setPeerList (root :: peer_list.dropLast))
          lists := lists
          joiners := joiners ++ [(K, .notify peer_list.dropLast false)] }
      else none
  | .notify [] _ => some { s with cluster := s.cluster.listen K, joiners := joiners }
  | .notify (k :: rest) has_photos => do
      let root ← (s.cluster.replica K).peer_list.head?
      if s.cluster.listening k then
        if has_photos then
          some { s with
            cluster := s.cluster.send [(k, .newPeer root none)]
            joiners := joiners ++ [(K, .notify rest true)] }
        else
          some { s with
            cluster := s.cluster.send [(k, .newPeer root (some K))]
            joiners := joiners ++ [(K, .await rest)] }
      else none
  | .await rest => do
      let ((other, photos), mail) ← pick s.cluster.mail j
      let r := s.cluster.replica K
      let peer ← r.peer.recvPhotos photos
      if other = K then
        some { s with
          cluster := { s.cluster.setReplica K (r.setPeer peer) with mail := mail }
          joiners := joiners ++ [(K, .notify rest true)] }
      else none

-- The thread of the gateway that is asked for an id handles one datagram at a time.
def Network.asksId (s : Network) : ClusterAction → Bool
  | .run i => s.cluster.threads[i]?.any (fun a => a.2.asksId)
  | _ => false

def GatewayTask.isIdle : GatewayTask → Bool
  | .idle => true
  | _ => false

def Network.step (s : Network) : NetworkAction → Option Network
  | .cluster a =>
      if s.asksId a && !s.gateway.task.isIdle then none
      else (s.cluster.step a).map (fun cluster => { s with cluster := cluster })
  | .start K =>
      -- Its address and port are those of no other process.
      if s.cluster.listening K || s.joiners.any (fun a => a.1 == K) then none
      else some { s with newPeers := s.newPeers ++ [K], joiners := s.joiners ++ [(K, .asked)] }
  | .join i j => do
      let ((K, joiner), joiners) ← pick s.joiners i
      s.runJoiner K joiners j joiner
  | .register i => do
      let (K, newPeers) ← pick s.newPeers i
      if s.gateway.task.isIdle then
        some { s with gateway := { s.gateway with task := .append K }, newPeers := newPeers }
      else none
  | .report i => do
      let ((sender, dead), reports) ← pick s.cluster.reports i
      if s.gateway.task.isIdle then
        some { s with
          cluster := { s.cluster with reports := reports }
          gateway := { s.gateway with task := .remove dead sender } }
      else none
  | .gateway => do
      let e ← runGateway s.cluster.listening s.gateway
      some { s with
        cluster := s.cluster.send e.sent
        gateway := e.gateway
        lists := s.lists ++ e.lists }
  | .assign => (assignPeer s.cluster.listening s.gateway).map (fun g => { s with gateway := g })

-- A gateway that was just started, and no peer yet.
def Cluster.start (memory : DataR → Memory) : Cluster where
  replica p := ⟨⟨[], fun _ => none⟩, [], false, memory p⟩
  listening _ := false
  photo_id := 0
  threads := []
  packets := []
  answers := []
  reports := []
  mail := []

def Network.start (memory : DataR → Memory) : Network :=
  ⟨Cluster.start memory, ⟨[], false, .idle⟩, [], [], []⟩

end Gallery
