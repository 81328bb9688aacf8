import Gallery.Membership.Agreement
import Gallery.Membership.Broadcast
import Gallery.Peer.Refinement
import Gallery.Peer.Transfer

namespace Gallery

open Bytes Text

section Model

-- How the loop of `connection` ends: with its thread, or with the whole peer, which a message
-- of the gateway stops or which stops itself because the gateway did not answer.
inductive Ended
  | closed
  | killed
  | shutDown
  deriving DecidableEq

-- What a thread of `connection` works on, with all it has sent to others. No other thread
-- holds a lock.
structure Serving where
  peer : Peer
  ring : Process
  sock : Sock
  sent : List Transmission

-- What a round meets with: the gateway's answer, the peers that are reachable, `errno` when the
-- request is done with, and what the local structures of `stream_and_send_photo` hold.
structure Surroundings where
  gateway : GatewayReply
  online : DataR → Bool
  errno : Errno
  buffs : Nat → MessagePhoto
  held : DataR

-- `port` is the peer's own.
variable (port : Int32)

def Serving.broadcast (online : DataR → Bool) (s : Serving) (b : Broadcast) : Option Serving := do
  let (ring, sent, _) ← broadcastPeersAndNotify online s.peer port b.message b.type b.photo
    (s.ring.heap.brk + 1) ⟨s.ring, false⟩
  some { s with ring := ring.ring, sent := s.sent ++ sent }

-- The requests on photos, the message of which `connection` takes off the socket once more.
def Serving.photos (s : Serving) (r : Surroundings) : Option Serving := do
  let h ← connection s.peer s.sock r.gateway
  h.broadcasts.foldlM (Serving.broadcast port r.online) { s with peer := h.peer, sock := h.sock }

-- The `switch` on the type of message `m`, after which `sock` is what is left of the connection.
-- Of a type that ends the loop nothing comes after it.
def Serving.handle (s : Serving) (r : Surroundings) (m : MessagePhoto) (sock : Sock) :
    Option (Serving × Option Ended) :=
  match m.type.toInt with
  | 1 | 2 | 3 | 4 | 5 | 6 | 9 | 10 | 11 => (s.photos port r).map (fun s => (s, none))
  | -1 => some ({ s with sock := sock }, some .closed)
  | 7 => do
      let ring ← registerPeer s.ring m.text
      some ({ s with ring := ring, sock := sock }, none)
  | 8 => do
      let ring ← registerPeer s.ring m.text
      let out ← sendAllPhotos s.peer sock.out r.buffs
      some ({ s with ring := ring, sock := ⟨out, sock.conn⟩ }, none)
  | 12 => do
      let ring ← deletePeer r.held s.ring m.text
      some ({ s with ring := ring, sock := sock }, none)
  | -2 => some ({ s with sock := sock }, some .killed)
  | _ => some ({ s with sock := sock }, none)

-- The check that ends a round, and what follows from it. With `EPIPE` comes a signal that kills
-- a peer before it gets there.
def Serving.check (s : Serving) (r : Surroundings) : Option (Serving × Option Ended) :=
  let (state, _) := checkGWState r.errno
  if r.errno = .epipe then none
  else if state = -1 then some (s, some .closed)
  else if state = 1 then do
    let s ← s.broadcast port r.online ⟨[], -2, none⟩
    some (s, some .shutDown)
  else some (s, none)

-- One turn of the loop.
def Serving.turn (s : Serving) (r : Surroundings) : Option (Serving × Option Ended) := do
  let got := recvAndUnstreamPhoto s.sock.conn
  let sock : Sock := ⟨s.sock.out, got.conn⟩
  if got.ret ≤ 0 then some ({ s with sock := sock }, some .closed)
  else
    let m ← got.buff
    let (s, ended) ← s.handle port r m sock
    match ended with
    | some ended => some (s, some ended)
    | none => s.check port r

-- The loop, and how it ended; `none` when it still waits for a message after these rounds.
def Serving.serve : Serving → List Surroundings → Option (Serving × Option Ended)
  | s, [] => some (s, none)
  | s, r :: rest => do
      let (s, ended) ← s.turn port r
      match ended with
      | some ended => some (s, some ended)
      | none => Serving.serve s rest

end Model

section Spec

-- What a peer is for: the photos it keeps and the others it tells of them.
structure Member where
  album : Album
  others : List DataR

-- What reaches a peer. `refused` is a new photo that the gateway gives no id for.
inductive Incoming
  | request (r : Request)
  | refused (name : CString) (size : Nat)
  | register (K : DataR)
  | newcomer (K : DataR)
  | replicate (q : Photo)
  | keyword (id : UInt32) (word : CString)
  | delete (id : UInt32)
  | remove (K : DataR)
  | unknown (text : CString) (type : Int32)
  | leave (text : CString)
  | gatewayOffline (text : CString)

-- The photos as a newcomer gets them, the newest first.
def Photo.stream (buff : MessagePhoto) (q : Photo) : List Byte :=
  ((MessagePhoto.fill buff (photoHeaderText q.data q.bytes.length) 1).map
    MessagePhoto.stream).getD [] ++ (keywordBytes q.data ++ q.bytes)

def photosFrom (buffs : Nat → MessagePhoto) : Nat → List Photo → List Byte
  | _, [] => []
  | i, q :: rest => q.stream (buffs i) ++ photosFrom buffs (i + 1) rest

def Album.stream (buffs : Nat → MessagePhoto) (a : Album) : List Byte :=
  intBytes (Int32.ofNat a.length) ++ photosFrom buffs 0 a.reverse

-- Of what becomes of a client's request the others are told what changed the album.
def Request.news : Request → Reply → List Broadcast
  | addPhoto id name _, _ => [⟨[], 9, some (setData name id)⟩]
  | addKeyword id keyword, reply =>
      if reply = .success 1 then [⟨addKeywordText id keyword, 10, none⟩] else []
  | deletePhoto id, reply => if reply = .success 1 then [⟨photoIdText id, 11, none⟩] else []
  | _, _ => []

-- Without an id the client gets 0, unless the gateway could not be asked.
def refusal : GatewayReply → List Byte
  | .notSent => []
  | _ => uint32Bytes 0

-- What a message does, the answer to it and the news it makes.
def Member.handle (v : Member) (r : Surroundings) : Incoming → Member × List Byte × List Broadcast
  | .request q =>
      let (a, reply) := v.album.step q
      ({ v with album := a }, reply.stream, q.news reply)
  | .refused _ _ => (v, refusal r.gateway, [])
  | .register K => ({ v with others := v.others ++ [K] }, [], [])
  | .newcomer K => ({ v with others := v.others ++ [K] }, v.album.stream r.buffs, [])
  | .replicate q => ({ v with album := v.album ++ [q] }, [], [])
  | .keyword id word => ({ v with album := (v.album.addKeyword id word).1 }, [], [])
  | .delete id => ({ v with album := v.album.filter (fun q => q.id != id) }, [], [])
  | .remove K => ({ v with others := v.others.erase K }, [], [])
  | .unknown _ _ => (v, [], [])
  | .leave _ => (v, [], [])
  | .gatewayOffline _ => (v, [], [])

variable (port : Int32)

-- Whoever cannot be told is reported to the gateway and is one of the others no more.
def Member.tell (online : DataR → Bool) : Member → List Broadcast → Member × List Transmission
  | v, [] => (v, [])
  | v, b :: rest =>
      let sent := v.others.flatMap (outgoing online port b.message b.type b.photo)
      let (v, more) := Member.tell online { v with others := v.others.filter online } rest
      (v, sent ++ more)

-- A message with what its round meets with, and what the structures held it was sent from.
structure Delivery where
  message : Incoming
  round : Surroundings
  buff : MessagePhoto
  photoBuff : MessagePhoto

def Incoming.ends : Incoming → Option Ended
  | leave _ => some .closed
  | gatewayOffline _ => some .killed
  | _ => none

def Surroundings.ends (r : Surroundings) : Option Ended :=
  match r.errno with
  | .eagain => some .shutDown
  | _ => none

def Delivery.ending (d : Delivery) : Option Ended :=
  match d.message.ends with
  | some ended => some ended
  | none => d.round.ends

-- A peer that shuts down tells the others to do the same.
def alarm (ended : Option Ended) : List Broadcast :=
  if ended = some .shutDown then [⟨[], -2, none⟩] else []

def Member.step (v : Member) (d : Delivery) : Member × List Byte × List Transmission :=
  let (v, reply, news) := v.handle d.round d.message
  let (v, sent) := v.tell port d.round.online (news ++ alarm d.ending)
  (v, reply, sent)

-- The course of a connection: what the peer is at its end, all it answered and told, how it
-- ended and the messages that nobody reads any more.
structure Course where
  member : Member
  replies : List Byte
  sent : List Transmission
  ended : Option Ended
  unread : List Delivery

def Member.run : Member → List Delivery → Course
  | v, [] => ⟨v, [], [], none, []⟩
  | v, d :: rest =>
      let (v, reply, sent) := v.step port d
      match d.ending with
      | some ended => ⟨v, reply, sent, some ended, rest⟩
      | none =>
          let c := Member.run v rest
          { c with replies := reply ++ c.replies, sent := sent ++ c.sent }

end Spec

section Wire

def Incoming.text : Incoming → CString
  | request r => r.text
  | refused name size => name ++ 44 :: decimal size
  | register K => identityText K
  | newcomer K => identityText K
  | replicate _ => []
  | keyword id word => addKeywordText id word
  | delete id => photoIdText id
  | remove K => peerIdText K
  | unknown text _ => text
  | leave text => text
  | gatewayOffline text => text

def Incoming.type : Incoming → Int32
  | request r => r.type
  | refused _ _ => 1
  | register _ => 7
  | newcomer _ => 8
  | replicate _ => 9
  | keyword _ _ => 10
  | delete _ => 11
  | remove _ => 12
  | unknown _ type => type
  | leave _ => -1
  | gatewayOffline _ => -2

-- What follows the message, and the reads that take both.
def Incoming.content (photoBuff : MessagePhoto) : Incoming → List Byte
  | request r => r.content
  | replicate q => q.stream photoBuff
  | _ => []

def Photo.reads (q : Photo) : List Nat :=
  MESSAGE_PHOTO_SIZE ::
    ((if 0 < q.keywords.length then [q.keywords.length * SIZE] else []) ++ [q.bytes.length])

def Incoming.reads : Incoming → List Nat
  | request r => r.reads
  | replicate q => MESSAGE_PHOTO_SIZE :: q.reads
  | _ => [MESSAGE_PHOTO_SIZE]

def Delivery.stream (d : Delivery) : List Byte :=
  ((MessagePhoto.fill d.buff d.message.text d.message.type).map MessagePhoto.stream).getD [] ++
    d.message.content d.photoBuff

-- A photo that can be passed on but for the length of its name.
structure Photo.Sound (q : Photo) : Prop where
  name : q.name ≠ [] ∧ 44 ∉ q.name ∧ 0 ∉ q.name
  bytes : q.bytes ≠ []
  keyword : ∀ k ∈ q.keywords, k ≠ [] ∧ (∀ b ∈ k, isSpace b = false) ∧ 0 ∉ k ∧ k.length ≤ 97

def Photo.HeaderFits (q : Photo) : Prop :=
  (photoHeaderText q.data q.bytes.length).length < MAX_SIZE

-- What may come to a peer, which is `own` itself.
def Incoming.Valid (own : DataR) (v : Member) (r : Surroundings) : Incoming → Prop
  | request q => (q.Valid v.album ∧ q.Counted v.album) ∧ ∀ id name bytes, q = .addPhoto id name bytes →
      r.gateway = .id id ∧ Photo.HeaderFits ⟨id, name, [], bytes⟩
  | refused name _ => (name ≠ [] ∧ 44 ∉ name ∧ 0 ∉ name) ∧ ∀ id, r.gateway = .id id → id = 0
  | register K => Identity K
  | newcomer K => Identity K ∧ ∀ q ∈ v.album, q.HeaderFits
  | replicate q =>
      q.id ∉ v.album.ids ∧ q.Sound ∧ q.HeaderFits ∧ q.keywords.Nodup ∧ q.keywords.length ≤ MAX_KEYWORDS
  | keyword _ word => word ≠ [] ∧ 0 ∉ word ∧ ∀ b ∈ word, isSpace b = false
  | delete _ => True
  | remove K => Identity K ∧ K ≠ own
  | unknown _ type => type.toInt < -2 ∨ type.toInt = 0 ∨ 12 < type.toInt
  | leave _ => True
  | gatewayOffline _ => True

structure Delivery.Valid (own : DataR) (v : Member) (d : Delivery) : Prop where
  message : d.message.Valid own v d.round
  fits : d.message.text.length < MAX_SIZE
  self : d.round.online own = true
  unbroken : d.round.errno ≠ .epipe

def ValidCourse (own : DataR) (port : Int32) : Member → List Delivery → Prop
  | _, [] => True
  | v, d :: rest =>
      d.Valid own v ∧ (d.ending = none → ValidCourse own port (v.step port d).1 rest)

end Wire

-- The peer keeps what it should: photos, others and a connection that takes what is sent.
structure Serving.Keeps (s : Serving) (own : DataR) (v : Member) : Prop where
  album : Represents s.peer v.album
  ring : s.ring.Holds (own :: v.others)
  sound : ∀ q ∈ v.album, q.Sound
  known : ∀ K ∈ v.others, Identity K
  ready : s.sock.out.Ready

end Gallery
