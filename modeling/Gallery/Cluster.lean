import Gallery.Peer.Transfer
import Gallery.Transition

namespace Gallery

open Text

-- What a handler meets when it goes on with an item that is gone, or past the end of a table:
-- what its write leaves of the photos, and what such an item reads as.
structure Memory where
  overrun : Overrun
  freed : List Data → UInt32 → Data

-- Memory that a stray write leaves as it is, and that reads as zeros once it is freed.
def untouched : DataR → Memory := fun _ => ⟨fun photos _ _ => photos, fun _ _ => setData [] 0⟩

-- A peer among others: its photos and files, and its ring of peers read from the
-- root, which is the peer itself. `peer_lock` is held by the thread that broadcasts.
structure Replica where
  peer : Peer
  peer_list : List DataR
  peer_lock : Bool
  memory : Memory

def Replica.setPhotos (r : Replica) (photos : List Data) : Replica :=
  { r with peer := { r.peer with photo_list := photos } }

def Replica.setPeer (r : Replica) (p : Peer) : Replica := { r with peer := p }

def Replica.ids (r : Replica) : List UInt32 := r.peer.photo_list.map Data.id

-- The item of a photo that was found before, and may be gone.
def Replica.item (r : Replica) (id : UInt32) : Data :=
  (listSearch r.peer.photo_list (setData [] id)).getD (r.memory.freed r.peer.photo_list id)

-- It is there, and its table has room.
def Replica.roomFor (r : Replica) (id : UInt32) : Bool :=
  (listSearch r.peer.photo_list (setData [] id)).any (fun aux => aux.n_keywords < MAX_KEYWORDS)

-- What a client asks a peer to change (types 1, 2 and 4). The bytes of a photo
-- follow its message.
inductive Call
  | addPhoto (message : CString) (bytes : List Byte)
  | addKeyword (message : CString)
  | deletePhoto (message : CString)

-- The calls of `broadcastPeersAndNotify`.
inductive News
  | photo (photo : Data)
  | keyword (message : CString)
  | delete (message : CString)

def News.broadcast : News → Broadcast
  | .photo K => ⟨[], 9, some K⟩
  | .keyword message => ⟨message, 10, none⟩
  | .delete message => ⟨message, 11, none⟩

-- The messages between processes: types 7 and 8, then 9 to 12. Type 8 comes on the
-- connection of a new peer that waits for photos. A replicated photo comes with its
-- header, its keywords and its bytes.
inductive Packet
  | newPeer (K : DataR) (asker : Option DataR)
  | photo (photo : Data) (bytes : List Byte)
  | keyword (message : CString)
  | delete (message : CString)
  | deletePeer (K : DataR)

-- A record that its receiver reads back from the header and the keywords.
def Data.Legible (photo : Data) : Prop :=
  (photo.name ≠ [] ∧ 44 ∉ photo.name ∧ 0 ∉ photo.name) ∧ photo.n_keywords ≤ MAX_KEYWORDS ∧
    ∀ k ∈ photo.keyword, k ≠ [] ∧ 32 ∉ k ∧ 0 ∉ k ∧ k.length ≤ 97

instance (photo : Data) : Decidable photo.Legible :=
  inferInstanceAs (Decidable ((_ ∧ _ ∧ _) ∧ _ ∧ ∀ k ∈ photo.keyword, k ≠ [] ∧ 32 ∉ k ∧ 0 ∉ k ∧ k.length ≤ 97))

-- A photo is sent from its file; `none` is a file that is not there, a header or keywords
-- that overflow their buffers, or a record that comes out as another one.
def Peer.sendPhoto (p : Peer) (photo : Data) : Option (List Byte) :=
  if p.sends photo = true ∧ photo.Legible then p.files (fileName photo.id) else none

def News.packet (p : Peer) : News → Option Packet
  | .photo K => (p.sendPhoto K).map (Packet.photo K)
  | .keyword message => some (.keyword message)
  | .delete message => some (.delete message)

-- Where a thread of a peer stands: the part of its handler that comes next.
inductive Task
  | askId (name : CString) (size : Nat) (bytes : List Byte)
  | insertPhoto (photo : Data) (size : Nat) (bytes : List Byte) (isPeer : Bool)
  | writePhoto (photo : Data) (size : Nat) (bytes : List Byte) (isPeer : Bool)
  | findPhoto (message : CString) (isPeer : Bool)
  | checkFull (message : CString) (isPeer : Bool)
  | searchKeyword (message : CString) (isPeer : Bool)
  | insertKeyword (message : CString) (isPeer : Bool)
  | answerKeyword (message : CString) (success : Int32)
  | removePhoto (message : CString) (isPeer : Bool)
  | unlinkPhoto (message : CString) (isPeer : Bool)
  | answerDelete (message : CString) (found : Nat)
  | lockPeers (news : News)
  | broadcast (news : News) (rest : List DataR)
  | registerPeer (K : DataR) (asker : Option DataR)
  | sendAllPhotos (asker : DataR)
  | deletePeer (K : DataR)

def Task.asksId : Task → Bool
  | .askId _ _ _ => true
  | _ => false

-- The first part of the handler of a request; without a name there is no photo.
def Call.task : Call → Option Task
  | .addPhoto message bytes =>
      let (h, _) := sscanfNameSize message
      h.name.map (fun name => .askId name h.size bytes)
  | .addKeyword message => some (.findPhoto message false)
  | .deletePhoto message => some (.removePhoto message false)

def Packet.task : Packet → Task
  | .newPeer K asker => .registerPeer K asker
  | .photo K bytes => .insertPhoto K bytes.length bytes true
  | .keyword message => .findPhoto message true
  | .delete message => .removePhoto message true
  | .deletePeer K => .deletePeer K

-- What a client is told, next to what it had asked.
inductive Answer
  | id (n : UInt32)
  | keyword (message : CString) (success : Int32)
  | delete (message : CString) (found : Nat)
  deriving DecidableEq

-- What a part of a handler does: its peer afterwards, the part that follows, the
-- gateway's counter, and what leaves the peer: packets, answers, type -2 datagrams
-- and lists of photos.
structure Effect where
  replica : Replica
  next : Option Task
  photo_id : UInt32
  sent : List (DataR × Packet) := []
  answers : List Answer := []
  reports : List DataR := []
  mail : List (DataR × List (Data × List Byte)) := []

section Handlers

variable (online : DataR → Bool) (photo_id : UInt32) (r : Replica)

-- After the insertion of a keyword only a client is answered.
def keywordDone (message : CString) (isPeer : Bool) (success : Int32) : Option Task :=
  if isPeer then none else some (.answerKeyword message success)

def deleteDone (message : CString) (isPeer : Bool) (found : Nat) : Option Task :=
  if isPeer then none else some (.answerDelete message found)

-- `none` is a thread that waits for a lock, or one that would crash. `recv_all` takes no
-- photo of 2^31 bytes.
def runTask : Task → Option Effect
  | .askId name size bytes =>
      let id := photo_id + 1
      let next := if id = 0 then none else some (.insertPhoto (setData name id) size bytes false)
      some { replica := r, next := next, photo_id := id, answers := [.id id] }
  | .insertPhoto photo size bytes isPeer =>
      some {
        replica := r.setPhotos (listInsert r.peer.photo_list photo)
        next := some (.writePhoto photo size bytes isPeer)
        photo_id := photo_id }
  | .writePhoto photo size bytes isPeer =>
      if size = 0 ∨ bytes.length < size ∨ 2 ^ 31 ≤ size then none
      else
        some {
          replica := r.setPeer (r.peer.writeFile (fileName photo.id) (bytes.take size))
          next := if isPeer then none else some (.lockPeers (.photo photo))
          photo_id := photo_id }
  | .findPhoto message isPeer => do
      let (id, _) ← sscanfKeyword message
      let next :=
        match listSearch r.peer.photo_list (setData [] id) with
        | none => keywordDone message isPeer (-2)
        | some _ => some (.checkFull message isPeer)
      some { replica := r, next := next, photo_id := photo_id }
  | .checkFull message isPeer => do
      let (id, _) ← sscanfKeyword message
      let next :=
        if (r.item id).n_keywords < MAX_KEYWORDS then some (.searchKeyword message isPeer)
        else keywordDone message isPeer (-1)
      some { replica := r, next := next, photo_id := photo_id }
  | .searchKeyword message isPeer => do
      let (id, keyword) ← sscanfKeyword message
      let next :=
        if searchKeyword (r.item id) keyword then keywordDone message isPeer (-3)
        else some (.insertKeyword message isPeer)
      some { replica := r, next := next, photo_id := photo_id }
  | .insertKeyword message isPeer => do
      let (id, keyword) ← sscanfKeyword message
      let photo_list :=
        if r.roomFor id then
          listUpdate r.peer.photo_list (setData [] id) (fun aux =>
            { aux with keyword := aux.keyword ++ [keyword] })
        else r.memory.overrun r.peer.photo_list id keyword
      some {
        replica := r.setPhotos photo_list
        next := keywordDone message isPeer 1
        photo_id := photo_id }
  | .answerKeyword message success =>
      some {
        replica := r
        next := if success = 1 then some (.lockPeers (.keyword message)) else none
        photo_id := photo_id
        answers := [.keyword message success] }
  | .removePhoto message isPeer => do
      let id ← sscanfId message
      let (found, photo_list) := listRemove r.peer.photo_list (setData [] id)
      some {
        replica := r.setPhotos photo_list
        next := if found ≠ 0 then some (.unlinkPhoto message isPeer)
          else deleteDone message isPeer 0
        photo_id := photo_id }
  | .unlinkPhoto message isPeer => do
      let id ← sscanfId message
      some {
        replica := r.setPeer (r.peer.unlink (fileName id))
        next := deleteDone message isPeer 1
        photo_id := photo_id }
  | .answerDelete message found =>
      some {
        replica := r
        next := if found ≠ 0 then some (.lockPeers (.delete message)) else none
        photo_id := photo_id
        answers := [.delete message found] }
  | .lockPeers news =>
      if r.peer_lock then none
      else
        some {
          replica := { r with peer_lock := true }
          next := some (.broadcast news r.peer_list.tail)
          photo_id := photo_id }
  | .broadcast _ [] =>
      some { replica := { r with peer_lock := false }, next := none, photo_id := photo_id }
  | .broadcast news (K :: rest) =>
      if online K then do
        let packet ← news.packet r.peer
        some {
          replica := r
          next := some (.broadcast news rest)
          photo_id := photo_id
          sent := [(K, packet)] }
      else
        some {
          replica := { r with peer_list := r.peer_list.erase K }
          next := some (.broadcast news rest)
          photo_id := photo_id
          reports := [K] }
  | .registerPeer K asker =>
      if r.peer_lock then none
      else
        some {
          replica := { r with peer_list := r.peer_list ++ [K] }
          next := asker.map Task.sendAllPhotos
          photo_id := photo_id }
  | .sendAllPhotos asker => do
      let photos ← r.peer.photo_list.mapM (fun photo =>
        (r.peer.sendPhoto photo).map (fun bytes => (photo, bytes)))
      -- The number of photos goes out as an `int`.
      if photos.length < 2 ^ 31 then
        some { replica := r, next := none, photo_id := photo_id, mail := [(asker, photos)] }
      else none
  | .deletePeer K =>
      if r.peer_lock then none
      else
        some {
          replica := { r with peer_list := r.peer_list.erase K }
          next := none
          photo_id := photo_id }

end Handlers

-- All peers, the gateway's counter, and what is between the processes.
structure Cluster where
  replica : DataR → Replica
  listening : DataR → Bool
  photo_id : UInt32
  threads : List (DataR × Task)
  packets : List (DataR × Packet)
  answers : List Answer
  reports : List (DataR × DataR)
  mail : List (DataR × List (Data × List Byte))

inductive ClusterAction
  -- A client makes a request at a peer.
  | call (p : DataR) (request : Call)
  -- A thread goes on.
  | run (i : Nat)
  -- A peer accepts a connection that brings a message.
  | deliver (i : Nat)

-- The threads and packets are left without the thread that ran.
def Cluster.apply (s : Cluster) (p : DataR) (threads : List (DataR × Task)) (e : Effect) : Cluster :=
  { s with
    replica := Function.update s.replica p e.replica
    photo_id := e.photo_id
    threads := threads ++ (e.next.map (fun task => (p, task))).toList
    packets := s.packets ++ e.sent
    answers := s.answers ++ e.answers
    reports := s.reports ++ e.reports.map (fun K => (p, K))
    mail := s.mail ++ e.mail }

def Cluster.step (s : Cluster) : ClusterAction → Option Cluster
  | .call p request =>
      if s.listening p then
        request.task.map (fun task => { s with threads := s.threads ++ [(p, task)] })
      else none
  | .run i => do
      let ((p, task), threads) ← pick s.threads i
      let e ← runTask s.listening s.photo_id (s.replica p) task
      some (s.apply p threads e)
  | .deliver i => do
      let ((p, packet), packets) ← pick s.packets i
      some { s with packets := packets, threads := s.threads ++ [(p, packet.task)] }

-- A keyword is written neither past its table nor into an item that is gone.
def Task.InTable (r : Replica) : Task → Prop
  | .insertKeyword message _ => ∀ k ∈ sscanfKeyword message, r.roomFor k.1 = true
  | _ => True

def Cluster.InTable (s : Cluster) : ClusterAction → Prop
  | .run i => ∀ a ∈ s.threads[i]?, a.2.InTable (s.replica a.1)
  | _ => True

instance (r : Replica) (task : Task) : Decidable (task.InTable r) :=
  match task with
  | .insertKeyword message _ =>
      inferInstanceAs (Decidable (∀ k ∈ sscanfKeyword message, r.roomFor k.1 = true))
  | .askId _ _ _ | .insertPhoto _ _ _ _ | .writePhoto _ _ _ _ | .findPhoto _ _ | .checkFull _ _
  | .searchKeyword _ _ | .answerKeyword _ _ | .removePhoto _ _ | .unlinkPhoto _ _ | .answerDelete _ _
  | .lockPeers _ | .broadcast _ _ | .registerPeer _ _ | .sendAllPhotos _ | .deletePeer _ => isTrue trivial

instance (s : Cluster) (a : ClusterAction) : Decidable (s.InTable a) :=
  match a with
  | .run i => inferInstanceAs (Decidable (∀ a ∈ s.threads[i]?, a.2.InTable (s.replica a.1)))
  | .call _ _ => isTrue trivial
  | .deliver _ => isTrue trivial

-- No handler runs and no message is on its way.
def Cluster.Quiet (s : Cluster) : Prop := s.threads = [] ∧ s.packets = []

end Gallery
