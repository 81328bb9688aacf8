import Gallery.LinkedList
import Gallery.Library

namespace Gallery

open Bytes Text

-- What one peer keeps: its `photo_list` and the files of its directory.
structure Peer where
  photo_list : List Data
  files : CString → Option (List Byte)

def fileName (id : UInt32) : CString := decimal id.toNat

def Peer.writeFile (p : Peer) (name : CString) (bytes : List Byte) : Peer :=
  { p with files := fun other => if other = name then some bytes else p.files other }

def Peer.unlink (p : Peer) (name : CString) : Peer :=
  { p with files := fun other => if other = name then none else p.files other }

@[simp] theorem Peer.writeFile_photo_list (p : Peer) (name : CString) (bytes : List Byte) :
    (p.writeFile name bytes).photo_list = p.photo_list := rfl

@[simp] theorem Peer.writeFile_files (p : Peer) (name : CString) (bytes : List Byte) (other : CString) :
    (p.writeFile name bytes).files other = if other = name then some bytes else p.files other := rfl

@[simp] theorem Peer.unlink_photo_list (p : Peer) (name : CString) :
    (p.unlink name).photo_list = p.photo_list := rfl

@[simp] theorem Peer.unlink_files (p : Peer) (name other : CString) :
    (p.unlink name).files other = if other = name then none else p.files other := rfl

-- The arguments of a call of `broadcastPeersAndNotify`.
structure Broadcast where
  message : CString
  type : Int32
  photo : Option Data
  deriving DecidableEq

-- What a handler leaves behind: the peer, its end of the connection and the
-- broadcasts it asks for.
structure Handled where
  peer : Peer
  sock : Sock
  broadcasts : List Broadcast

-- What became of the request for an id sent to the gateway.
inductive GatewayReply
  | notSent
  | timeout
  | id (n : UInt32)

def searchKeyword (photo : Data) (keyword : CString) : Bool :=
  photo.keyword.any (fun k => k == keyword)

section Headers

-- The fields `sscanf` assigned; the others keep their initial values and `name`,
-- which has none, stays unset.
structure PhotoHeader where
  name : Option CString := none
  size : Nat := 0
  id : UInt32 := 0
  n_keywords : Int32 := 0
  deriving DecidableEq

-- `"%[^,],%lu"`, and the text after it.
def sscanfNameSize (buffer : CString) : PhotoHeader × Option (List Byte) :=
  match scanUntil 44 buffer with
  | none => ({}, none)
  | some (name, s) =>
      match (scanLiteral 44 s).bind (fun (_, s) => scanULong s) with
      | none => ({ name := some name }, none)
      | some (size, s) => ({ name := some name, size := size }, some s)

-- `"%[^,],%lu.%u.%d"`
def sscanfPhoto (buffer : CString) : PhotoHeader :=
  match sscanfNameSize buffer with
  | (h, none) => h
  | (h, some s) =>
      match (scanLiteral 46 s).bind (fun (_, s) => scanUInt s) with
      | none => h
      | some (id, s) =>
          match (scanLiteral 46 s).bind (fun (_, s) => scanInt s) with
          | none => { h with id := id }
          | some (n_keywords, _) => { h with id := id, n_keywords := n_keywords }

-- `"%u.%s"`
def sscanfKeyword (buffer : CString) : Option (UInt32 × CString) := do
  let (id, s) ← scanUInt buffer
  let (_, s) ← scanLiteral 46 s
  let (keyword, _) ← scanWord s
  some (id, keyword)

-- `"%u"`
def sscanfId (buffer : CString) : Option UInt32 := (scanUInt buffer).map Prod.fst

end Headers

section AddPhoto

-- The pieces `strsep(&keywords, " ")` cuts a string into.
def strsep (s : CString) : List CString := s.splitOnP (· == 32)

-- One round of the loop over the pieces; `none` is a write past the table.
def storeKeyword (photo : Data) (keyword : CString) : Option Data :=
  if keyword = [] then some photo
  else if photo.n_keywords < MAX_KEYWORDS ∧ keyword.length < SIZE then
    some { photo with keyword := photo.keyword ++ [keyword] }
  else none

def storeKeywords : Data → List CString → Option Data
  | photo, [] => some photo
  | photo, keyword :: rest => do storeKeywords (← storeKeyword photo keyword) rest

-- The keyword block that follows the header of a replicated photo.
def recvKeywords (s : Sock) (photo : Data) (n_keywords : Int32) : Option (Data × Sock) :=
  let got := recvAll s.conn (toSizeT n_keywords.toInt * SIZE)
  if got.ret = -1 then none
  else if MAX_KEYWORDS * SIZE < got.stored.length then none
  else do
    let keywords := overlay got.stored (List.replicate (MAX_KEYWORDS * SIZE) 0)
    let photo ← storeKeywords photo (strsep (cString keywords))
    some (photo, ⟨s.out, got.conn⟩)

-- From the insertion on: the list first, then the bytes and their file.
def storePhoto (p : Peer) (s : Sock) (photo : Data) (size : Nat) : Option (Peer × Sock) :=
  let p := { p with photo_list := listInsert p.photo_list photo }
  let got := recvAll s.conn size
  if got.ret ≤ 0 then none
  else some (p.writeFile (fileName photo.id) (got.stored.take size), ⟨s.out, got.conn⟩)

-- A request of a client: the id comes from the gateway and goes to the client.
def addPhotoClient (p : Peer) (s : Sock) (gateway : GatewayReply) (buffer : CString) :
    Option (Handled × Int32) := do
  let (h, _) := sscanfNameSize buffer
  let name ← h.name
  match gateway with
  | .notSent => some (⟨p, s, []⟩, -1)
  | _ =>
      let id : UInt32 := match gateway with | .id n => n | _ => 0
      let (sent, out) := sendAll s.out (uint32Bytes id)
      let s := ⟨out, s.conn⟩
      if sent = -1 then some (⟨p, s, []⟩, -1)
      else if id = 0 then some (⟨p, s, []⟩, -1)
      else do
        let photo := setData name id
        let (p, s) ← storePhoto p s photo h.size
        some (⟨p, s, [⟨[], 9, some photo⟩]⟩, id.toInt32)

-- A replicated photo brings its id and its keywords.
def addPhotoPeer (p : Peer) (s : Sock) (buffer : CString) : Option (Handled × Int32) := do
  let h := sscanfPhoto buffer
  let name ← h.name
  let photo := setData name h.id
  let (photo, s) ← if 0 < h.n_keywords then recvKeywords s photo h.n_keywords else some (photo, s)
  let (p, s) ← storePhoto p s photo h.size
  some (⟨p, s, []⟩, h.id.toInt32)

end AddPhoto

section AddKeyword

-- What is left of the photos when the keyword of one of them is written past its table, over
-- whatever stands there in memory.
abbrev Overrun := List Data → UInt32 → CString → List Data

-- The lookup, the two tests and the insertion: `success` and the peer.
def insertKeyword (p : Peer) (id : UInt32) (keyword : CString) : Int32 × Peer :=
  let K := setData [] id
  match listSearch p.photo_list K with
  | none => (-2, p)
  | some photo =>
      if photo.n_keywords < MAX_KEYWORDS then
        if searchKeyword photo keyword then (-3, p)
        else
          (1, { p with photo_list := listUpdate p.photo_list K (fun photo =>
            { photo with keyword := photo.keyword ++ [keyword] }) })
      else (-1, p)

def addKeyword (p : Peer) (s : Sock) (m : MessagePhoto) : Option Handled := do
  let (id, keyword) ← sscanfKeyword m.text
  let (success, p) := insertKeyword p id keyword
  if m.type = 10 then some ⟨p, s, []⟩
  else
    let (_, out) := sendAll s.out (intBytes success)
    some ⟨p, ⟨out, s.conn⟩, if success = 1 then [⟨m.text, 10, none⟩] else []⟩

end AddKeyword

section SearchPhoto

-- The loop over `photo_list`: every hit goes to the front of `list`. They are counted in an
-- `int`.
def searchLoop (keyword : CString) : List Data → List Data → Int32 → List Data × Int32
  | [], list, n_photos => (list, n_photos)
  | photo :: rest, list, n_photos =>
      if searchKeyword photo keyword then
        searchLoop keyword rest (listInsert list (setData [] photo.id)) (n_photos + 1)
      else searchLoop keyword rest list n_photos

-- The loop that turns `list` into an array; `none` is `list_first` on an empty list.
def idArray : Nat → List Data → Option (List UInt32)
  | 0, _ => some []
  | n + 1, list => do
      let (aux, list) ← listFirst list
      let ids ← idArray n list
      some (aux.id :: ids)

-- For a negative number `malloc` has no block and `send` takes nothing.
def searchPhoto (p : Peer) (s : Sock) (m : MessagePhoto) : Option Handled := do
  let (list, n_photos) := searchLoop m.text p.photo_list [] 0
  let (sent, out) := sendAll s.out (intBytes n_photos)
  if sent = -1 ∨ n_photos ≤ 0 then some ⟨p, ⟨out, s.conn⟩, []⟩
  else
    let id_photos ← idArray n_photos.toNatClampNeg list
    let (_, out) := sendAll out (id_photos.flatMap uint32Bytes)
    some ⟨p, ⟨out, s.conn⟩, []⟩

end SearchPhoto

def deletePhoto (p : Peer) (s : Sock) (m : MessagePhoto) : Option Handled := do
  let id ← sscanfId m.text
  let (found, photo_list) := listRemove p.photo_list (setData [] id)
  let p := { p with photo_list := photo_list }
  let p := if found ≠ 0 then p.unlink (fileName id) else p
  if m.type = 11 then some ⟨p, s, []⟩
  else
    let (_, out) := sendAll s.out (intBytes (Int32.ofNat found))
    some ⟨p, ⟨out, s.conn⟩, if found ≠ 0 then [⟨m.text, 11, none⟩] else []⟩

def sendPhotoName (p : Peer) (s : Sock) (m : MessagePhoto) : Option Handled := do
  let id ← sscanfId m.text
  match listSearch p.photo_list (setData [] id) with
  | none =>
      let (_, out) := sendAll s.out (intBytes 0)
      some ⟨p, ⟨out, s.conn⟩, []⟩
  | some aux =>
      let name := aux.name ++ [0]
      let (_, out) := sendAll s.out (intBytes (Int32.ofNat name.length))
      let (_, out) := sendAll out name
      some ⟨p, ⟨out, s.conn⟩, []⟩

section SendPhoto

-- A `long` as its eight bytes on the wire.
def longBytes (n : Nat) : List Byte := leBytes 8 n

-- The bytes of the photo, which are sent only when there are some.
def sendBytes (out : Out) (bytes : List Byte) : Out :=
  if bytes.length = 0 then out else (sendAll out bytes).2

-- For a client. A listed photo whose file is missing is a call of `fseek` with NULL.
def sendPhotoClient (p : Peer) (s : Sock) (m : MessagePhoto) : Option Handled := do
  let id ← sscanfId m.text
  match listSearch p.photo_list (setData [] id) with
  | none =>
      let (_, out) := sendAll s.out (longBytes 0)
      some ⟨p, ⟨out, s.conn⟩, []⟩
  | some photo => do
      let bytes ← p.files (fileName photo.id)
      let (_, out) := sendAll s.out (longBytes bytes.length)
      some ⟨p, ⟨sendBytes out bytes, s.conn⟩, []⟩

-- `"%s,%lu.%u.%d"`
def photoHeaderText (photo : Data) (size : Nat) : CString :=
  photo.name ++ 44 :: (decimal size ++ 46 :: (decimal photo.id.toNat ++ 46 :: decimal photo.n_keywords))

-- The keywords, each followed by a space, in a zeroed block; `none` is a write
-- past its end.
def keywordBlock (photo : Data) : Option (List Byte) :=
  let text := photo.keyword.flatMap (fun k => k ++ [32])
  let size := photo.n_keywords * SIZE
  if text.length < size then some (text ++ List.replicate (size - text.length) 0) else none

-- What `send_photo` needs for a peer: a file, and a header and keywords that fit their
-- buffers.
def Peer.sends (p : Peer) (photo : Data) : Bool :=
  (p.files (fileName photo.id)).any (fun bytes => (photoHeaderText photo bytes.length).length < MAX_SIZE) &&
    (photo.n_keywords == 0 || (keywordBlock photo).isSome)

-- For a peer; `buff` is the local structure of `stream_and_send_photo`.
def sendPhotoPeer (p : Peer) (out : Out) (buff : MessagePhoto) (photo : Data) : Option Out := do
  let bytes ← p.files (fileName photo.id)
  let (sent, out) ← streamAndSendPhoto out buff (photoHeaderText photo bytes.length) 1
  if sent = -1 then none
  else if 0 < photo.n_keywords then do
    let keywords ← keywordBlock photo
    let (sent, out) := sendAll out keywords
    if sent = -1 then none else some (sendBytes out bytes)
  else some (sendBytes out bytes)

-- `buffs` gives what the local structure of each call held before.
def sendPhotosLoop (p : Peer) (buffs : Nat → MessagePhoto) :
    Nat → Out → List Data → Option Out
  | _, out, [] => some out
  | i, out, aux :: rest => do
      sendPhotosLoop p buffs (i + 1) (← sendPhotoPeer p out (buffs i) aux) rest

def sendAllPhotos (p : Peer) (out : Out) (buffs : Nat → MessagePhoto) : Option Out :=
  let size := listCount p.photo_list
  let (sent, out) := sendAll out (intBytes size)
  if sent = -1 then none else sendPhotosLoop p buffs 0 out p.photo_list

-- The rounds of the receiving loop of `notify_and_recv_photos`; a message that does
-- not come leaves `msg` as it was.
def recvPhotosLoop : Nat → Peer → Sock → MessagePhoto → Option (Peer × Sock)
  | 0, p, s, _ => some (p, s)
  | rounds + 1, p, s, msg => do
      let got := recvAndUnstreamPhoto s.conn
      let msg := got.buff.getD msg
      let (h, _) ← addPhotoPeer p ⟨s.out, got.conn⟩ msg.text
      recvPhotosLoop rounds h.peer h.sock msg

-- What follows the type 8 message: first the size of the list, then the photos.
def recvPhotoList (p : Peer) (s : Sock) (msg : MessagePhoto) : Option (Peer × Sock) :=
  let got := recvAll s.conn 4
  if got.ret = -1 then none
  else
    let size := intOfBytes ((overlay got.stored (intBytes 0)).take 4)
    recvPhotosLoop size.toNatClampNeg p ⟨s.out, got.conn⟩ msg

end SendPhoto

-- One round of the loop of `connection` for the requests on photos. The types that
-- change `peer_list` or end the connection are not handled here.
def connection (p : Peer) (s : Sock) (gateway : GatewayReply) : Option Handled := do
  let got := recvAndUnstreamPhoto s.conn
  let m ← got.buff
  let s : Sock := ⟨s.out, got.conn⟩
  match m.type.toInt with
  | 1 => (addPhotoClient p s gateway m.text).map Prod.fst
  | 2 => addKeyword p s m
  | 3 => searchPhoto p s m
  | 4 => deletePhoto p s m
  | 5 => sendPhotoName p s m
  | 6 => sendPhotoClient p s m
  | 9 =>
      let got := recvAndUnstreamPhoto s.conn
      (addPhotoPeer p ⟨s.out, got.conn⟩ (got.buff.getD m).text).map Prod.fst
  | 10 => addKeyword p s m
  | 11 => deletePhoto p s m
  | _ => none

def checkGWState : Errno → Int × Errno := checkErrno

end Gallery
