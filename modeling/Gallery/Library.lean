import Gallery.Socket
import Gallery.Text

namespace Gallery

open Bytes Text

-- One connected TCP socket.
structure Sock where
  out : Out
  conn : Conn
  deriving DecidableEq

-- The texts of the requests.
def addKeywordText (id_photo : UInt32) (keyword : CString) : CString :=
  decimal id_photo.toNat ++ 46 :: keyword

def photoIdText (id_photo : UInt32) : CString := decimal id_photo.toNat

-- The shape `gallery_add_keyword` and `gallery_delete_photo` share: a request,
-- then one `int` with one `recv`. `buff` and `success` are what the uninitialised
-- locals hold; `none` is a text that does not fit its buffer.
def requestInt (s : Sock) (buff : MessagePhoto) (success : Int32) (message : CString)
    (type error : Int32) : Option (Int32 × Sock) := do
  let (sent, out) ← streamAndSendPhoto s.out buff message type
  if sent = -1 then some (error, ⟨out, s.conn⟩)
  else
    let got := recv s.conn 4
    if got.ret = -1 then some (error, ⟨out, got.conn⟩)
    else some (intOfBytes (overlay got.stored (intBytes success)), ⟨out, got.conn⟩)

def galleryAddKeyword (s : Sock) (buff : MessagePhoto) (success : Int32) (id_photo : UInt32)
    (keyword : CString) : Option (Int32 × Sock) :=
  requestInt s buff success (addKeywordText id_photo keyword) 2 0

def galleryDeletePhoto (s : Sock) (buff : MessagePhoto) (success : Int32) (id_photo : UInt32) :
    Option (Int32 × Sock) :=
  requestInt s buff success (photoIdText id_photo) 4 (-1)

-- A fresh block of `n` bytes; `heap` is what was there.
def malloc (heap : Nat → Byte) (n : Nat) : List Byte := (List.range n).map heap

@[simp] theorem length_malloc (heap : Nat → Byte) (n : Nat) : (malloc heap n).length = n := by
  simp [malloc]

def uint32Array : Nat → List Byte → List UInt32
  | 0, _ => []
  | n + 1, bs => uint32OfBytes (bs.take 4) :: uint32Array n (bs.drop 4)

structure SearchResult where
  ret : Int32
  id_photos : List UInt32
  sock : Sock

def gallerySearchPhoto (s : Sock) (buff : MessagePhoto) (heap : Nat → Byte) (keyword : CString) :
    Option SearchResult := do
  let (sent, out) ← streamAndSendPhoto s.out buff keyword 3
  if sent = -1 then some ⟨-1, [], ⟨out, s.conn⟩⟩
  else
    let got := recv s.conn 4
    if got.ret = -1 then some ⟨-1, [], ⟨out, got.conn⟩⟩
    else
      let length := intOfBytes (overlay got.stored (intBytes 0))
      if length = 0 then some ⟨0, [], ⟨out, got.conn⟩⟩
      else
        let size := toSizeT length.toInt * 4 % 2 ^ 64
        let array := recv got.conn size
        if array.ret = -1 then some ⟨-1, [], ⟨out, array.conn⟩⟩
        else
          let id_photos := overlay array.stored (malloc heap size)
          some ⟨length, uint32Array length.toNatClampNeg id_photos, ⟨out, array.conn⟩⟩

structure NameResult where
  ret : Int32
  photo_name : List Byte
  sock : Sock

-- `none` is also a `recv_all` that writes past `length`.
def galleryGetPhotoName (s : Sock) (buff : MessagePhoto) (heap : Nat → Byte) (id_photo : UInt32) :
    Option NameResult := do
  let (sent, out) ← streamAndSendPhoto s.out buff (photoIdText id_photo) 5
  if sent = -1 then some ⟨-1, [], ⟨out, s.conn⟩⟩
  else
    let got := recvAll s.conn 4
    if 4 < got.stored.length then none
    else if got.ret = -1 then some ⟨-1, [], ⟨out, got.conn⟩⟩
    else
      let length := intOfBytes (overlay got.stored (intBytes 0))
      if length = 0 then some ⟨0, [], ⟨out, got.conn⟩⟩
      else
        let size := toSizeT length.toInt
        let name := recvAll got.conn size
        if name.ret = -1 then some ⟨-1, [], ⟨out, name.conn⟩⟩
        else some ⟨1, (overlay name.stored (malloc heap size)).take size, ⟨out, name.conn⟩⟩

-- What a peer answers to a search and to a name request.
structure SearchReply where
  ids : List UInt32
  n_photos : ids.length < 2 ^ 31

def SearchReply.stream (r : SearchReply) : List Byte :=
  intBytes (Int32.ofNat r.ids.length) ++ r.ids.flatMap uint32Bytes

inductive NameReply
  | absent
  | present (name : CString) (fits : name.length < SIZE)

def NameReply.name : NameReply → List Byte
  | absent => []
  | present name _ => name ++ [0]

def NameReply.stream (r : NameReply) : List Byte :=
  intBytes (Int32.ofNat r.name.length) ++ r.name

end Gallery
