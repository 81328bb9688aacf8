import Gallery.Library.Download
import Gallery.Library.Keywords
import Gallery.Library.Upload
import Gallery.Peer.Refinement

namespace Gallery

open Bytes Text

-- What a call of the library gives a client: its value, and what it stored through a
-- pointer or in a file.
inductive Returned
  | photoId (photo_id : UInt32)
  | success (success : Int32)
  | photos (length : Int32) (id_photos : List UInt32)
  | name (ret : Int32) (photo_name : List Byte)
  | photo (ret : Int32) (written : Option (CString × List Byte))
  deriving DecidableEq

-- What a call finds: its unset locals, the heap and the files of the client.
structure Locals where
  buff : MessagePhoto
  success : Int32
  heap : Nat → Byte
  files : CString → Option (List Byte)
  writable : CString → Bool
  file_name : CString

section Calls

variable (e : Locals) (s : Sock)

-- The call that makes a request.
def Request.call : Request → Option (Returned × Sock)
  | addPhoto _ name _ =>
      (galleryAddPhoto s e.buff e.files name).map (fun r => (.photoId r.1, r.2))
  | addKeyword id keyword =>
      (galleryAddKeyword s e.buff e.success id keyword).map (fun r => (.success r.1, r.2))
  | searchPhoto keyword =>
      (gallerySearchPhoto s e.buff e.heap keyword).map (fun r => (.photos r.ret r.id_photos, r.sock))
  | deletePhoto id =>
      (galleryDeletePhoto s e.buff e.success id).map (fun r => (.success r.1, r.2))
  | getPhotoName id =>
      (galleryGetPhotoName s e.buff e.heap id).map (fun r => (.name r.ret r.photo_name, r.sock))
  | getPhoto id =>
      (galleryGetPhoto s e.buff e.heap e.writable id e.file_name).map
        (fun r => (.photo r.ret r.written, r.sock))

end Calls

-- What a client should be given for a reply.
def Reply.returned (file_name : CString) : Reply → Returned
  | id n => .photoId n
  | success i => .success i
  | photos ids => .photos (Int32.ofNat ids.length) ids
  | name none => .name 0 []
  | name (some n) => .name 1 (n ++ [0])
  | photo none => .photo 0 none
  | photo (some bytes) => .photo 1 (some (file_name, bytes))

-- How a reply has to come: what is read with one `recv` whole, what `recv_all` reads
-- anyhow, unless a read could run into the part behind it.
def Reply.Arrives (c : Conn) : Reply → Prop
  | id _ => True
  | success _ => 4 ≤ c.available
  | photos ids => 4 ≤ c.available ∧ (ids = [] ∨ 4 * ids.length ≤ (c.after 4).available)
  | name _ => AlignedSizes c.chunks c.bytes.length [4]
  | photo _ => SizeWhole c

-- Names that fit their field, and photos that a download can count.
structure Album.Fits (a : Album) : Prop where
  names : ∀ q ∈ a, q.name.length < SIZE
  bytes : ∀ q ∈ a, q.bytes ≠ [] ∧ q.bytes.length < 2 ^ 31

-- One call and the connection it is made on, seen from both ends. For a new photo the
-- gateway is asked for an id.
structure Turn where
  request : Request
  locals : Locals
  client : Sock
  server : Sock
  gateway : GatewayReply

-- A call that can be made while the album is `a`, on a connection that stays up.
structure Turn.Fair (a : Album) (x : Turn) : Prop where
  valid : x.request.Valid a
  fits : x.request.text.length < MAX_SIZE
  file : ∀ id name bytes, x.request = .addPhoto id name bytes →
    x.locals.files name = some bytes ∧ bytes.length < 2 ^ 31 ∧ x.gateway = .id id
  writable : ∀ id, x.request = .getPhoto id → x.locals.writable x.locals.file_name = true
  count : a.length < 2 ^ 31
  ready : x.client.out.Ready ∧ x.server.out.Ready
  framed : Framed x.server.conn x.request.reads
  arrives : (a.step x.request).2.Arrives x.client.conn

section Client

variable {e : Locals} {c : Sock} {buff m : MessagePhoto} {out : Out}

end Client

section Turns

variable {a : Album} {x : Turn} {p : Peer} {result : Returned × Sock} {h : Handled}

theorem Album.Fits.step (ha : a.Fits) {r : Request} (hr : r.Valid a) (hfits : r.text.length < MAX_SIZE)
    (hlt : ∀ id name bytes, r = .addPhoto id name bytes → bytes.length < 2 ^ 31) :
    (a.step r).1.Fits := by
  cases r with
  | addPhoto id name bytes =>
      obtain ⟨-, -, -, -, -, hne⟩ := hr
      have hname : name.length < SIZE := by
        simp only [Request.text, List.length_append, List.length_cons, MAX_SIZE] at hfits
        rw [SIZE]
        omega
      constructor
      · intro q hq
        rcases List.mem_append.mp hq with hold | hnew
        · exact ha.names q hold
        · obtain rfl := List.mem_singleton.mp hnew
          exact hname
      · intro q hq
        rcases List.mem_append.mp hq with hold | hnew
        · exact ha.bytes q hold
        · obtain rfl := List.mem_singleton.mp hnew
          exact ⟨hne, hlt id name bytes rfl⟩
  | addKeyword id keyword =>
      -- Keywords change neither names nor bytes.
      have hsame : ∀ q ∈ (a.addKeyword id keyword).1, ∃ q' ∈ a, q'.name = q.name ∧ q'.bytes = q.bytes := by
        intro q hq
        rw [Album.addKeyword] at hq
        split at hq
        · exact ⟨q, hq, rfl, rfl⟩
        · repeat' split at hq
          · exact ⟨q, hq, rfl, rfl⟩
          · exact ⟨q, hq, rfl, rfl⟩
          · obtain ⟨q', hq', rfl⟩ := List.mem_map.mp hq
            refine ⟨q', hq', ?_, ?_⟩ <;> split <;> rfl
      constructor
      · intro q hq
        obtain ⟨q', hq', hname, -⟩ := hsame q hq
        exact hname ▸ ha.names q' hq'
      · intro q hq
        obtain ⟨q', hq', -, hbytes⟩ := hsame q hq
        exact hbytes ▸ ha.bytes q' hq'
  | deletePhoto id =>
      exact ⟨fun q hq => ha.names q (List.mem_of_mem_filter hq),
        fun q hq => ha.bytes q (List.mem_of_mem_filter hq)⟩
  | searchPhoto keyword => exact ha
  | getPhotoName id => exact ha
  | getPhoto id => exact ha

-- The peer's end: the message and what follows it are answered from the album.
theorem Turn.Fair.answered (hx : x.Fair a) (hp : Represents p a) {m : MessagePhoto}
    (hm : MessagePhoto.fill x.locals.buff x.request.text x.request.type = some m)
    (hb : x.server.conn.bytes = m.stream ++ x.request.content) :
    ∃ h, connection p x.server x.gateway = some h ∧
      Answered h x.server.out (a.step x.request).1 (a.step x.request).2 := by
  refine connection_answered hp x.server x.gateway x.request hx.valid
    (Request.counted_of_length hx.count _) ⟨?_, hx.framed, hx.ready.2, ?_⟩
  · exact ⟨_, m, [], hm, by rw [List.append_nil, hb]⟩
  · intro id name bytes hr
    exact (hx.file id name bytes hr).2.2

-- The peer cannot have read the bytes of a photo that were not sent.
theorem Turn.Fair.content (hx : x.Fair a) {m : MessagePhoto} {content : List Byte}
    (hb : x.server.conn.bytes = m.stream ++ content)
    (hcontent : content = [] ∨ content = x.request.content) : content = x.request.content := by
  rcases hcontent with rfl | hsame
  · have hframed := hx.framed
    have hvalid := hx.valid
    cases hr : x.request with
    | addPhoto id name bytes =>
        rw [hr] at hframed hvalid
        obtain ⟨-, -, -, -, -, hne⟩ := hvalid
        have hlen := m.length_stream
        obtain ⟨-, -, hrest, hret, hstored, -⟩ := recvAll_framed x.server.conn m.stream []
          [bytes.length] hb (List.ne_nil_of_length_pos (by simp [MESSAGE_PHOTO_SIZE]))
          (by rw [hlen]; exact hframed)
        have hpos := List.length_pos_iff.mpr hne
        have hlt := recvAll_ret_lt (recvAll x.server.conn m.stream.length).conn bytes.length
        obtain ⟨hgot, -, hcases⟩ := recvAll_outcome bytes.length
          (recvAll x.server.conn m.stream.length).conn hpos (by omega)
        rw [hrest, List.append_eq_nil_iff] at hgot
        rw [hgot.1, List.length_nil] at hcases
        have hend := (recvAll x.server.conn m.stream.length).conn.ending.nbytes_nonpos
        omega
    | addKeyword id keyword => rfl
    | searchPhoto keyword => rfl
    | deletePhoto id => rfl
    | getPhotoName id => rfl
    | getPhoto id => rfl
  · exact hsame

end Turns

section Sessions

section TurnOf

variable {a : Album} {r : Request} (hr : r.Valid a) (hfits : r.text.length < MAX_SIZE)
variable (hlt : r.content.length < 2 ^ 31) (hcount : a.length < 2 ^ 31)

include hr hfits hlt hcount

end TurnOf

end Sessions

end Gallery
