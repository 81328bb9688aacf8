import Gallery.Library.Replies
import Gallery.Peer.Theorems

namespace Gallery

open Bytes Text

-- `written` is the file that was written, with its name.
structure PhotoResult where
  ret : Int32
  written : Option (CString × List Byte)
  sock : Sock

-- `writable` says which files can be opened for writing; `none` is the exit when the
-- file cannot. `recv_all` may write past `size`, the file gets no more than that.
def galleryGetPhoto (s : Sock) (buff : MessagePhoto) (heap : Nat → Byte) (writable : CString → Bool)
    (id_photo : UInt32) (file_name : CString) : Option PhotoResult := do
  let (sent, out) ← streamAndSendPhoto s.out buff (photoIdText id_photo) 6
  if sent = -1 then some ⟨-1, none, ⟨out, s.conn⟩⟩
  else
    let got := recv s.conn 8
    if got.ret = -1 then some ⟨-1, none, ⟨out, got.conn⟩⟩
    else
      let size := leNat (overlay got.stored (longBytes 0))
      if size = 0 then some ⟨0, none, ⟨out, got.conn⟩⟩
      else
        let photo := recvAll got.conn size
        if photo.ret ≤ 0 then some ⟨-1, none, ⟨out, photo.conn⟩⟩
        else if writable file_name then
          some ⟨1, some (file_name, (overlay photo.stored (malloc heap size)).take size),
            ⟨out, photo.conn⟩⟩
        else none

section Download

variable {p : Peer} {id : UInt32} {bytes : List Byte}

-- What the peer sends: the size, then the bytes of the photo.
def photoAnswer (bytes : List Byte) : List Byte := longBytes bytes.length ++ bytes

-- The size arrives whole; what follows may come in any pieces.
def SizeWhole (c : Conn) : Prop := ∀ d ∈ c.chunks.head?, 8 ≤ d

-- A download of the photo `id` ends with this value and this file, however its bytes are
-- cut up on the connection.
def DownloadsAs (p : Peer) (id : UInt32) (ret : Int32) (written : Option (List Byte)) : Prop :=
  ∀ (buff m : MessagePhoto), MessagePhoto.fill buff (photoIdText id) 6 = some m →
    ∀ (s : Sock) (gateway : GatewayReply), s.out.Ready → s.conn.bytes = m.stream →
    ∃ h answer, connection p s gateway = some h ∧
      h.sock.out.accepted = s.out.accepted ++ answer ∧
      ∀ (c : Sock) (heap : Nat → Byte) (writable : CString → Bool) (file_name : CString),
        writable file_name = true → c.out.Ready → c.conn.bytes = answer → SizeWhole c.conn →
        ∃ r, galleryGetPhoto c buff heap writable id file_name = some r ∧
          r.sock.out.accepted = c.out.accepted ++ m.stream ∧ r.ret = ret ∧
          r.written = written.map (fun bytes => (file_name, bytes))

-- The photo with this id and its file, if there is one.
def Peer.stored (p : Peer) (id : UInt32) : Option (Option (List Byte)) :=
  (listSearch p.photo_list (setData [] id)).map (fun photo => p.files (fileName photo.id))

@[simp] theorem length_longBytes (n : Nat) : (longBytes n).length = 8 := length_leBytes 8 n

-- The peer's part.
theorem sendBytes_accepted {o : Out} (ho : o.Ready) (bytes : List Byte) :
    (sendBytes o bytes).accepted = o.accepted ++ bytes := by
  by_cases hb : bytes = []
  · simp [sendBytes, hb]
  · have hlen : bytes.length ≠ 0 := by simpa using hb
    rw [sendBytes, if_neg hlen]
    exact (sendAll_ready o bytes hb ho).2.1

theorem connection_getPhoto {m : MessagePhoto} {s : Sock} (gateway : GatewayReply)
    (htype : m.type = 6) (hb : s.conn.bytes = m.stream) :
    ∃ conn, connection p s gateway = sendPhotoClient p ⟨s.out, conn⟩ m := by
  have hframed : Framed s.conn [MESSAGE_PHOTO_SIZE] := by
    have hexact := recvAll_exact hb (List.ne_nil_of_length_pos (by simp [MESSAGE_PHOTO_SIZE]))
      (by simp [MESSAGE_PHOTO_SIZE])
    rw [m.length_stream] at hexact
    exact ⟨hexact.2, by rw [hexact.1, hb, ← m.length_stream, List.take_length], trivial⟩
  obtain ⟨-, hbuff, -⟩ :=
    recvAndUnstreamPhoto_framed s.conn m [] [] (by rw [hb, List.append_nil]) hframed
  exact ⟨(recvAndUnstreamPhoto s.conn).conn, by simp [connection, hbuff, htype]⟩

theorem photoIdText_noNul (id : UInt32) : 0 ∉ photoIdText id := nul_notMem_decimal _

-- For an absent photo the peer sends what it sends for an empty one.
def Answers (p : Peer) (id : UInt32) (bytes : List Byte) : Prop :=
  p.stored id = some (some bytes) ∨ p.stored id = none ∧ bytes = []

theorem connection_answer {buff m : MessagePhoto} {s : Sock} (gateway : GatewayReply)
    (hanswer : Answers p id bytes) (hm : MessagePhoto.fill buff (photoIdText id) 6 = some m)
    (hout : s.out.Ready) (hb : s.conn.bytes = m.stream) :
    ∃ h, connection p s gateway = some h ∧
      h.sock.out.accepted = s.out.accepted ++ photoAnswer bytes := by
  obtain ⟨htext, htype⟩ := MessagePhoto.text_of_fill (photoIdText_noNul id) hm
  obtain ⟨conn, hconn⟩ := connection_getPhoto (p := p) gateway htype hb
  have hlong : ∀ n, longBytes n ≠ [] := fun n => List.ne_nil_of_length_pos (by simp)
  rw [hconn]
  simp only [sendPhotoClient, htext, sscanfId_text, Option.bind_eq_bind, Option.bind_some]
  rcases hanswer with hsome | ⟨hnone, rfl⟩
  · obtain ⟨photo, hsearch, hfile⟩ := Option.map_eq_some_iff.mp hsome
    obtain ⟨-, hacc, hready⟩ := sendAll_ready s.out _ (hlong bytes.length) hout
    simp only [hsearch, hfile, Option.bind_some]
    refine ⟨_, rfl, ?_⟩
    rw [sendBytes_accepted hready, hacc, List.append_assoc, photoAnswer]
  · have hsearch := Option.map_eq_none_iff.mp hnone
    rw [hsearch]
    refine ⟨_, rfl, ?_⟩
    rw [(sendAll_ready s.out _ (hlong 0) hout).2.1, photoAnswer, List.append_nil, List.length_nil]

-- The client's part. The size of the photo is what the first eight bytes say.
theorem recv_size {c : Conn} {n : Nat} {rest : List Byte} (hb : c.bytes = longBytes n ++ rest)
    (hsize : SizeWhole c) :
    recv c 8 = ⟨8, longBytes n, c.after 8⟩ ∧ (c.after 8).bytes = rest := by
  have hlen := length_longBytes n
  have hbytes : c.bytes.length = 8 + rest.length := by rw [hb, List.length_append, hlen]
  have hav : 8 ≤ c.available := by
    unfold Conn.available
    split
    · omega
    · rename_i d _ hc
      have := hsize d (by rw [hc]; rfl)
      omega
  have htaken : c.taken 8 = 8 := by
    unfold Conn.taken
    omega
  rw [recv_cons c 8 (List.ne_nil_of_length_pos (by omega)), htaken, hb, List.take_left' hlen]
  refine ⟨rfl, ?_⟩
  rw [Conn.after, hb, List.drop_left' hlen]

-- The call once the request is out and `size` is read.
def fetchPhoto (out : Out) (heap : Nat → Byte) (file_name : CString) (c : Conn) (size : Nat) :
    PhotoResult :=
  if size = 0 then ⟨0, none, ⟨out, c⟩⟩
  else
    let photo := recvAll c size
    if photo.ret ≤ 0 then ⟨-1, none, ⟨out, photo.conn⟩⟩
    else ⟨1, some (file_name, (overlay photo.stored (malloc heap size)).take size), ⟨out, photo.conn⟩⟩

variable {buff : MessagePhoto} {heap : Nat → Byte} {file_name : CString} {out : Out}

theorem galleryGetPhoto_sent {c : Sock} {writable : CString → Bool} {n : Nat} {rest : List Byte}
    (hsent : Sent c buff (photoIdText id) 6 out) (hw : writable file_name = true)
    (hb : c.conn.bytes = longBytes n ++ rest) (hsize : SizeWhole c.conn) :
    galleryGetPhoto c buff heap writable id file_name =
      some (fetchPhoto out heap file_name (c.conn.after 8) (n % 2 ^ 64)) := by
  unfold Sent at hsent
  obtain ⟨hrecv, -⟩ := recv_size hb hsize
  have hfull : overlay (longBytes n) (longBytes 0) = longBytes n :=
    overlay_of_length_le _ _ (by simp)
  have hread : leNat (longBytes n) = n % 2 ^ 64 := leNat_leBytes 8 n
  generalize n % 2 ^ 64 = size at hread ⊢
  by_cases hzero : size = 0
  · simp [galleryGetPhoto, fetchPhoto, hsent, hrecv, hfull, hread, hzero]
  · by_cases hret : (recvAll (c.conn.after 8) size).ret ≤ 0
    · simp [galleryGetPhoto, fetchPhoto, hsent, hrecv, hfull, hread, hzero, hret]
    · simp [galleryGetPhoto, fetchPhoto, hsent, hrecv, hfull, hread, hzero, hret, hw]

-- Every chunking gives the same file: the connection holds nothing after it.
theorem fetchPhoto_exact {c : Conn} (hb : c.bytes = bytes) (h0 : bytes ≠ [])
    (hlt : bytes.length < 2 ^ 31) :
    (fetchPhoto out heap file_name c bytes.length).ret = 1 ∧
      (fetchPhoto out heap file_name c bytes.length).written = some (file_name, bytes) := by
  have hpos := List.length_pos_iff.mpr h0
  obtain ⟨hstored, hret⟩ := recvAll_exact hb h0 hlt
  have hover : (overlay bytes (malloc heap bytes.length)).take bytes.length = bytes := by
    rw [overlay_of_length_le _ _ (by simp), List.take_length]
  have hnot : ¬ (bytes.length : Int) ≤ 0 := by omega
  rw [fetchPhoto, if_neg (by omega)]
  simp only [hret, if_neg hnot, hstored, hover, and_self]

-- A photo that counts as fetched has the size that was read.
theorem fetchPhoto_size {c : Conn} {size : Nat} {w : List Byte}
    (hret : (fetchPhoto out heap file_name c size).ret = 1)
    (hwritten : (fetchPhoto out heap file_name c size).written = some (file_name, w)) :
    size ≠ 0 ∧ w.length = size ∧ 0 < (recvAll c size).ret := by
  have h0 : (0 : Int32) ≠ 1 := by decide
  have hneg : (-1 : Int32) ≠ 1 := by decide
  rw [fetchPhoto] at hret hwritten
  split at hret
  · exact absurd hret h0
  · rename_i hzero
    rw [if_neg hzero] at hwritten
    by_cases hle : (recvAll c size).ret ≤ 0
    · simp only [if_pos hle] at hret
      exact absurd hret hneg
    · simp only [if_neg hle, Option.some.injEq, Prod.mk.injEq, true_and] at hwritten
      refine ⟨hzero, ?_, by omega⟩
      rw [← hwritten, List.length_take, overlay, List.length_append, List.length_drop, length_malloc]
      omega

theorem downloadsAs_of_fetch {ret : Int32} {written : Option (List Byte)}
    (hanswer : Answers p id bytes)
    (hfetch : ∀ out heap file_name c, c.bytes = bytes →
      (fetchPhoto out heap file_name c (bytes.length % 2 ^ 64)).ret = ret ∧
      (fetchPhoto out heap file_name c (bytes.length % 2 ^ 64)).written =
        written.map (fun bytes => (file_name, bytes))) :
    DownloadsAs p id ret written := by
  intro buff m hm s gateway hout hb
  obtain ⟨h, hconn, hacc⟩ := connection_answer gateway hanswer hm hout hb
  refine ⟨h, photoAnswer bytes, hconn, hacc, ?_⟩
  intro c heap writable file_name hw hc hcb hsize
  obtain ⟨out, hsent, hout⟩ := sent_of_fill hm hc
  obtain ⟨hret, hwritten⟩ := hfetch out heap file_name _ (recv_size hcb hsize).2
  refine ⟨_, galleryGetPhoto_sent hsent hw hcb hsize, ?_, hret, hwritten⟩
  rw [← hout]
  unfold fetchPhoto
  split_ifs
  · rfl
  · simp only
    split_ifs <;> rfl

theorem fetch_of_downloadsAs {ret : Int32} {written : Option (List Byte)}
    (hanswer : Answers p id bytes) (hdown : DownloadsAs p id ret written) (c : Conn)
    (hc : c.bytes = bytes) :
    ∃ out heap file_name, (fetchPhoto out heap file_name c (bytes.length % 2 ^ 64)).ret = ret ∧
      (fetchPhoto out heap file_name c (bytes.length % 2 ^ 64)).written =
        written.map (fun bytes => (file_name, bytes)) := by
  have hfits : (photoIdText id).length < MAX_SIZE := by
    have := length_decimal_le (show 0 < 10 by decide) (Nat.lt_trans id.toNat_lt (by decide))
    exact Nat.lt_of_le_of_lt this (by decide)
  obtain ⟨m, hm⟩ := MessagePhoto.exists_fill hfits blankMessage 6
  have hready : Out.Ready ⟨[], []⟩ := by simp [Out.Ready]
  -- The bytes of the answer come as they come on `c`, after the size.
  let client : Sock := ⟨⟨[], []⟩, ⟨photoAnswer bytes, 8 :: c.chunks, c.ending⟩⟩
  let s : Sock := ⟨⟨[], []⟩, ⟨m.stream, [], .closed⟩⟩
  obtain ⟨h, answer, hconn, hacc, hclient⟩ := hdown _ m hm s .notSent hready rfl
  obtain ⟨h', hconn', hacc'⟩ := connection_answer .notSent hanswer hm hready (s := s) rfl
  obtain rfl := Option.some.inj (hconn.symm.trans hconn')
  obtain rfl := List.append_cancel_left (hacc.symm.trans hacc')
  have hsize : SizeWhole client.conn := by
    simp [SizeWhole, client]
  obtain ⟨r, hget, -, hret, hwritten⟩ :=
    hclient client (fun _ => 0) (fun _ => true) [] rfl hready rfl hsize
  obtain ⟨out, hsent, -⟩ := sent_of_fill (c := client) hm hready
  rw [galleryGetPhoto_sent hsent rfl rfl hsize] at hget
  obtain rfl := Option.some.inj hget
  have hafter : client.conn.after 8 = c := by
    have hdrop : (photoAnswer bytes).drop 8 = c.bytes := by
      rw [photoAnswer, List.drop_left' (length_longBytes _), hc]
    simp [client, Conn.after, hdrop]
  rw [hafter] at hret hwritten
  exact ⟨out, _, _, hret, hwritten⟩

-- 0 for a photo that is not there, 1 and its bytes for one that is.
def Downloads (p : Peer) (id : UInt32) : Prop :=
  (p.stored id = none → DownloadsAs p id 0 none) ∧
    ∀ bytes, p.stored id = some (some bytes) → DownloadsAs p id 1 (some bytes)

-- A photo is told from an absent one by its size, and its bytes are counted in an `int`.
theorem Downloads.bounds (hdown : Downloads p id) (hbytes : p.stored id = some (some bytes)) :
    bytes ≠ [] ∧ bytes.length < 2 ^ 31 := by
  have hfetch := fetch_of_downloadsAs (.inl hbytes) (hdown.2 bytes hbytes)
  obtain ⟨out, heap, file_name, hret, hwritten⟩ := hfetch ⟨bytes, [], .closed⟩ rfl
  obtain ⟨hzero, hlen, hpos⟩ := fetchPhoto_size hret hwritten
  constructor
  · rintro rfl
    exact hzero rfl
  · by_contra hlarge
    rw [← hlen] at hpos
    have := recvAll_overflow (c := ⟨bytes, [], .closed⟩) rfl (Nat.le_of_not_lt hlarge)
    simp only at this
    omega

theorem downloads_iff (p : Peer) (id : UInt32) :
    Downloads p id ↔
      ∀ bytes, p.stored id = some (some bytes) → bytes ≠ [] ∧ bytes.length < 2 ^ 31 := by
  constructor
  · intro hdown bytes hbytes
    exact hdown.bounds hbytes
  · intro hall
    constructor
    · intro hnone
      refine downloadsAs_of_fetch (.inr ⟨hnone, rfl⟩) ?_
      intro out heap file_name c hc
      exact ⟨rfl, rfl⟩
    · intro bytes hbytes
      obtain ⟨h0, hlt⟩ := hall bytes hbytes
      have hmod : bytes.length % 2 ^ 64 = bytes.length := Nat.mod_eq_of_lt (by omega)
      refine downloadsAs_of_fetch (.inl hbytes) ?_
      rw [hmod]
      intro out heap file_name c hc
      exact fetchPhoto_exact hc h0 hlt

-- Photo 7 was stored on a full disk.
def emptyPhoto : Peer where
  photo_list := [setData [97] 7]
  files := fun name => if name = fileName 7 then some [] else none

theorem emptyPhoto_not_downloads : ¬ Downloads emptyPhoto 7 := by
  intro h
  have hstored : emptyPhoto.stored 7 = some (some []) := by decide
  exact (h.bounds hstored).1 rfl

end Download

end Gallery
