import Gallery.Peer.Theorems
import Mathlib.Data.List.TakeWhile

namespace Gallery

open Bytes Text

-- `sizeof` of the local `temp`, which holds a comma and the size.
def TEMP_SIZE : Nat := 20

-- `strcat(file, temp)`
def addPhotoText (file : CString) (file_size : Nat) : CString := file ++ 44 :: decimal file_size

-- `files` are the files the client can open; `none` is a text that does not fit its buffer.
def galleryAddPhoto (s : Sock) (buff : MessagePhoto) (files : CString → Option (List Byte))
    (file : CString) : Option (UInt32 × Sock) :=
  match files file with
  | none => some (0, s)
  | some photo =>
      if (44 :: decimal photo.length).length < TEMP_SIZE then do
        let (sent, out) ← streamAndSendPhoto s.out buff (addPhotoText file photo.length) 1
        if sent = -1 then some (0, ⟨out, s.conn⟩)
        else
          let got := recvAll s.conn 4
          if got.ret = -1 then some (0, ⟨out, got.conn⟩)
          else
            let photo_id := uint32OfBytes ((overlay got.stored (uint32Bytes 0)).take 4)
            if 0 < photo_id then
              let (sent, out) := sendAll out photo
              if sent = -1 then some (0, ⟨out, got.conn⟩) else some (photo_id, ⟨out, got.conn⟩)
            else some (0, ⟨out, got.conn⟩)
      else none

section Upload

variable {name bytes : List Byte}

-- An upload is in step when the peer reads off the header what the client wrote into it
-- and both ends are done with all the bytes the other one sent, and no more.
def UploadInStep (name bytes : List Byte) : Prop :=
  ∀ (buff m : MessagePhoto) (id : UInt32), id ≠ 0 →
    MessagePhoto.fill buff (addPhotoText name bytes.length) 1 = some m →
    sscanfNameSize m.text = ({ name := some name, size := bytes.length }, some []) ∧
    (∀ (files : CString → Option (List Byte)) (c : Sock) (more : List Byte), files name = some bytes →
      c.out.Ready → c.conn.Whole → c.conn.bytes = uint32Bytes id ++ more →
      ∃ c', galleryAddPhoto c buff files name = some (id, c') ∧
        c'.out.accepted = c.out.accepted ++ (m.stream ++ bytes) ∧ c'.conn.bytes = more) ∧
    ∀ (p : Peer) (s : Sock) (more : List Byte), s.out.Ready → s.conn.Whole →
      s.conn.bytes = m.stream ++ (bytes ++ more) →
      ∃ h, connection p s (.id id) = some h ∧
        h.peer.photo_list = setData name id :: p.photo_list ∧
        h.peer.files (fileName id) = some bytes ∧ h.sock.conn.bytes = more

theorem scanUntil_stop {stop : Byte} {s field rest : List Byte}
    (h : scanUntil stop s = some (field, rest)) : stop ∉ field := by
  simp only [scanUntil] at h
  split at h
  · cases h
  · obtain ⟨rfl, -⟩ := Prod.mk.inj (Option.some.inj h)
    intro hmem
    simpa using List.mem_takeWhile_imp hmem

-- A name read off a header has no comma.
theorem sscanfNameSize_comma {s : CString} {h : PhotoHeader} {rest : Option (List Byte)}
    (hs : sscanfNameSize s = (h, rest)) (hname : h.name = some name) : 44 ∉ name := by
  simp only [sscanfNameSize] at hs
  split at hs
  · obtain ⟨rfl, -⟩ := Prod.mk.inj hs
    cases hname
  · rename_i field s' hfield
    have hstop := scanUntil_stop hfield
    split at hs
    all_goals
      obtain ⟨rfl, -⟩ := Prod.mk.inj hs
      exact Option.some.inj hname ▸ hstop

theorem addPhotoText_noNul (hnul : 0 ∉ name) (size : Nat) : 0 ∉ addPhotoText name size := by
  simp [addPhotoText, hnul, nul_notMem_decimal]

-- The client's part: the header, the id, the bytes.
theorem galleryAddPhoto_whole {buff m : MessagePhoto} {id : UInt32}
    {files : CString → Option (List Byte)} {c : Sock} {more : List Byte}
    (hm : MessagePhoto.fill buff (addPhotoText name bytes.length) 1 = some m) (hid : id ≠ 0)
    (hfile : files name = some bytes) (hout : c.out.Ready) (hc : c.conn.Whole)
    (hb : c.conn.bytes = uint32Bytes id ++ more) (htemp : (44 :: decimal bytes.length).length < TEMP_SIZE)
    (hne : bytes ≠ []) :
    ∃ c', galleryAddPhoto c buff files name = some (id, c') ∧
      c'.out.accepted = c.out.accepted ++ (m.stream ++ bytes) ∧ c'.conn.bytes = more := by
  obtain ⟨hsent, hacc, hready⟩ :=
    sendAll_ready c.out m.stream (List.ne_nil_of_length_pos (by simp [MESSAGE_PHOTO_SIZE])) hout
  obtain ⟨hsent', hacc', -⟩ := sendAll_ready (sendAll c.out m.stream).2 bytes hne hready
  have hframed : Framed c.conn [(uint32Bytes id).length] := by
    apply framed_of_whole hc
    · simp
    · simp [hb]
  obtain ⟨hret, hstored, hrest, -⟩ :=
    recvAll_framed c.conn (uint32Bytes id) more [] hb (List.ne_nil_of_length_pos (by simp)) hframed
  rw [length_uint32Bytes] at hret hstored hrest
  have hread : uint32OfBytes ((overlay (uint32Bytes id) (uint32Bytes 0)).take 4) = id := by
    rw [overlay_of_length_le _ _ (by simp), List.take_of_length_le (by simp),
      uint32OfBytes_uint32Bytes]
  have hpos : 0 < id := UInt32.pos_iff_ne_zero.mpr hid
  refine ⟨⟨(sendAll (sendAll c.out m.stream).2 bytes).2, (recvAll c.conn 4).conn⟩, ?_, ?_, hrest⟩
  · simp only [galleryAddPhoto, hfile, if_pos htemp, streamAndSendPhoto, hm, Option.bind_eq_bind,
      Option.bind_some, if_neg hsent, hstored, hread, if_pos hpos, if_neg hsent']
    rw [if_neg (by decide), if_neg (by rw [hret]; decide)]
  · rw [hacc', hacc, List.append_assoc]

-- The peer's part up to the bytes of the photo.
theorem connection_upload {m : MessagePhoto} (p : Peer) (s : Sock) (id : UInt32) {more : List Byte}
    (htype : m.type = 1) (hs : s.conn.Whole) (hb : s.conn.bytes = m.stream ++ more) :
    ∃ conn, conn.Whole ∧ conn.bytes = more ∧
      connection p s (.id id) = (addPhotoClient p ⟨s.out, conn⟩ (.id id) m.text).map Prod.fst := by
  obtain ⟨hbuff, hwhole, hrest⟩ := recvAndUnstreamPhoto_whole hs hb
  refine ⟨(recvAndUnstreamPhoto s.conn).conn, hwhole, hrest, ?_⟩
  simp [connection, hbuff, htype]

section Needed

variable (hfits : (addPhotoText name bytes.length).length < MAX_SIZE)

include hfits

theorem inStep_comma (h : UploadInStep name bytes) : 44 ∉ name := by
  obtain ⟨m, hm⟩ := MessagePhoto.exists_fill hfits blankMessage 1
  exact sscanfNameSize_comma (h blankMessage m 1 (by decide) hm).1 rfl

-- The photo's bytes may be all there is, and still `recv_all` has to succeed.
theorem inStep_recvAll (hnul : 0 ∉ name) (h : UploadInStep name bytes) :
    ∃ conn : Conn, conn.Whole ∧ conn.bytes = bytes ∧ 0 < (recvAll conn bytes.length).ret := by
  obtain ⟨m, hm⟩ := MessagePhoto.exists_fill hfits blankMessage 1
  obtain ⟨-, htype⟩ := MessagePhoto.text_of_fill (addPhotoText_noNul hnul _) hm
  obtain ⟨hparse, -, hpeer⟩ := h blankMessage m 1 (by decide) hm
  obtain ⟨h', hdone, -⟩ := hpeer ⟨[], fun _ => none⟩ ⟨⟨[], []⟩, ⟨m.stream ++ (bytes ++ []), [], .closed⟩⟩
    [] (by simp [Out.Ready]) rfl rfl
  obtain ⟨conn, hwhole, hbytes, hconn⟩ := connection_upload ⟨[], fun _ => none⟩
    ⟨⟨[], []⟩, ⟨m.stream ++ (bytes ++ []), [], .closed⟩⟩ 1 htype rfl rfl
  rw [List.append_nil] at hbytes
  refine ⟨conn, hwhole, hbytes, ?_⟩
  by_contra hfail
  have hstore : ∀ (p : Peer) (out : Out) (photo : Data),
      storePhoto p ⟨out, conn⟩ photo bytes.length = none := by
    intro p out photo
    simp only [storePhoto]
    exact if_pos (Int.not_lt.mp hfail)
  have hsent := sendAll_ready ⟨[], []⟩ (uint32Bytes 1) (List.ne_nil_of_length_pos (by simp))
    (by simp [Out.Ready])
  have hnone : addPhotoClient ⟨[], fun _ => none⟩ ⟨⟨[], []⟩, conn⟩ (.id 1) m.text = none := by
    simp [addPhotoClient, hparse, hsent.1, hstore]
  rw [hconn, hnone] at hdone
  cases hdone

end Needed

-- An upload is in step just when the name has no comma and the photo has some bytes, but
-- fewer than an `int` can count.
theorem uploadInStep_iff (hname : name ≠ []) (hnul : 0 ∉ name)
    (hfits : (addPhotoText name bytes.length).length < MAX_SIZE) :
    UploadInStep name bytes ↔ 44 ∉ name ∧ bytes ≠ [] ∧ bytes.length < 2 ^ 31 := by
  constructor
  · intro h
    obtain ⟨conn, hwhole, hbytes, hread⟩ := inStep_recvAll hfits hnul h
    refine ⟨inStep_comma hfits h, ?_, ?_⟩
    · rintro rfl
      simp [recvAll, recvAllLoop, toSizeT, RecvLoop.ret] at hread
    · by_contra hlarge
      have hover := recvAll_overflow hwhole (by rw [hbytes]; omega)
      rw [hbytes] at hover
      omega
  · rintro ⟨hcomma, hne, hlt⟩ buff m id hid hm
    obtain ⟨htext, htype⟩ := MessagePhoto.text_of_fill (addPhotoText_noNul hnul _) hm
    have hdigits : (decimal bytes.length).length ≤ 10 := length_decimal_le (by decide) (by omega)
    have hpos := List.length_pos_iff.mpr hne
    refine ⟨?_, ?_, ?_⟩
    · have hheader := sscanfNameSize_text name [] bytes.length hname hcomma (by omega) (stops_nil _)
      rwa [List.append_nil, ← addPhotoText, ← htext] at hheader
    · intro files c more hfile hout hc hb
      exact galleryAddPhoto_whole hm hid hfile hout hc hb
        (by simp only [List.length_cons, TEMP_SIZE]; omega) hne
    · intro p s more hs hwhole hb
      obtain ⟨conn, hwhole', hrest, hconn⟩ := connection_upload p s id htype hwhole hb
      have hframed : Framed conn [bytes.length] := by
        apply framed_of_whole hwhole'
        · simpa using ⟨hpos, hlt⟩
        · simp [hrest]
      obtain ⟨conn', hstored, hmore, -⟩ := addPhotoClient_framed p ⟨s.out, conn⟩ hs hid hname hcomma
        hne more [] hrest hframed
      rw [← addPhotoText, ← htext] at hstored
      exact ⟨_, by rw [hconn, hstored]; rfl, rfl, by simp, hmore⟩

theorem uploadInStep_iff_twoBytes : UploadInStep [97] [1, 2] :=
  (uploadInStep_iff (by decide) (by decide) (by decide)).mpr ⟨by decide, by decide, by decide⟩

-- "a,b"
theorem comma_not_inStep : ¬ UploadInStep [97, 44, 98] [1, 2] := by
  intro h
  obtain ⟨m, hm⟩ : ∃ m, MessagePhoto.fill blankMessage (addPhotoText [97, 44, 98] 2) 1 = some m :=
    ⟨_, rfl⟩
  have htext := (MessagePhoto.text_of_fill (by decide) hm).1
  have hparse := (h blankMessage m 7 (by decide) hm).1
  rw [htext] at hparse
  exact absurd hparse (by decide)

end Upload

section Headers

variable {name : CString} {size : Nat}

end Headers

end Gallery
