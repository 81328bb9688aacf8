import Gallery.Peer
import Gallery.Socket.Framing

namespace Gallery

open Bytes Text

section Scan

theorem sscanfNameSize_text (name rest : CString) (size : Nat) (hne : name ≠ []) (hcomma : 44 ∉ name)
    (hsize : size < 2 ^ 64) (hrest : Stops isDigit rest) :
    sscanfNameSize (name ++ 44 :: (decimal size ++ rest)) =
      ({ name := some name, size := size }, some rest) := by
  simp only [sscanfNameSize, scanUntil_append 44 name _ hne hcomma, scanLiteral_cons,
    Option.bind_some, scanULong_decimal size rest hsize hrest]

theorem length_photoHeaderText (photo : Data) (size : Nat) :
    (photoHeaderText photo size).length = photo.name.length + (decimal size).length +
      (decimal photo.id.toNat).length + (decimal photo.n_keywords).length + 3 := by
  simp only [photoHeaderText, List.length_append, List.length_cons]
  omega

theorem sscanfPhoto_header (photo : Data) (size : Nat) (hne : photo.name ≠ [])
    (hcomma : 44 ∉ photo.name) (hsize : size < 2 ^ 64) (hn : photo.n_keywords ≤ MAX_KEYWORDS) :
    sscanfPhoto (photoHeaderText photo size) =
      { name := some photo.name, size := size, id := photo.id,
        n_keywords := Int32.ofNat photo.n_keywords } := by
  have hkeywords := scanInt_decimal photo.n_keywords [] (by simp only [MAX_KEYWORDS] at hn; omega)
    (stops_nil isDigit)
  rw [List.append_nil] at hkeywords
  simp only [sscanfPhoto, photoHeaderText,
    sscanfNameSize_text photo.name _ size hne hcomma hsize (stops_cons isDigit 46 _ (by decide)),
    scanLiteral_cons, Option.bind_some,
    scanUInt_decimal photo.id _ (stops_cons isDigit 46 _ (by decide)), hkeywords]

theorem sscanfKeyword_text (id : UInt32) (keyword : CString) (hne : keyword ≠ [])
    (hspace : ∀ b ∈ keyword, isSpace b = false) :
    sscanfKeyword (addKeywordText id keyword) = some (id, keyword) := by
  have hword := scanWord_append keyword [] hne hspace (stops_nil _)
  rw [List.append_nil] at hword
  simp [sscanfKeyword, addKeywordText, scanUInt_decimal id _ (stops_cons isDigit 46 _ (by decide)),
    hword]

theorem sscanfId_text (id : UInt32) : sscanfId (photoIdText id) = some id := by
  have h := scanUInt_decimal id [] (stops_nil isDigit)
  rw [List.append_nil] at h
  simp [sscanfId, photoIdText, h]

theorem fileName_injective {id id' : UInt32} (h : fileName id = fileName id') : id = id' :=
  UInt32.toNat_inj.mp (decimal_injective h)

end Scan

section Search

variable (keyword : CString)

theorem searchLoop_eq (photos list : List Data) (n_photos : Nat) :
    searchLoop keyword photos list (Int32.ofNat n_photos) =
      (((photos.filter (fun q => searchKeyword q keyword)).reverse.map
          (fun q => setData [] q.id)) ++ list,
        Int32.ofNat (n_photos + (photos.filter (fun q => searchKeyword q keyword)).length)) := by
  induction photos generalizing list n_photos with
  | nil => simp [searchLoop]
  | cons photo rest ih =>
      by_cases h : searchKeyword photo keyword = true
      · rw [searchLoop, if_pos h, ofNat_succ, ih, List.filter_cons, if_pos h]
        simp only [listInsert, List.reverse_cons, List.map_append, List.map_cons, List.map_nil,
          List.append_assoc, List.singleton_append, List.length_cons, Prod.mk.injEq, true_and]
        rw [Nat.add_assoc, Nat.add_comm 1]
      · rw [searchLoop, if_neg h, ih, List.filter_cons, if_neg h]

theorem idArray_eq (list : List Data) : idArray list.length list = some (list.map Data.id) := by
  induction list with
  | nil => rfl
  | cons aux list ih => simp [idArray, listFirst, ih]

theorem searchKeyword_iff (photo : Data) : searchKeyword photo keyword = true ↔ keyword ∈ photo.keyword := by
  simp [searchKeyword]

end Search

theorem storePhoto_photo_list {p q : Peer} {s s' : Sock} {photo : Data} {size : Nat}
    (h : storePhoto p s photo size = some (q, s')) :
    q.photo_list = listInsert p.photo_list photo := by
  simp only [storePhoto] at h
  split at h
  · cases h
  · obtain ⟨rfl, -⟩ := Prod.mk.inj (Option.some.inj h)
    rfl

-- A photo whose bytes are the next ones of the stream is listed and its file
-- written.
theorem storePhoto_framed (p : Peer) (s : Sock) (photo : Data) (bytes more : List Byte)
    (ns : List Nat) (hb : s.conn.bytes = bytes ++ more) (hne : bytes ≠ [])
    (hframed : Framed s.conn (bytes.length :: ns)) :
    ∃ conn, storePhoto p s photo bytes.length =
        some (({ p with photo_list := photo :: p.photo_list } : Peer).writeFile
          (fileName photo.id) bytes, ⟨s.out, conn⟩) ∧
      conn.bytes = more ∧ Framed conn ns := by
  obtain ⟨hret, hstored, hrest, hns⟩ := recvAll_framed s.conn bytes more ns hb hne hframed
  have hpos := List.length_pos_iff.mpr hne
  refine ⟨(recvAll s.conn bytes.length).conn, ?_, hrest, hns⟩
  simp only [storePhoto, listInsert]
  rw [if_neg (by omega), hstored, List.take_length]

-- A client's photo whose header is read as it was written: the id goes back, the photo
-- is listed and its file written.
theorem addPhotoClient_framed (p : Peer) (s : Sock) (hs : s.out.Ready) {id : UInt32} (hid : id ≠ 0)
    {name bytes : List Byte} (hname : name ≠ []) (hcomma : 44 ∉ name) (hne : bytes ≠ [])
    (more : List Byte) (ns : List Nat) (hb : s.conn.bytes = bytes ++ more)
    (hframed : Framed s.conn (bytes.length :: ns)) :
    ∃ conn, addPhotoClient p s (.id id) (name ++ 44 :: decimal bytes.length) =
        some ((⟨({ p with photo_list := setData name id :: p.photo_list } : Peer).writeFile
            (fileName id) bytes, ⟨(sendAll s.out (uint32Bytes id)).2, conn⟩,
          [⟨[], 9, some (setData name id)⟩]⟩ : Handled), id.toInt32) ∧
      conn.bytes = more ∧ Framed conn ns := by
  have hsize : bytes.length < 2 ^ 64 := by
    have := framed_sizes_lt s.conn _ hframed bytes.length (by simp)
    omega
  have hheader := sscanfNameSize_text name [] bytes.length hname hcomma hsize (stops_nil _)
  rw [List.append_nil] at hheader
  obtain ⟨hsent, -, -⟩ :=
    sendAll_ready s.out (uint32Bytes id) (List.ne_nil_of_length_pos (by simp)) hs
  obtain ⟨conn, hstore, hrest, hns⟩ := storePhoto_framed p
    ⟨(sendAll s.out (uint32Bytes id)).2, s.conn⟩ (setData name id) bytes more ns hb hne hframed
  refine ⟨conn, ?_, hrest, hns⟩
  simp only [addPhotoClient, hheader, Option.bind_eq_bind, Option.bind_some, hsent, if_false, hid,
    hstore]
  rfl

section Handlers

variable {p : Peer} {s : Sock} {m : MessagePhoto} {h : Handled}

theorem addPhotoClient_photo_list {gateway : GatewayReply} {buffer : CString} {r : Int32}
    (hcall : addPhotoClient p s gateway buffer = some (h, r)) :
    h.peer.photo_list = p.photo_list ∨ ∃ photo, h.peer.photo_list = photo :: p.photo_list := by
  obtain ⟨name, -, hcall⟩ := Option.bind_eq_some_iff.mp hcall
  cases gateway with
  | notSent =>
      obtain ⟨rfl, -⟩ := Prod.mk.inj (Option.some.inj hcall)
      exact Or.inl rfl
  | _ =>
      simp only at hcall
      split at hcall
      · obtain ⟨rfl, -⟩ := Prod.mk.inj (Option.some.inj hcall)
        exact Or.inl rfl
      · split at hcall
        · obtain ⟨rfl, -⟩ := Prod.mk.inj (Option.some.inj hcall)
          exact Or.inl rfl
        · obtain ⟨⟨q, s'⟩, hstore, hcall⟩ := Option.bind_eq_some_iff.mp hcall
          obtain ⟨rfl, -⟩ := Prod.mk.inj (Option.some.inj hcall)
          exact Or.inr ⟨_, storePhoto_photo_list hstore⟩

theorem addPhotoPeer_photo_list {buffer : CString} {r : Int32}
    (hcall : addPhotoPeer p s buffer = some (h, r)) :
    ∃ photo, h.peer.photo_list = photo :: p.photo_list := by
  obtain ⟨name, -, hcall⟩ := Option.bind_eq_some_iff.mp hcall
  have hstored : ∀ photo s', ((storePhoto p s' photo (sscanfPhoto buffer).size).bind fun stored =>
      some ((⟨stored.1, stored.2, []⟩ : Handled), (sscanfPhoto buffer).id.toInt32)) = some (h, r) →
      h.peer.photo_list = photo :: p.photo_list := by
    intro photo s' hcall
    obtain ⟨⟨q, s2⟩, hstore, hcall⟩ := Option.bind_eq_some_iff.mp hcall
    obtain ⟨rfl, -⟩ := Prod.mk.inj (Option.some.inj hcall)
    exact storePhoto_photo_list hstore
  simp only at hcall
  split at hcall
  · obtain ⟨⟨photo, s1⟩, -, hcall⟩ := Option.bind_eq_some_iff.mp hcall
    exact ⟨photo, hstored photo s1 hcall⟩
  · exact ⟨_, hstored _ s hcall⟩

theorem addKeyword_some (hcall : addKeyword p s m = some h) :
    ∃ id keyword, sscanfKeyword m.text = some (id, keyword) ∧
      h.peer = (insertKeyword p id keyword).2 ∧
      (m.type ≠ 10 → h.sock = ⟨(sendAll s.out (intBytes (insertKeyword p id keyword).1)).2, s.conn⟩) := by
  obtain ⟨⟨id, keyword⟩, hscan, hcall⟩ := Option.bind_eq_some_iff.mp hcall
  refine ⟨id, keyword, hscan, ?_⟩
  simp only at hcall
  split at hcall
  · obtain rfl := Option.some.inj hcall
    exact ⟨rfl, fun hne => absurd ‹m.type = 10› hne⟩
  · obtain rfl := Option.some.inj hcall
    exact ⟨rfl, fun _ => rfl⟩

theorem searchPhoto_peer (hcall : searchPhoto p s m = some h) : h.peer = p := by
  simp only [searchPhoto] at hcall
  split at hcall
  · obtain rfl := Option.some.inj hcall
    rfl
  · obtain ⟨ids, -, hcall⟩ := Option.bind_eq_some_iff.mp hcall
    obtain rfl := Option.some.inj hcall
    rfl

-- The ids of the photos that carry a keyword, in the order in which they are sent.
def hitIds (p : Peer) (keyword : CString) : List UInt32 :=
  (p.photo_list.filter (fun q => searchKeyword q keyword)).reverse.map Data.id

theorem length_hitIds (p : Peer) (keyword : CString) :
    (hitIds p keyword).length = (p.photo_list.filter (fun q => searchKeyword q keyword)).length := by
  simp [hitIds]

-- As many hits as an `int` counts are answered with their number and their ids.
theorem searchPhoto_reply (hs : s.out.Ready) (hlt : (hitIds p m.text).length < 2 ^ 31) :
    ∃ out, searchPhoto p s m = some ⟨p, ⟨out, s.conn⟩, []⟩ ∧ out.Ready ∧
      out.accepted = s.out.accepted ++ (intBytes (Int32.ofNat (hitIds p m.text).length) ++
        (hitIds p m.text).flatMap uint32Bytes) := by
  have hloop := searchLoop_eq m.text p.photo_list [] 0
  have hzero : Int32.ofNat 0 = 0 := rfl
  rw [length_hitIds] at hlt
  rw [hzero] at hloop
  simp only [searchPhoto, hitIds, hloop, List.append_nil, Nat.zero_add, List.length_map,
    List.length_reverse]
  generalize p.photo_list.filter (fun q => searchKeyword q m.text) = hits at hlt ⊢
  obtain ⟨hsent, hacc, hready⟩ := sendAll_ready s.out (intBytes (Int32.ofNat hits.length))
    (List.ne_nil_of_length_pos (by simp)) hs
  have hsign : Int32.ofNat hits.length ≤ 0 ↔ hits.length = 0 := by
    have hzero' : (0 : Int32).toInt = 0 := rfl
    rw [Int32.le_iff_toInt_le, Int32.toInt_ofNat_of_lt hlt, hzero']
    omega
  by_cases hnone : hits = []
  · subst hnone
    exact ⟨_, by simp, hready, by simpa using hacc⟩
  · have hlen : hits.length ≠ 0 := fun h => hnone (List.eq_nil_of_length_eq_zero h)
    have harray := idArray_eq (hits.reverse.map (fun q => setData [] q.id))
    have hids : (hits.reverse.map (fun q => setData [] q.id)).map Data.id = hits.reverse.map Data.id := by
      rw [List.map_map]
      rfl
    rw [List.length_map, List.length_reverse, hids] at harray
    have hne : (hits.reverse.map Data.id).flatMap uint32Bytes ≠ [] := by
      rw [← List.length_pos_iff, List.length_flatMap]
      cases hits with
      | nil => exact absurd rfl hnone
      | cons q rest => simp
    obtain ⟨-, hacc', hready'⟩ := sendAll_ready _ _ hne hready
    refine ⟨_, ?_, hready', by rw [hacc', hacc, List.append_assoc]⟩
    rw [if_neg (by simp [hsent, hsign, hlen]), toNatClampNeg_ofNat _ hlt, harray]
    rfl

-- From there on the number is negative, and no id follows.
theorem searchPhoto_overflow (hs : s.out.Ready) (hlen : (hitIds p m.text).length = 2 ^ 31) :
    ∃ out, searchPhoto p s m = some ⟨p, ⟨out, s.conn⟩, []⟩ ∧
      out.accepted = s.out.accepted ++ intBytes (Int32.ofNat (2 ^ 31)) := by
  have hloop := searchLoop_eq m.text p.photo_list [] 0
  have hzero : Int32.ofNat 0 = 0 := rfl
  rw [length_hitIds] at hlen
  rw [hzero, Nat.zero_add, hlen] at hloop
  obtain ⟨-, hacc, -⟩ := sendAll_ready s.out (intBytes (Int32.ofNat (2 ^ 31)))
    (List.ne_nil_of_length_pos (by simp)) hs
  refine ⟨_, ?_, hacc⟩
  simp only [searchPhoto, hloop]
  rw [if_pos (Or.inr (by decide))]

theorem deletePhoto_photo_list (hcall : deletePhoto p s m = some h) :
    ∃ id, sscanfId m.text = some id ∧
      h.peer.photo_list = (listRemove p.photo_list (setData [] id)).2 := by
  obtain ⟨id, hscan, hcall⟩ := Option.bind_eq_some_iff.mp hcall
  refine ⟨id, hscan, ?_⟩
  simp only at hcall
  split at hcall
  all_goals
    obtain rfl := Option.some.inj hcall
    split <;> rfl

theorem sendPhotoName_peer (hcall : sendPhotoName p s m = some h) : h.peer = p := by
  obtain ⟨id, -, hcall⟩ := Option.bind_eq_some_iff.mp hcall
  split at hcall
  all_goals
    obtain rfl := Option.some.inj hcall
    rfl

theorem sendPhotoClient_peer (hcall : sendPhotoClient p s m = some h) : h.peer = p := by
  obtain ⟨id, -, hcall⟩ := Option.bind_eq_some_iff.mp hcall
  split at hcall
  · obtain rfl := Option.some.inj hcall
    rfl
  · obtain ⟨bytes, -, hcall⟩ := Option.bind_eq_some_iff.mp hcall
    obtain rfl := Option.some.inj hcall
    rfl

-- All one request can do to the list of photos.
theorem connection_cases {gateway : GatewayReply} (hcall : connection p s gateway = some h) :
    ∃ m, (recvAndUnstreamPhoto s.conn).buff = some m ∧
      (h.peer.photo_list = p.photo_list ∨
        (∃ photo, h.peer.photo_list = photo :: p.photo_list) ∨
        (∃ id keyword, h.peer = (insertKeyword p id keyword).2) ∨
        ∃ id, (m.type.toInt = 4 ∨ m.type.toInt = 11) ∧ sscanfId m.text = some id ∧
          h.peer.photo_list = (listRemove p.photo_list (setData [] id)).2) := by
  obtain ⟨m, hm, hcall⟩ := Option.bind_eq_some_iff.mp hcall
  refine ⟨m, hm, ?_⟩
  simp only at hcall
  split at hcall
  case h_1 =>
    obtain ⟨⟨h', r⟩, hadd, rfl⟩ := Option.map_eq_some_iff.mp hcall
    exact (addPhotoClient_photo_list hadd).imp_right Or.inl
  case h_2 =>
    obtain ⟨id, keyword, -, hpeer, -⟩ := addKeyword_some hcall
    exact Or.inr (Or.inr (Or.inl ⟨id, keyword, hpeer⟩))
  case h_3 => exact Or.inl (congrArg Peer.photo_list (searchPhoto_peer hcall))
  case h_4 htype =>
    obtain ⟨id, hscan, hlist⟩ := deletePhoto_photo_list hcall
    exact Or.inr (Or.inr (Or.inr ⟨id, Or.inl htype, hscan, hlist⟩))
  case h_5 => exact Or.inl (congrArg Peer.photo_list (sendPhotoName_peer hcall))
  case h_6 => exact Or.inl (congrArg Peer.photo_list (sendPhotoClient_peer hcall))
  case h_7 =>
    obtain ⟨⟨h', r⟩, hadd, rfl⟩ := Option.map_eq_some_iff.mp hcall
    exact Or.inr (Or.inl (addPhotoPeer_photo_list hadd))
  case h_8 =>
    obtain ⟨id, keyword, -, hpeer, -⟩ := addKeyword_some hcall
    exact Or.inr (Or.inr (Or.inl ⟨id, keyword, hpeer⟩))
  case h_9 htype =>
    obtain ⟨id, hscan, hlist⟩ := deletePhoto_photo_list hcall
    exact Or.inr (Or.inr (Or.inr ⟨id, Or.inr htype, hscan, hlist⟩))
  case h_10 => cases hcall

end Handlers

end Gallery
