import Gallery.Peer.Theorems

namespace Gallery

open Bytes Text

-- The bytes of a photo in the sender's directory.
def Peer.photoBytes (p : Peer) (q : Data) : List Byte := (p.files (fileName q.id)).getD []

-- What the peers have to know of a photo to pass it on.
structure Transferable (p : Peer) (q : Data) : Prop where
  name : q.name ≠ [] ∧ 44 ∉ q.name ∧ 0 ∉ q.name
  file : ∃ bytes, p.files (fileName q.id) = some bytes ∧ bytes ≠ []
  count : q.n_keywords ≤ MAX_KEYWORDS
  keyword : ∀ k ∈ q.keyword, k ≠ [] ∧ 32 ∉ k ∧ 0 ∉ k ∧ k.length ≤ 97
  fits : (photoHeaderText q (p.photoBytes q).length).length < MAX_SIZE

section Keywords

-- The concatenated keywords, each followed by a space.
def keywordText (q : Data) : CString := q.keyword.flatMap (fun k => k ++ [32])

-- The block that follows the header: nothing without keywords.
def keywordBytes (q : Data) : List Byte :=
  if 0 < q.n_keywords then (keywordBlock q).getD [] else []

variable (p : Peer) (q : Data)

theorem length_flatMap_le (ks : List CString) (h : ∀ k ∈ ks, k.length ≤ 97) :
    (ks.flatMap (fun k => k ++ [32])).length ≤ ks.length * 98 := by
  induction ks with
  | nil => simp
  | cons k ks ih =>
      have hk := h k (by simp)
      have hks := ih (fun k hk => h k (by simp [hk]))
      simp only [List.flatMap_cons, List.length_append, List.length_cons, List.length_nil]
      omega

-- The text and its terminator lie inside the block.
theorem length_keywordText_lt (h : ∀ k ∈ q.keyword, k.length ≤ 97) (hpos : 0 < q.n_keywords) :
    (keywordText q).length + 1 ≤ q.n_keywords * SIZE := by
  have hle := length_flatMap_le q.keyword h
  have hcount : q.keyword.length = q.n_keywords := rfl
  simp only [keywordText, SIZE]
  omega

theorem keywordBlock_eq (h : ∀ k ∈ q.keyword, k.length ≤ 97) (hpos : 0 < q.n_keywords) :
    keywordBlock q = some (keywordText q ++
      List.replicate (q.n_keywords * SIZE - (keywordText q).length) 0) := by
  have hlt := length_keywordText_lt q h hpos
  simp only [keywordText] at hlt ⊢
  simp only [keywordBlock]
  rw [if_pos (by omega)]

theorem strsep_flatMap (ks : List CString) (h : ∀ k ∈ ks, 32 ∉ k) :
    strsep (ks.flatMap (fun k => k ++ [32])) = ks ++ [[]] := by
  induction ks with
  | nil => rfl
  | cons k ks ih =>
      have hk : ∀ b ∈ k, (b == (32 : Byte)) = false := by
        intro b hb
        have hne : b ≠ 32 := fun he => h k (by simp) (he ▸ hb)
        simpa using hne
      rw [List.flatMap_cons, List.append_assoc, List.singleton_append, strsep,
        List.splitOnP_append_cons_of_forall_mem hk 32 (by decide), List.cons_append]
      exact congrArg (k :: ·) (ih (fun k hk => h k (by simp [hk])))

theorem storeKeywords_append (ks : List CString) (hks : ∀ k ∈ ks, k ≠ [] ∧ k.length < SIZE)
    (q : Data) (hcount : q.n_keywords + ks.length ≤ MAX_KEYWORDS) :
    storeKeywords q (ks ++ [[]]) = some { q with keyword := q.keyword ++ ks } := by
  induction ks generalizing q with
  | nil => simp [storeKeywords, storeKeyword]
  | cons k ks ih =>
      obtain ⟨hne, hlen⟩ := hks k (by simp)
      rw [List.length_cons] at hcount
      have hstore : storeKeyword q k = some { q with keyword := q.keyword ++ [k] } := by
        rw [storeKeyword, if_neg hne, if_pos ⟨by omega, hlen⟩]
      have hcount' : ({ q with keyword := q.keyword ++ [k] } : Data).n_keywords = q.n_keywords + 1 := by
        simp [Data.n_keywords]
      rw [List.cons_append, storeKeywords, hstore, Option.bind_eq_bind, Option.bind_some,
        ih (fun k hk => hks k (by simp [hk])) _ (by omega)]
      simp

-- The block is cut back into the keywords it was made of.
theorem recvKeywords_framed (hq : Transferable p q) (hpos : 0 < q.n_keywords) (s : Sock)
    (more : List Byte) (ns : List Nat) (hb : s.conn.bytes = keywordBytes q ++ more)
    (hframed : Framed s.conn (q.n_keywords * SIZE :: ns)) :
    ∃ conn, recvKeywords s (setData q.name q.id) (Int32.ofNat q.n_keywords) = some (q, ⟨s.out, conn⟩) ∧
      conn.bytes = more ∧ Framed conn ns := by
  have hle : ∀ k ∈ q.keyword, k.length ≤ 97 := fun k hk => (hq.keyword k hk).2.2.2
  have hcount := hq.count
  have hlt := length_keywordText_lt q hle hpos
  have hblock : keywordBytes q = keywordText q ++
      List.replicate (q.n_keywords * SIZE - (keywordText q).length) 0 := by
    rw [keywordBytes, if_pos hpos, keywordBlock_eq q hle hpos, Option.getD_some]
  have hlen : (keywordBytes q).length = q.n_keywords * SIZE := by
    rw [hblock, List.length_append, List.length_replicate]
    omega
  have hne : keywordBytes q ≠ [] := List.ne_nil_of_length_pos (by omega)
  have hsize : toSizeT (Int32.ofNat q.n_keywords).toInt * SIZE = (keywordBytes q).length := by
    simp only [MAX_KEYWORDS] at hcount
    rw [Int32.toInt_ofNat_of_lt (by omega), toSizeT_of_lt _ (by omega) (by omega), Int.toNat_natCast,
      hlen]
  obtain ⟨hret, hstored, hrest, hns⟩ :=
    recvAll_framed s.conn (keywordBytes q) more ns hb hne (hlen ▸ hframed)
  have htext : cString (overlay (keywordBytes q) (List.replicate (MAX_KEYWORDS * SIZE) 0)) =
      keywordText q := by
    have hzeros : ∃ rest, overlay (keywordBytes q) (List.replicate (MAX_KEYWORDS * SIZE) 0) =
        keywordText q ++ 0 :: rest := by
      obtain ⟨n, hn⟩ : ∃ n, q.n_keywords * SIZE - (keywordText q).length = n + 1 :=
        ⟨_, (Nat.sub_add_cancel (by omega)).symm⟩
      rw [overlay, hblock, hn, List.replicate_succ, List.append_assoc, List.cons_append]
      exact ⟨_, rfl⟩
    obtain ⟨rest, hrest⟩ := hzeros
    rw [hrest]
    apply cString_append_nul
    simp only [keywordText, List.mem_flatMap, not_exists, not_and]
    intro k hk
    simp [(hq.keyword k hk).2.2.1]
  have hstore : storeKeywords (setData q.name q.id) (strsep (keywordText q)) = some q := by
    rw [keywordText, strsep_flatMap q.keyword (fun k hk => (hq.keyword k hk).2.1),
      storeKeywords_append q.keyword _ _ (by simpa [setData, Data.n_keywords] using hcount)]
    · simp [setData]
    · intro k hk
      have := hq.keyword k hk
      exact ⟨this.1, by simp only [SIZE]; omega⟩
  refine ⟨(recvAll s.conn (keywordBytes q).length).conn, ?_, hrest, hns⟩
  simp only [recvKeywords, hsize]
  rw [if_neg (by omega), hstored, if_neg (by rw [hlen]; exact Nat.not_lt.mpr (Nat.mul_le_mul_right _ hcount)),
    htext, hstore]
  rfl

end Keywords

section Photo

-- What `send_photo` writes for one photo and the reads that take it.
def photoStream (p : Peer) (buff : MessagePhoto) (q : Data) : List Byte :=
  ((MessagePhoto.fill buff (photoHeaderText q (p.photoBytes q).length) 1).map
    MessagePhoto.stream).getD [] ++ (keywordBytes q ++ p.photoBytes q)

def photoReads (p : Peer) (q : Data) : List Nat :=
  MESSAGE_PHOTO_SIZE ::
    ((if 0 < q.n_keywords then [q.n_keywords * SIZE] else []) ++ [(p.photoBytes q).length])

variable (p : Peer) (buff : MessagePhoto) (q : Data) (hq : Transferable p q)

include hq

theorem Transferable.photoBytes : p.files (fileName q.id) = some (p.photoBytes q) ∧ p.photoBytes q ≠ [] := by
  obtain ⟨bytes, hfile, hne⟩ := hq.file
  have hbytes : p.photoBytes q = bytes := by rw [Peer.photoBytes, hfile, Option.getD_some]
  exact ⟨hbytes ▸ hfile, hbytes ▸ hne⟩

theorem Transferable.header : ∃ m, MessagePhoto.fill buff
    (photoHeaderText q (p.photoBytes q).length) 1 = some m ∧
      m.text = photoHeaderText q (p.photoBytes q).length ∧
      photoStream p buff q = m.stream ++ (keywordBytes q ++ p.photoBytes q) := by
  have hnul : 0 ∉ photoHeaderText q (p.photoBytes q).length := by
    simp [photoHeaderText, hq.name.2.2, nul_notMem_decimal]
  obtain ⟨m, hm⟩ := MessagePhoto.exists_fill hq.fits buff 1
  exact ⟨m, hm, (MessagePhoto.text_of_fill hnul hm).1, by rw [photoStream, hm]; rfl⟩

theorem sendPhotoPeer_accepted (out : Out) (hready : out.Ready) :
    ∃ out', sendPhotoPeer p out buff q = some out' ∧
      out'.accepted = out.accepted ++ photoStream p buff q ∧ out'.Ready := by
  obtain ⟨hfile, hbytes⟩ := hq.photoBytes
  obtain ⟨m, hm, -, hstream⟩ := hq.header p buff
  have hle : ∀ k ∈ q.keyword, k.length ≤ 97 := fun k hk => (hq.keyword k hk).2.2.2
  have hmsg : m.stream ≠ [] := List.ne_nil_of_length_pos (by simp [MESSAGE_PHOTO_SIZE])
  obtain ⟨hsent, hacc, hready⟩ := sendAll_ready out m.stream hmsg hready
  have hheader : streamAndSendPhoto out buff (photoHeaderText q (p.photoBytes q).length) 1 =
      some (0, (sendAll out m.stream).2) := by
    simp [streamAndSendPhoto, hm, hsent]
  have hbytes0 : (p.photoBytes q).length ≠ 0 := fun h => hbytes (List.eq_nil_of_length_eq_zero h)
  simp only [sendPhotoPeer, hfile, Option.bind_eq_bind, Option.bind_some, hheader, hstream]
  rw [if_neg (by decide)]
  by_cases hpos : 0 < q.n_keywords
  · have hblock := keywordBlock_eq q hle hpos
    have hkeywords : keywordBlock q = some (keywordBytes q) := by
      rw [keywordBytes, if_pos hpos, hblock, Option.getD_some]
    have hne : keywordBytes q ≠ [] := by
      apply List.ne_nil_of_length_pos
      have hlt := length_keywordText_lt q hle hpos
      rw [Option.some.inj (hkeywords.symm.trans hblock), List.length_append, List.length_replicate]
      omega
    obtain ⟨hsent', hacc', hready'⟩ := sendAll_ready _ (keywordBytes q) hne hready
    obtain ⟨-, hacc'', hready''⟩ := sendAll_ready _ (p.photoBytes q) hbytes hready'
    refine ⟨_, by rw [if_pos hpos, hkeywords, Option.bind_some, if_neg hsent'], ?_, ?_⟩
    · rw [sendBytes, if_neg hbytes0, hacc'', hacc', hacc]
      simp
    · rw [sendBytes, if_neg hbytes0]
      exact hready''
  · have hempty : keywordBytes q = [] := by rw [keywordBytes, if_neg hpos]
    obtain ⟨-, hacc', hready'⟩ := sendAll_ready _ (p.photoBytes q) hbytes hready
    refine ⟨_, by rw [if_neg hpos], ?_, ?_⟩
    · rw [sendBytes, if_neg hbytes0, hacc', hacc, hempty]
      simp
    · rw [sendBytes, if_neg hbytes0]
      exact hready'

-- One round of the receiving loop.
theorem addPhotoPeer_framed (r : Peer) (s : Sock) (more : List Byte) (ns : List Nat)
    (hb : s.conn.bytes = photoStream p buff q ++ more)
    (hframed : Framed s.conn (photoReads p q ++ ns)) :
    ∃ m conn ret, (recvAndUnstreamPhoto s.conn).buff = some m ∧
      addPhotoPeer r ⟨s.out, (recvAndUnstreamPhoto s.conn).conn⟩ m.text =
        some (⟨({ r with photo_list := q :: r.photo_list } : Peer).writeFile (fileName q.id)
          (p.photoBytes q), ⟨s.out, conn⟩, []⟩, ret) ∧
      conn.bytes = more ∧ Framed conn ns := by
  obtain ⟨hfile, hbytes⟩ := hq.photoBytes
  obtain ⟨m, -, htext, hstream⟩ := hq.header p buff
  rw [hstream, List.append_assoc] at hb
  rw [photoReads, List.cons_append, List.append_assoc] at hframed
  obtain ⟨-, hbuff, hrest, hframed'⟩ := recvAndUnstreamPhoto_framed s.conn m _ _ hb hframed
  have hsize : (p.photoBytes q).length < 2 ^ 64 := by
    have := framed_sizes_lt _ _ hframed (p.photoBytes q).length (by simp)
    omega
  have hheader := sscanfPhoto_header q (p.photoBytes q).length hq.name.1 hq.name.2.1 hsize hq.count
  have hn : 0 < Int32.ofNat q.n_keywords ↔ 0 < q.n_keywords := by
    have hcount := hq.count
    simp only [MAX_KEYWORDS] at hcount
    rw [Int32.lt_iff_toInt_lt, Int32.toInt_ofNat_of_lt (by omega)]
    simp
  rw [List.append_assoc] at hrest
  by_cases hpos : 0 < q.n_keywords
  · rw [if_pos hpos] at hframed'
    obtain ⟨conn, hkeywords, hrest', hframed''⟩ := recvKeywords_framed p q hq hpos
      ⟨s.out, (recvAndUnstreamPhoto s.conn).conn⟩ _ _ hrest hframed'
    obtain ⟨conn', hstore, hrest'', hns⟩ :=
      storePhoto_framed r ⟨s.out, conn⟩ q (p.photoBytes q) more ns hrest' hbytes hframed''
    refine ⟨m, conn', q.id.toInt32, hbuff, ?_, hrest'', hns⟩
    simp only [addPhotoPeer, htext, hheader, Option.bind_eq_bind, Option.bind_some]
    rw [if_pos (hn.mpr hpos), hkeywords, Option.bind_some, hstore, Option.bind_some]
  · have hnone : keywordBytes q = [] := by rw [keywordBytes, if_neg hpos]
    have hkeyword : setData q.name q.id = q := by
      have hnil : q.keyword = [] := List.eq_nil_of_length_eq_zero (Nat.eq_zero_of_not_pos hpos)
      rw [setData, ← hnil]
    rw [hnone, List.nil_append] at hrest
    rw [if_neg hpos, List.nil_append] at hframed'
    obtain ⟨conn, hstore, hrest', hns⟩ := storePhoto_framed r
      ⟨s.out, (recvAndUnstreamPhoto s.conn).conn⟩ q (p.photoBytes q) more ns hrest hbytes hframed'
    refine ⟨m, conn, q.id.toInt32, hbuff, ?_, hrest', hns⟩
    simp only [addPhotoPeer, htext, hheader, Option.bind_eq_bind, Option.bind_some, hkeyword]
    rw [if_neg (fun h => hpos (hn.mp h)), hstore, Option.bind_some]

end Photo

section List

variable (p : Peer) (buffs : Nat → MessagePhoto)

-- What the loop of `send_all_photos` writes from its `i`th photo on.
def photosStream : Nat → List Data → List Byte
  | _, [] => []
  | i, q :: rest => photoStream p (buffs i) q ++ photosStream (i + 1) rest

theorem sendPhotosLoop_accepted (photos : List Data) (hphotos : ∀ q ∈ photos, Transferable p q)
    (i : Nat) (out : Out) (hready : out.Ready) :
    ∃ out', sendPhotosLoop p buffs i out photos = some out' ∧
      out'.accepted = out.accepted ++ photosStream p buffs i photos := by
  induction photos generalizing i out with
  | nil => exact ⟨out, rfl, by simp [photosStream]⟩
  | cons q rest ih =>
      obtain ⟨out1, hsend, hacc, hready1⟩ :=
        sendPhotoPeer_accepted p (buffs i) q (hphotos q (by simp)) out hready
      obtain ⟨out2, hrest, hacc2⟩ := ih (fun q hq => hphotos q (by simp [hq])) (i + 1) out1 hready1
      refine ⟨out2, by simp [sendPhotosLoop, hsend, hrest], ?_⟩
      rw [hacc2, hacc, photosStream, List.append_assoc]

-- Every round puts one photo in front of the list and writes its file.
theorem recvPhotosLoop_framed (photos : List Data) (hphotos : ∀ q ∈ photos, Transferable p q)
    (i : Nat) (r : Peer) (s : Sock) (msg : MessagePhoto) (more : List Byte) (ns : List Nat)
    (hb : s.conn.bytes = photosStream p buffs i photos ++ more)
    (hframed : Framed s.conn (photos.flatMap (photoReads p) ++ ns)) :
    ∃ r' s', recvPhotosLoop photos.length r s msg = some (r', s') ∧
      r'.photo_list = photos.reverse ++ r.photo_list ∧
      (∀ name, r'.files name =
        if name ∈ photos.map (fun q => fileName q.id) then p.files name else r.files name) ∧
      s'.conn.bytes = more := by
  induction photos generalizing i r s msg with
  | nil => exact ⟨r, s, rfl, rfl, by simp, by simpa [photosStream] using hb⟩
  | cons q rest ih =>
      have hq := hphotos q (by simp)
      rw [photosStream, List.append_assoc] at hb
      rw [List.flatMap_cons, List.append_assoc] at hframed
      obtain ⟨m, conn, ret, hbuff, hadd, hrest, hns⟩ :=
        addPhotoPeer_framed p (buffs i) q hq r s _ _ hb hframed
      obtain ⟨r', s', hloop, hlist, hfiles, hmore⟩ := ih (fun q hq => hphotos q (by simp [hq]))
        (i + 1) _ ⟨s.out, conn⟩ m hrest hns
      refine ⟨r', s', ?_, ?_, ?_, hmore⟩
      · simp only [List.length_cons, recvPhotosLoop, hbuff, Option.getD_some, hadd,
          Option.bind_eq_bind, Option.bind_some]
        exact hloop
      · rw [hlist, Peer.writeFile_photo_list, List.reverse_cons, List.append_assoc,
          List.singleton_append]
      · intro name
        simp only [hfiles name, Peer.writeFile_files, List.map_cons, List.mem_cons]
        by_cases hin : name ∈ rest.map (fun q => fileName q.id)
        · rw [if_pos hin, if_pos (Or.inr hin)]
        · rw [if_neg hin]
          by_cases hname : name = fileName q.id
          · rw [if_pos hname, if_pos (Or.inl hname), hname, hq.photoBytes.1]
          · rw [if_neg hname, if_neg (by simp [hname, hin])]

end List

-- The reads of the receiver: the size of the list, then photo by photo.
def listReads (p : Peer) : List Nat := 4 :: p.photo_list.flatMap (photoReads p)

-- A run of `send_all_photos` against the receiving loop that loses nothing: the
-- receiver, which has no photos yet, ends with the sender's in reverse order,
-- each with its file, and has read what the sender wrote and no more.
def Lossless (p : Peer) : Prop :=
  ∀ (out : Out) (buffs : Nat → MessagePhoto), out.Ready →
    ∃ out' written, sendAllPhotos p out buffs = some out' ∧
      out'.accepted = out.accepted ++ written ∧
      (∀ q ∈ p.photo_list, 0 < q.n_keywords →
        ∃ block, keywordBlock q = some block ∧ block.length = q.n_keywords * SIZE ∧
          (keywordText q).length + 1 ≤ q.n_keywords * SIZE) ∧
      ∀ (files : CString → Option (List Byte)) (s : Sock) (msg : MessagePhoto) (more : List Byte),
        s.conn.bytes = written ++ more → Framed s.conn (listReads p) →
        ∃ r s', recvPhotoList ⟨[], files⟩ s msg = some (r, s') ∧
          r.photo_list = p.photo_list.reverse ∧
          (∀ q ∈ p.photo_list, r.files (fileName q.id) = p.files (fileName q.id)) ∧
          s'.conn.bytes = more

theorem recvPhotoList_framed (p : Peer) (buffs : Nat → MessagePhoto) (r : Peer) (s : Sock)
    (msg : MessagePhoto) (more : List Byte)
    (hb : s.conn.bytes = intBytes (Int32.ofNat p.photo_list.length) ++
      (photosStream p buffs 0 p.photo_list ++ more))
    (hframed : Framed s.conn (listReads p)) :
    ∃ conn, recvPhotoList r s msg = recvPhotosLoop
        (Int32.ofNat p.photo_list.length).toNatClampNeg r ⟨s.out, conn⟩ msg ∧
      conn.bytes = photosStream p buffs 0 p.photo_list ++ more ∧
      Framed conn (p.photo_list.flatMap (photoReads p)) := by
  have hlen := length_intBytes (Int32.ofNat p.photo_list.length)
  have hframed4 : Framed s.conn ((intBytes (Int32.ofNat p.photo_list.length)).length ::
      p.photo_list.flatMap (photoReads p)) := by
    rw [hlen]
    exact hframed
  obtain ⟨hret, hstored, hrest, hns⟩ := recvAll_framed s.conn
    (intBytes (Int32.ofNat p.photo_list.length)) _ _ hb (List.ne_nil_of_length_pos (by omega)) hframed4
  rw [hlen] at hret hstored hrest hns
  refine ⟨(recvAll s.conn 4).conn, ?_, hrest, hns⟩
  simp only [recvPhotoList]
  rw [if_neg (by omega), hstored, overlay_of_length_le _ _ (by simp), ← hlen, List.take_length,
    intOfBytes_intBytes]

section Lossless

variable (p : Peer) (hp : ∀ q ∈ p.photo_list, Transferable p q)

include hp

theorem sendAllPhotos_accepted (out : Out) (buffs : Nat → MessagePhoto) (hready : out.Ready) :
    ∃ out', sendAllPhotos p out buffs = some out' ∧ out'.accepted = out.accepted ++
      (intBytes (Int32.ofNat p.photo_list.length) ++ photosStream p buffs 0 p.photo_list) := by
  obtain ⟨hsent, hacc, hready⟩ := sendAll_ready out (intBytes (Int32.ofNat p.photo_list.length))
    (List.ne_nil_of_length_pos (by simp)) hready
  obtain ⟨out', hloop, hacc'⟩ := sendPhotosLoop_accepted p buffs p.photo_list hp 0 _ hready
  refine ⟨out', ?_, by rw [hacc', hacc, List.append_assoc]⟩
  simp only [sendAllPhotos, listCount_eq_length]
  rw [if_neg hsent, hloop]

-- The size of the list travels as an `int` the receiver counts up to.
theorem sendAllPhotos_lossless (hlen : p.photo_list.length < 2 ^ 31) : Lossless p := by
  intro out buffs hready
  obtain ⟨out', hsend, hacc⟩ := sendAllPhotos_accepted p hp out buffs hready
  refine ⟨out', _, hsend, hacc, ?_, ?_⟩
  · intro q hq hpos
    have hle : ∀ k ∈ q.keyword, k.length ≤ 97 := fun k hk => ((hp q hq).keyword k hk).2.2.2
    have hlt := length_keywordText_lt q hle hpos
    refine ⟨_, keywordBlock_eq q hle hpos, ?_, hlt⟩
    rw [List.length_append, List.length_replicate]
    omega
  · intro files s msg more hb hframed
    rw [List.append_assoc] at hb
    obtain ⟨conn, hlist, hrest, hns⟩ :=
      recvPhotoList_framed p buffs ⟨[], files⟩ s msg more hb hframed
    obtain ⟨r, s', hloop, hphotos, hfiles, hmore⟩ := recvPhotosLoop_framed p buffs p.photo_list hp 0
      ⟨[], files⟩ ⟨s.out, conn⟩ msg more [] hrest (by simpa using hns)
    have hrounds : (Int32.ofNat p.photo_list.length).toNatClampNeg = p.photo_list.length := by
      rw [Int32.toNatClampNeg, Int32.toInt_ofNat_of_lt hlen, Int.toNat_natCast]
    refine ⟨r, s', ?_, by simpa using hphotos, ?_, hmore⟩
    · rw [hlist, hrounds, hloop]
    · intro q hq
      rw [hfiles, if_pos (List.mem_map_of_mem hq)]

theorem listReads_bounds (hbytes : ∀ q ∈ p.photo_list, (p.photoBytes q).length < 2 ^ 31) :
    ∀ n ∈ listReads p, 0 < n ∧ n < 2 ^ 31 := by
  intro n hn
  rcases List.mem_cons.mp hn with rfl | hn
  · decide
  · obtain ⟨q, hq, hn⟩ := List.mem_flatMap.mp hn
    have hne := List.length_pos_iff.mpr (hp q hq).photoBytes.2
    have hcount := (hp q hq).count
    have hlt := hbytes q hq
    simp only [photoReads, List.mem_cons, List.mem_append, MAX_KEYWORDS] at hn hcount
    rcases hn with rfl | hn | rfl | hn
    · decide
    · split at hn
      · obtain rfl := List.mem_singleton.mp hn
        simp only [SIZE]
        omega
      · cases hn
    · exact ⟨hne, hlt⟩
    · cases hn

-- With a bit more the size is negative and the receiver takes no photo at all.
theorem not_lossless (hmore : 2 ^ 31 ≤ p.photo_list.length) (hlt : p.photo_list.length < 2 ^ 32)
    (hbytes : ∀ q ∈ p.photo_list, (p.photoBytes q).length < 2 ^ 31) : ¬ Lossless p := by
  intro h
  have hready : Out.Ready ⟨[], []⟩ := by simp [Out.Ready]
  obtain ⟨out, hsend, hacc⟩ := sendAllPhotos_accepted p hp ⟨[], []⟩ (fun _ => blankMessage) hready
  obtain ⟨out', written, hsend', hacc', -, hrecv⟩ := h ⟨[], []⟩ (fun _ => blankMessage) hready
  obtain rfl := Option.some.inj (hsend.symm.trans hsend')
  obtain rfl := List.append_cancel_left (hacc.symm.trans hacc')
  let more : List Byte := List.replicate (listReads p).sum 0
  let sock : Sock := ⟨⟨[], []⟩, ⟨intBytes (Int32.ofNat p.photo_list.length) ++
    photosStream p (fun _ => blankMessage) 0 p.photo_list ++ more, listReads p, .closed⟩⟩
  have hframed : Framed sock.conn (listReads p) := by
    apply framed_exact
    · exact listReads_bounds p hp hbytes
    · simp only [more, List.length_append, List.length_replicate]
      omega
  obtain ⟨r, s', hcall, hlist, -⟩ := hrecv (fun _ => none) sock blankMessage more rfl hframed
  obtain ⟨conn, hcall', -⟩ := recvPhotoList_framed p (fun _ => blankMessage) ⟨[], fun _ => none⟩
    sock blankMessage more (List.append_assoc _ _ _) hframed
  have hrounds : (Int32.ofNat p.photo_list.length).toNatClampNeg = 0 := by
    have hsize : Int32.size = 2 ^ 32 := rfl
    rw [Int32.toNatClampNeg, Int32.toInt_ofNat', hsize, Int.bmod_def]
    omega
  rw [hcall', hrounds, recvPhotosLoop] at hcall
  obtain ⟨rfl, -⟩ := Prod.mk.inj (Option.some.inj hcall)
  have hnil : p.photo_list.length = 0 := by
    rw [← List.length_reverse, ← hlist]
    rfl
  omega

end Lossless

-- A photo with two keywords and one with none.
def twoPhotos : Peer :=
  ⟨[⟨[97], 1, [[98], [99]]⟩, ⟨[100], 2, []⟩], fun name => if name = [49] then some [5] else some [6, 7]⟩

theorem sendAllPhotos_lossless_twoPhotos : Lossless twoPhotos := by
  apply sendAllPhotos_lossless
  · intro q hq
    refine ⟨?_, ?_, ?_, ?_, ?_⟩
    · revert q
      decide
    · refine ⟨twoPhotos.photoBytes q, ?_, ?_⟩
      · revert q
        decide +kernel
      · revert q
        decide +kernel
    · revert q
      decide
    · revert q
      decide
    · revert q
      decide +kernel
  · decide

-- As many photos as an `int` cannot count, with distinct ids.
def manyPhotos : Peer :=
  ⟨(List.range (2 ^ 31)).map (fun i => ⟨[97], UInt32.ofNat i, []⟩), fun _ => some [5]⟩

theorem manyPhotos_not_lossless :
    (∀ q ∈ manyPhotos.photo_list, Transferable manyPhotos q) ∧ ¬ Lossless manyPhotos := by
  have hlen : manyPhotos.photo_list.length = 2 ^ 31 := by
    simp only [manyPhotos, List.length_map, List.length_range]
  have hp : ∀ q ∈ manyPhotos.photo_list, Transferable manyPhotos q := by
    intro q hq
    simp only [manyPhotos, List.mem_map] at hq
    obtain ⟨i, -, rfl⟩ := hq
    have hbytes : manyPhotos.photoBytes ⟨[97], UInt32.ofNat i, []⟩ = [5] := rfl
    have hid : (decimal (UInt32.ofNat i).toNat).length ≤ 10 :=
      length_decimal_le (by decide) (Nat.lt_trans (UInt32.ofNat i).toNat_lt (by decide))
    refine ⟨by simp, ⟨[5], rfl, by decide⟩, by simp [Data.n_keywords], by simp, ?_⟩
    rw [hbytes]
    simp only [photoHeaderText, Data.n_keywords, List.length_append, List.length_cons,
      List.length_nil, MAX_SIZE]
    have h1 : (decimal (0 + 1)).length = 1 := by decide
    have h0 : (decimal 0).length = 1 := by decide
    omega
  refine ⟨hp, not_lossless manyPhotos hp (by omega) (by omega) ?_⟩
  intro q _
  exact (by decide : [(5 : Byte)].length < 2 ^ 31)

end Gallery
