import Gallery.Peer.Serving

namespace Gallery

open Bytes Text

section Telling

variable (port : Int32) {online : DataR → Bool} {own : DataR} (hself : online own = true)

-- A broadcast that `p` can send to whoever answers.
def Broadcast.Carried (p : Peer) (b : Broadcast) : Prop :=
  b.message.length < MAX_SIZE ∧ b.photo.all p.sends

theorem fits_of_identity {p : Peer} {b : Broadcast} (hb : b.Carried p) {K : DataR} (hK : Identity K) :
    Fits online p b.message b.photo K := by
  have hlength := hK.length
  have hport : K.port.toUInt32.toNat < 10 ^ 5 := by
    have hnonneg := hK.port_nonneg
    have hlt := hK.port_lt
    rw [hK.toNat_port]
    omega
  have hdigits := length_decimal_le (by decide) hport
  unfold Fits
  split
  · exact hb
  · simp only [peerIdText, List.length_append, List.length_cons, MESSAGE_SIZE]
    omega

include hself

theorem broadcast_tells {s : Serving} {others : List DataR} (hring : s.ring.Holds (own :: others))
    (hknown : ∀ K ∈ others, Identity K) {b : Broadcast} (hb : b.Carried s.peer) :
    ∃ ring, s.broadcast port online b = some { s with
        ring := ring
        sent := s.sent ++ others.flatMap (outgoing online port b.message b.type b.photo) } ∧
      ring.Holds (own :: others.filter online) := by
  obtain ⟨ns, hc, hns⟩ := hring
  cases ns with
  | nil => simp at hns
  | cons n ns =>
      obtain ⟨rfl, rfl⟩ := List.cons.inj hns
      have hroot : s.ring.peer_list = some n.1 := hc.root_eq
      have hlen := hc.length_le
      obtain ⟨t, ht, hnext, -⟩ := @Circle.prev_after _ _ [] ns _ n (hroot ▸ hc)
      obtain ⟨ring, hloop, hring⟩ := broadcastAndNotifyLoop_eq online s.peer port b.message b.type
        b.photo (s.ring.heap.brk + 1) [n] ns ⟨s.ring, [], 0⟩ t hc (by simp) (by simpa using hself)
        (hroot.symm ▸ ht) (fun K hK => fits_of_identity hb (hknown K hK))
        (by simp only [List.length_cons] at hlen; omega)
      refine ⟨ring, ?_, hring⟩
      simp only [Serving.broadcast, broadcastPeersAndNotify, hroot, hnext, hloop, Option.bind_eq_bind,
        Option.bind_some, List.nil_append, Bool.false_eq_true, if_false]
      rfl

theorem broadcasts_tell (news : List Broadcast) {s : Serving} {v : Member}
    (hring : s.ring.Holds (own :: v.others)) (hknown : ∀ K ∈ v.others, Identity K)
    (hnews : ∀ b ∈ news, b.Carried s.peer) :
    ∃ ring, news.foldlM (Serving.broadcast port online) s = some { s with
        ring := ring
        sent := s.sent ++ (v.tell port online news).2 } ∧
      ring.Holds (own :: (v.tell port online news).1.others) := by
  induction news generalizing s v with
  | nil => exact ⟨s.ring, by simp [Member.tell], hring⟩
  | cons b rest ih =>
      obtain ⟨ring, hbroadcast, hring'⟩ :=
        broadcast_tells port hself hring hknown (hnews b List.mem_cons_self)
      obtain ⟨ring', hrest, hring''⟩ := @ih { s with
          ring := ring
          sent := s.sent ++ v.others.flatMap (outgoing online port b.message b.type b.photo) }
        { v with others := v.others.filter online } hring'
        (fun K hK => hknown K (List.mem_of_mem_filter hK))
        (fun b hb => hnews b (List.mem_cons_of_mem _ hb))
      refine ⟨ring', ?_, hring''⟩
      rw [List.foldlM_cons, hbroadcast, Option.bind_eq_bind, Option.bind_some, hrest]
      simp only [Member.tell, List.append_assoc]

end Telling

theorem tell_album (port : Int32) (online : DataR → Bool) (news : List Broadcast) (v : Member) :
    (v.tell port online news).1.album = v.album := by
  induction news generalizing v with
  | nil => rfl
  | cons b rest ih => exact ih { v with others := v.others.filter online }

theorem tell_others (port : Int32) (online : DataR → Bool) (news : List Broadcast) (v : Member) :
    ∀ K ∈ (v.tell port online news).1.others, K ∈ v.others := by
  induction news generalizing v with
  | nil => exact fun K hK => hK
  | cons b rest ih =>
      exact fun K hK => List.mem_of_mem_filter (ih { v with others := v.others.filter online } K hK)

theorem tell_append (port : Int32) (online : DataR → Bool) (news more : List Broadcast) (v : Member) :
    v.tell port online (news ++ more) =
      (((v.tell port online news).1.tell port online more).1,
        (v.tell port online news).2 ++ ((v.tell port online news).1.tell port online more).2) := by
  induction news generalizing v with
  | nil => rfl
  | cons b rest ih => simp only [List.cons_append, Member.tell, ih, List.append_assoc]

section Photos

-- What the handler of a message on photos leaves, `more` and `ns` being what comes after it.
structure Handled.Leaves (h : Handled) (out : Out) (a : Album) (reply : List Byte)
    (news : List Broadcast) (more : List Byte) (ns : List Nat) : Prop where
  album : Represents h.peer a
  accepted : h.sock.out.accepted = out.accepted ++ reply
  ready : h.sock.out.Ready
  news : h.broadcasts = news
  bytes : h.sock.conn.bytes = more
  framed : Framed h.sock.conn ns

theorem Answered.leaves {h : Handled} {out : Out} {a : Album} {reply : Reply} {news : List Broadcast}
    {more : List Byte} {ns : List Nat} (hans : Answered h out a reply)
    (hrest : h.broadcasts = news ∧ h.sock.conn.bytes = more ∧ Framed h.sock.conn ns) :
    h.Leaves out a reply.stream news more ns :=
  ⟨hans.represents, hans.accepted, hans.ready, hrest.1, hrest.2.1, hrest.2.2⟩

variable {p : Peer} {s : Sock} {m : MessagePhoto}

theorem addKeyword_eq {id : UInt32} {keyword : CString}
    (hscan : sscanfKeyword m.text = some (id, keyword)) :
    addKeyword p s m = some (if m.type = 10 then ⟨(insertKeyword p id keyword).2, s, []⟩
      else ⟨(insertKeyword p id keyword).2,
        ⟨(sendAll s.out (intBytes (insertKeyword p id keyword).1)).2, s.conn⟩,
        if (insertKeyword p id keyword).1 = 1 then [⟨m.text, 10, none⟩] else []⟩) := by
  simp only [addKeyword, hscan, Option.bind_eq_bind, Option.bind_some]
  split <;> rfl

-- The peer without a photo: out of the list, and out of the directory if it was listed.
def Peer.without (p : Peer) (id : UInt32) : Peer :=
  let (found, photo_list) := listRemove p.photo_list (setData [] id)
  let p := { p with photo_list := photo_list }
  if found ≠ 0 then p.unlink (fileName id) else p

theorem deletePhoto_eq {id : UInt32} (hscan : sscanfId m.text = some id) :
    deletePhoto p s m = some (if m.type = 11 then ⟨p.without id, s, []⟩
      else ⟨p.without id,
        ⟨(sendAll s.out (intBytes (Int32.ofNat (listRemove p.photo_list (setData [] id)).1))).2, s.conn⟩,
        if (listRemove p.photo_list (setData [] id)).1 ≠ 0 then [⟨m.text, 11, none⟩] else []⟩) := by
  simp only [deletePhoto, hscan, Option.bind_eq_bind, Option.bind_some, Peer.without]
  by_cases hm : m.type = 11
  · simp only [if_pos hm]
  · simp only [if_neg hm]

theorem sendPhotoName_frame {h : Handled} (hcall : sendPhotoName p s m = some h) :
    h.sock.conn = s.conn ∧ h.broadcasts = [] := by
  obtain ⟨id, -, hcall⟩ := Option.bind_eq_some_iff.mp hcall
  split at hcall
  all_goals
    obtain rfl := Option.some.inj hcall
    exact ⟨rfl, rfl⟩

theorem sendPhotoClient_frame {h : Handled} (hcall : sendPhotoClient p s m = some h) :
    h.sock.conn = s.conn ∧ h.broadcasts = [] := by
  obtain ⟨id, -, hcall⟩ := Option.bind_eq_some_iff.mp hcall
  split at hcall
  · obtain rfl := Option.some.inj hcall
    exact ⟨rfl, rfl⟩
  · obtain ⟨bytes, -, hcall⟩ := Option.bind_eq_some_iff.mp hcall
    obtain rfl := Option.some.inj hcall
    exact ⟨rfl, rfl⟩

variable {a : Album} (hp : Represents p a)

include hp

theorem Represents.without (id : UInt32) :
    Represents (p.without id) (a.filter (fun q => q.id != id)) := by
  have hlength : (photoIdText id).length ≤ 10 :=
    length_decimal_le (by decide) (Nat.lt_trans id.toNat_lt (by decide))
  obtain ⟨m, hm⟩ :=
    MessagePhoto.exists_fill (Nat.lt_of_le_of_lt hlength (by decide)) blankMessage 4
  obtain ⟨htext, htype⟩ := MessagePhoto.text_of_fill (nul_notMem_decimal _) hm
  have hready : Out.Ready ⟨[], []⟩ := by simp [Out.Ready]
  obtain ⟨h, hcall, hans⟩ :=
    deletePhoto_answered (s := ⟨⟨[], []⟩, ⟨[], [], .closed⟩⟩) hp hready id htext htype
  have hscan : sscanfId m.text = some id := by
    rw [htext]
    exact sscanfId_text id
  have hfour : ¬(4 : Int32) = 11 := by decide
  rw [deletePhoto_eq hscan, htype, if_neg hfour] at hcall
  obtain rfl := Option.some.inj hcall
  exact hans.represents

variable {gateway : GatewayReply} {more : List Byte} {ns : List Nat} (hs : s.out.Ready)

include hs

theorem request_leaves {r : Request} (hr : r.Valid a) (hcount : r.Counted a)
    (hid : ∀ id name bytes, r = .addPhoto id name bytes → gateway = .id id)
    (htext : m.text = r.text) (htype : m.type = r.type)
    (hb : s.conn.bytes = m.stream ++ (r.content ++ more)) (hframed : Framed s.conn (r.reads ++ ns)) :
    ∃ h, connection p s gateway = some h ∧
      h.Leaves s.out (a.step r).1 (a.step r).2.stream (r.news (a.step r).2) more ns := by
  have hreads : r.reads ++ ns = MESSAGE_PHOTO_SIZE :: (r.reads.tail ++ ns) := by cases r <;> rfl
  obtain ⟨-, hbuff, hrest, hframed'⟩ :=
    recvAndUnstreamPhoto_framed s.conn m _ _ hb (hreads ▸ hframed)
  simp only [connection, hbuff, Option.bind_eq_bind, Option.bind_some]
  cases r with
  | addPhoto id name bytes =>
      obtain rfl := hid id name bytes rfl
      have h1 : m.type.toInt = 1 := by rw [htype]; rfl
      have htext' : m.text = name ++ 44 :: decimal bytes.length := htext
      have hnew := hp.addPhoto id name bytes hr
      obtain ⟨hzero, -, hname, hcomma, -, hbytes⟩ := hr
      obtain ⟨-, hacc, hready⟩ :=
        sendAll_ready s.out (uint32Bytes id) (List.ne_nil_of_length_pos (by simp)) hs
      obtain ⟨conn, hcall, hmore, hns⟩ := addPhotoClient_framed p
        ⟨s.out, (recvAndUnstreamPhoto s.conn).conn⟩ hs hzero hname hcomma hbytes more ns hrest hframed'
      rw [← htext'] at hcall
      rw [h1, hcall]
      exact ⟨_, rfl, hnew, hacc, hready, rfl, hmore, hns⟩
  | addKeyword id keyword =>
      have h2 : m.type.toInt = 2 := by rw [htype]; rfl
      have htext' : m.text = addKeywordText id keyword := htext
      have htype' : m.type = 2 := htype
      have hten : ¬(2 : Int32) = 10 := by decide
      obtain ⟨h, hcall, hans⟩ := addKeyword_answered
        (s := ⟨s.out, (recvAndUnstreamPhoto s.conn).conn⟩) hp hs id keyword hr htext htype
      refine ⟨h, by simp only [h2, hcall], hans.leaves ?_⟩
      obtain ⟨hne, -, hspace⟩ := hr
      rw [addKeyword_eq (htext' ▸ sscanfKeyword_text id keyword hne hspace), htype', if_neg hten]
        at hcall
      obtain rfl := Option.some.inj hcall
      have hsuccess := (hp.insertKeyword id keyword).1
      exact ⟨by simp [Request.news, Album.step, hsuccess, htext'], hrest, hframed'⟩
  | searchPhoto keyword =>
      have h3 : m.type.toInt = 3 := by rw [htype]; rfl
      obtain ⟨h, hcall, hans⟩ := searchPhoto_answered
        (s := ⟨s.out, (recvAndUnstreamPhoto s.conn).conn⟩) hp hs keyword htext hcount
      refine ⟨h, by simp only [h3, hcall], hans.leaves ?_⟩
      have hhits : (hitIds p m.text).length < 2 ^ 31 := by
        rw [hp.hitIds, htext, Album.ids, List.length_map]
        exact hcount
      obtain ⟨out, hreply, -⟩ := searchPhoto_reply (p := p) (m := m)
        (s := ⟨s.out, (recvAndUnstreamPhoto s.conn).conn⟩) hs hhits
      obtain rfl := Option.some.inj (hcall.symm.trans hreply)
      exact ⟨rfl, hrest, hframed'⟩
  | deletePhoto id =>
      have h4 : m.type.toInt = 4 := by rw [htype]; rfl
      have htext' : m.text = photoIdText id := htext
      have htype' : m.type = 4 := htype
      have heleven : ¬(4 : Int32) = 11 := by decide
      obtain ⟨h, hcall, hans⟩ := deletePhoto_answered
        (s := ⟨s.out, (recvAndUnstreamPhoto s.conn).conn⟩) hp hs id htext htype
      refine ⟨h, by simp only [h4, hcall], hans.leaves ?_⟩
      rw [deletePhoto_eq (htext' ▸ sscanfId_text id), htype', if_neg heleven] at hcall
      obtain rfl := Option.some.inj hcall
      have hfound := hp.listRemove id
      refine ⟨?_, hrest, hframed'⟩
      by_cases hmem : id ∈ a.ids <;> simp [Request.news, Album.step, hfound, htext', hmem]
  | getPhotoName id =>
      have h5 : m.type.toInt = 5 := by rw [htype]; rfl
      obtain ⟨h, hcall, hans⟩ := sendPhotoName_answered
        (s := ⟨s.out, (recvAndUnstreamPhoto s.conn).conn⟩) hp hs id htext
      obtain ⟨hconn, hnone⟩ := sendPhotoName_frame hcall
      exact ⟨h, by simp only [h5, hcall], hans.leaves ⟨hnone, hconn ▸ hrest, hconn ▸ hframed'⟩⟩
  | getPhoto id =>
      have h6 : m.type.toInt = 6 := by rw [htype]; rfl
      obtain ⟨h, hcall, hans⟩ := sendPhotoClient_answered
        (s := ⟨s.out, (recvAndUnstreamPhoto s.conn).conn⟩) hp hs id htext
      obtain ⟨hconn, hnone⟩ := sendPhotoClient_frame hcall
      exact ⟨h, by simp only [h6, hcall], hans.leaves ⟨hnone, hconn ▸ hrest, hconn ▸ hframed'⟩⟩

theorem refused_leaves {name : CString} {size : Nat} (hname : name ≠ [] ∧ 44 ∉ name ∧ 0 ∉ name)
    (hid : ∀ id, gateway = .id id → id = 0) (htext : m.text = name ++ 44 :: decimal size)
    (htype : m.type = 1) (hb : s.conn.bytes = m.stream ++ more)
    (hframed : Framed s.conn (MESSAGE_PHOTO_SIZE :: ns)) :
    ∃ h, connection p s gateway = some h ∧ h.Leaves s.out a (refusal gateway) [] more ns := by
  obtain ⟨-, hbuff, hrest, hframed'⟩ := recvAndUnstreamPhoto_framed s.conn m _ _ hb hframed
  have h1 : m.type.toInt = 1 := by rw [htype]; rfl
  obtain ⟨-, hacc, hready⟩ :=
    sendAll_ready s.out (uint32Bytes 0) (List.ne_nil_of_length_pos (by simp)) hs
  have hscan : (sscanfNameSize m.text).1.name = some name := by
    rw [htext, sscanfNameSize, scanUntil_append 44 name _ hname.1 hname.2.1]
    simp only
    split <;> rfl
  simp only [connection, hbuff, Option.bind_eq_bind, Option.bind_some, h1, addPhotoClient, hscan]
  cases gateway with
  | notSent => exact ⟨_, rfl, hp, by simp [refusal], hs, rfl, hrest, hframed'⟩
  | timeout =>
      simp only [if_true, ite_self]
      exact ⟨_, rfl, hp, hacc, hready, rfl, hrest, hframed'⟩
  | id n =>
      obtain rfl := hid n rfl
      simp only [if_true, ite_self]
      exact ⟨_, rfl, hp, hacc, hready, rfl, hrest, hframed'⟩

variable (gateway)

theorem keyword_leaves {id : UInt32} {word : CString}
    (hword : word ≠ [] ∧ 0 ∉ word ∧ ∀ b ∈ word, isSpace b = false)
    (htext : m.text = addKeywordText id word) (htype : m.type = 10)
    (hb : s.conn.bytes = m.stream ++ more) (hframed : Framed s.conn (MESSAGE_PHOTO_SIZE :: ns)) :
    ∃ h, connection p s gateway = some h ∧ h.Leaves s.out (a.addKeyword id word).1 [] [] more ns := by
  obtain ⟨-, hbuff, hrest, hframed'⟩ := recvAndUnstreamPhoto_framed s.conn m _ _ hb hframed
  have h10 : m.type.toInt = 10 := by rw [htype]; rfl
  have hscan : sscanfKeyword m.text = some (id, word) := by
    rw [htext]
    exact sscanfKeyword_text id word hword.1 hword.2.2
  simp only [connection, hbuff, Option.bind_eq_bind, Option.bind_some, h10]
  rw [addKeyword_eq hscan, if_pos htype]
  exact ⟨_, rfl, (hp.insertKeyword id word).2, by simp, hs, rfl, hrest, hframed'⟩

theorem delete_leaves {id : UInt32} (htext : m.text = photoIdText id) (htype : m.type = 11)
    (hb : s.conn.bytes = m.stream ++ more) (hframed : Framed s.conn (MESSAGE_PHOTO_SIZE :: ns)) :
    ∃ h, connection p s gateway = some h ∧
      h.Leaves s.out (a.filter (fun q => q.id != id)) [] [] more ns := by
  obtain ⟨-, hbuff, hrest, hframed'⟩ := recvAndUnstreamPhoto_framed s.conn m _ _ hb hframed
  have h11 : m.type.toInt = 11 := by rw [htype]; rfl
  have hscan : sscanfId m.text = some id := by
    rw [htext]
    exact sscanfId_text id
  simp only [connection, hbuff, Option.bind_eq_bind, Option.bind_some, h11]
  rw [deletePhoto_eq hscan, if_pos htype]
  exact ⟨_, rfl, hp.without id, by simp, hs, rfl, hrest, hframed'⟩

end Photos

section Passing

variable {q : Photo} {p : Peer} {a : Album}

theorem Photo.photoBytes_eq (hfile : p.files (fileName q.id) = some q.bytes) :
    p.photoBytes q.data = q.bytes := by
  show (p.files (fileName q.id)).getD [] = q.bytes
  rw [hfile, Option.getD_some]

theorem Photo.Sound.transferable (hq : q.Sound) (hfits : q.HeaderFits)
    (hcount : q.keywords.length ≤ MAX_KEYWORDS) (hfile : p.files (fileName q.id) = some q.bytes) :
    Transferable p q.data where
  name := hq.name
  file := ⟨q.bytes, hfile, hq.bytes⟩
  count := hcount
  keyword := by
    intro k hk
    obtain ⟨hne, hspace, hnul, hlength⟩ := hq.keyword k hk
    exact ⟨hne, fun h => absurd (hspace 32 h) (by decide), hnul, hlength⟩
  fits := by
    rw [Photo.photoBytes_eq hfile]
    exact hfits

theorem photosStream_eq (buffs : Nat → MessagePhoto) {photos : List Photo}
    (hfiles : ∀ q ∈ photos, p.files (fileName q.id) = some q.bytes) (i : Nat) :
    photosStream p buffs i (photos.map Photo.data) = photosFrom buffs i photos := by
  induction photos generalizing i with
  | nil => rfl
  | cons q rest ih =>
      have hbytes := Photo.photoBytes_eq (hfiles q List.mem_cons_self)
      rw [List.map_cons, photosStream, photosFrom, photoStream, hbytes,
        ih (fun q hq => hfiles q (List.mem_cons_of_mem _ hq))]
      rfl

theorem sendPhotosLoop_ready (buffs : Nat → MessagePhoto) {photos : List Data}
    (hphotos : ∀ q ∈ photos, Transferable p q) (i : Nat) {out out' : Out} (hready : out.Ready)
    (hsend : sendPhotosLoop p buffs i out photos = some out') : out'.Ready := by
  induction photos generalizing i out with
  | nil =>
      obtain rfl := Option.some.inj hsend
      exact hready
  | cons q rest ih =>
      obtain ⟨out1, hone, -, hready1⟩ :=
        sendPhotoPeer_accepted p (buffs i) q (hphotos q List.mem_cons_self) out hready
      rw [sendPhotosLoop, hone] at hsend
      exact ih (fun q hq => hphotos q (List.mem_cons_of_mem _ hq)) (i + 1) hready1 hsend

-- A newcomer is sent the whole album.
theorem sendAllPhotos_album (hp : Represents p a) (hsound : ∀ q ∈ a, q.Sound)
    (hfits : ∀ q ∈ a, q.HeaderFits) {out : Out} (hready : out.Ready) (buffs : Nat → MessagePhoto) :
    ∃ out', sendAllPhotos p out buffs = some out' ∧
      out'.accepted = out.accepted ++ a.stream buffs ∧ out'.Ready := by
  have hphotos : ∀ K ∈ p.photo_list, Transferable p K := by
    intro K hK
    rw [hp.photo_list, List.mem_reverse] at hK
    obtain ⟨q, hq, rfl⟩ := List.mem_map.mp hK
    exact (hsound q hq).transferable (hfits q hq) (hp.wellFormed.keywords q hq).2 (hp.files q hq)
  have hlist : p.photo_list = a.reverse.map Photo.data := by rw [hp.photo_list, List.map_reverse]
  have hstream := photosStream_eq buffs (fun q hq => hp.files q (List.mem_reverse.mp hq)) 0
  obtain ⟨out', hsend, hacc⟩ := sendAllPhotos_accepted p hphotos out buffs hready
  obtain ⟨hsent, -, hready'⟩ := sendAll_ready out (intBytes (Int32.ofNat p.photo_list.length))
    (List.ne_nil_of_length_pos (by simp)) hready
  refine ⟨out', hsend, ?_, ?_⟩
  · rw [hacc, hlist, List.length_map, List.length_reverse, hstream]
    rfl
  · simp only [sendAllPhotos, listCount_eq_length] at hsend
    rw [if_neg hsent] at hsend
    exact sendPhotosLoop_ready buffs hphotos 0 hready' hsend

theorem Represents.replicate (hp : Represents p a) (hid : q.id ∉ a.ids)
    (hkeywords : q.keywords.Nodup ∧ q.keywords.length ≤ MAX_KEYWORDS) :
    Represents (({ p with photo_list := q.data :: p.photo_list } : Peer).writeFile
      (fileName q.id) q.bytes) (a ++ [q]) where
  photo_list := by simp [hp.photo_list]
  files := by
    intro r hr
    rcases List.mem_append.mp hr with hr | hr
    · rw [Peer.writeFile_files, if_neg (fileName_ne_of_notMem q.id hid r hr)]
      exact hp.files r hr
    · obtain rfl := List.mem_singleton.mp hr
      simp
  wellFormed := by
    refine ⟨?_, ?_⟩
    · rw [Album.ids, List.map_append]
      exact List.nodup_append.mpr ⟨hp.wellFormed.ids, List.nodup_singleton _, by
        intro x hx y hy
        obtain rfl := List.mem_singleton.mp hy
        exact fun h => hid (h ▸ hx)⟩
    · intro r hr
      rcases List.mem_append.mp hr with hr | hr
      · exact hp.wellFormed.keywords r hr
      · obtain rfl := List.mem_singleton.mp hr
        exact hkeywords

theorem replicate_leaves (hp : Represents p a) {s : Sock} {m : MessagePhoto} (gateway : GatewayReply)
    {more : List Byte} {ns : List Nat} (hs : s.out.Ready) (hid : q.id ∉ a.ids) (hsound : q.Sound)
    (hfits : q.HeaderFits) (hkeywords : q.keywords.Nodup ∧ q.keywords.length ≤ MAX_KEYWORDS)
    (photoBuff : MessagePhoto) (htype : m.type = 9)
    (hb : s.conn.bytes = m.stream ++ (q.stream photoBuff ++ more))
    (hframed : Framed s.conn (MESSAGE_PHOTO_SIZE :: (q.reads ++ ns))) :
    ∃ h, connection p s gateway = some h ∧ h.Leaves s.out (a ++ [q]) [] [] more ns := by
  -- The peer that sends the photo has it in its file.
  let sender : Peer := ⟨[], fun _ => some q.bytes⟩
  have htransferable : Transferable sender q.data := hsound.transferable hfits hkeywords.2 rfl
  obtain ⟨-, hbuff, hrest, hframed'⟩ := recvAndUnstreamPhoto_framed s.conn m _ _ hb hframed
  have h9 : m.type.toInt = 9 := by rw [htype]; rfl
  obtain ⟨header, conn, ret, hheader, hadd, hmore, hns⟩ := addPhotoPeer_framed sender photoBuff q.data
    htransferable p ⟨s.out, (recvAndUnstreamPhoto s.conn).conn⟩ more ns hrest hframed'
  simp only [connection, hbuff, Option.bind_eq_bind, Option.bind_some, h9, hheader, Option.getD_some,
    hadd, Option.map_some]
  exact ⟨_, rfl, hp.replicate hid hkeywords, by simp, hs, rfl, hmore, hns⟩

end Passing

end Gallery
