import Gallery.Peer.Serving.Handlers

namespace Gallery

open Bytes Text

section Sound

variable {a : Album}

theorem length_word_le {id : UInt32} {word : CString}
    (hfits : (addKeywordText id word).length < MAX_SIZE) : word.length ≤ 97 := by
  have hid := List.length_pos_iff.mpr (decimal_ne_nil id.toNat)
  simp only [addKeywordText, List.length_append, List.length_cons, MAX_SIZE] at hfits
  omega

theorem sound_addKeyword (hsound : ∀ q ∈ a, q.Sound) {id : UInt32} {word : CString}
    (hword : word ≠ [] ∧ 0 ∉ word ∧ ∀ b ∈ word, isSpace b = false)
    (hfits : (addKeywordText id word).length < MAX_SIZE) :
    ∀ q ∈ (a.addKeyword id word).1, q.Sound := by
  intro q hq
  simp only [Album.addKeyword] at hq
  split at hq
  · exact hsound q hq
  · split at hq
    · exact hsound q hq
    · split at hq
      · exact hsound q hq
      · obtain ⟨r, hr, rfl⟩ := List.mem_map.mp hq
        obtain ⟨hname, hbytes, hkeyword⟩ := hsound r hr
        split
        · refine ⟨hname, hbytes, fun k hk => ?_⟩
          rcases List.mem_append.mp hk with hk | hk
          · exact hkeyword k hk
          · obtain rfl := List.mem_singleton.mp hk
            exact ⟨hword.1, hword.2.2, hword.2.1, length_word_le hfits⟩
        · exact ⟨hname, hbytes, hkeyword⟩

theorem sound_step (hsound : ∀ q ∈ a, q.Sound) {r : Request} (hr : r.Valid a)
    (hfits : r.text.length < MAX_SIZE) : ∀ q ∈ (a.step r).1, q.Sound := by
  cases r with
  | addPhoto id name bytes =>
      obtain ⟨-, -, hname, hcomma, hnul, hbytes⟩ := hr
      intro q hq
      rcases List.mem_append.mp hq with hq | hq
      · exact hsound q hq
      · obtain rfl := List.mem_singleton.mp hq
        exact ⟨⟨hname, hcomma, hnul⟩, hbytes, by simp⟩
  | addKeyword id keyword => exact sound_addKeyword hsound hr hfits
  | deletePhoto id => exact fun q hq => hsound q (List.mem_of_mem_filter hq)
  | searchPhoto keyword => exact hsound
  | getPhotoName id => exact hsound
  | getPhoto id => exact hsound

-- What the others are told of a request can be sent to them.
theorem news_carried {p : Peer} {r : Request} (hp : Represents p (a.step r).1)
    (hfits : r.text.length < MAX_SIZE)
    (hheader : ∀ id name bytes, r = .addPhoto id name bytes → Photo.HeaderFits ⟨id, name, [], bytes⟩)
    (reply : Reply) : ∀ b ∈ r.news reply, b.Carried p := by
  intro b hb
  cases r with
  | addPhoto id name bytes =>
      obtain rfl := List.mem_singleton.mp hb
      have hfile := hp.files ⟨id, name, [], bytes⟩ (List.mem_append_right _ List.mem_cons_self)
      have hfile' : p.files (fileName (setData name id).id) = some bytes := hfile
      refine ⟨(by decide : ([] : CString).length < MAX_SIZE), ?_⟩
      simp only [Option.all_some, Peer.sends, hfile', Option.any_some, Bool.and_eq_true,
        decide_eq_true_eq]
      exact ⟨hheader id name bytes rfl, rfl⟩
  | addKeyword id keyword =>
      simp only [Request.news] at hb
      split at hb
      · obtain rfl := List.mem_singleton.mp hb
        exact ⟨hfits, rfl⟩
      · simp at hb
  | deletePhoto id =>
      simp only [Request.news] at hb
      split at hb
      · obtain rfl := List.mem_singleton.mp hb
        exact ⟨hfits, rfl⟩
      · simp at hb
  | searchPhoto keyword => simp [Request.news] at hb
  | getPhotoName id => simp [Request.news] at hb
  | getPhoto id => simp [Request.news] at hb

end Sound

-- One turn as it is seen from outside: the peer keeps what it should, it sent the answer and
-- told the others, and `more` is left to read.
structure Serving.Served (s s' : Serving) (own : DataR) (v : Member) (reply : List Byte)
    (sent : List Transmission) (more : List Byte) (ns : List Nat) : Prop where
  keeps : s'.Keeps own v
  accepted : s'.sock.out.accepted = s.sock.out.accepted ++ reply
  sent : s'.sent = s.sent ++ sent
  bytes : s'.sock.conn.bytes = more
  framed : Framed s'.sock.conn ns

theorem Incoming.ends_ne_shutDown (message : Incoming) : message.ends ≠ some .shutDown := by
  cases message <;> simp [Incoming.ends]

theorem Request.type_mem (q : Request) : q.type ∈ ([1, 2, 3, 4, 5, 6, 9, 10, 11] : List Int32) := by
  cases q <;> simp [Request.type]

theorem MessagePhoto.type_of_fill {old m : MessagePhoto} {buffer : CString} {type : Int32}
    (h : MessagePhoto.fill old buffer type = some m) : m.type = type := by
  unfold MessagePhoto.fill at h
  split at h
  · obtain rfl := Option.some.inj h
    rfl
  · cases h

-- A message on photos comes to no end of the loop.
theorem handle_photos {port : Int32} {s : Serving} {r : Surroundings} {m : MessagePhoto} {sock : Sock}
    (htype : m.type ∈ ([1, 2, 3, 4, 5, 6, 9, 10, 11] : List Int32)) :
    s.handle port r m sock = (s.photos port r).map (fun s => (s, none)) := by
  have hint : ([1, 2, 3, 4, 5, 6, 9, 10, 11] : List Int32).map Int32.toInt =
      [1, 2, 3, 4, 5, 6, 9, 10, 11] := by decide +kernel
  have hmem := hint ▸ List.mem_map_of_mem htype
  simp only [List.mem_cons, List.not_mem_nil, or_false] at hmem
  rcases hmem with h | h | h | h | h | h | h | h | h <;> simp only [Serving.handle, h]

section Turn

variable (port : Int32) {own : DataR} {v : Member} {s : Serving} (hk : s.Keeps own v)
  {more : List Byte} {ns : List Nat}

include hk

theorem photos_serve {r : Surroundings} (hself : r.online own = true) {h : Handled} {a : Album}
    {reply : List Byte} {news : List Broadcast} (hcall : connection s.peer s.sock r.gateway = some h)
    (hleaves : h.Leaves s.sock.out a reply news more ns) (hsound : ∀ q ∈ a, q.Sound)
    (hcarried : ∀ b ∈ news, b.Carried h.peer) :
    ∃ s', s.photos port r = some s' ∧
      s.Served s' own (Member.tell port r.online { v with album := a } news).1 reply
        (Member.tell port r.online { v with album := a } news).2 more ns := by
  obtain ⟨ring, hnews, hring⟩ := @broadcasts_tell port r.online own hself news
    { s with peer := h.peer, sock := h.sock } { v with album := a } hk.ring hk.known hcarried
  refine ⟨{ s with
      peer := h.peer
      sock := h.sock
      ring := ring
      sent := s.sent ++ (Member.tell port r.online { v with album := a } news).2 }, ?_, ?_⟩
  · rw [Serving.photos, hcall, Option.bind_eq_bind, Option.bind_some, hleaves.news]
    exact hnews
  · have halbum := tell_album port r.online news { v with album := a }
    have hothers := tell_others port r.online news { v with album := a }
    exact ⟨⟨halbum ▸ hleaves.album, hring, halbum ▸ hsound, fun K hK => hk.known K (hothers K hK),
      hleaves.ready⟩, hleaves.accepted, rfl, hleaves.bytes, hleaves.framed⟩

-- What a message leaves that is only read and sets the ring.
theorem read_serves {ring : Process} {w : Member} (halbum : w.album = v.album)
    (hring : ring.Holds (own :: w.others)) (hknown : ∀ K ∈ w.others, Identity K) {c : Conn}
    (hb : c.bytes = more) (hframed : Framed c ns) :
    s.Served { s with ring := ring, sock := ⟨s.sock.out, c⟩ } own w [] [] more ns where
  keeps := ⟨halbum ▸ hk.album, hring, halbum ▸ hk.sound, hknown, hk.ready⟩
  accepted := by simp
  sent := by simp
  bytes := hb
  framed := hframed

theorem known_append {K : DataR} (hK : Identity K) : ∀ k ∈ v.others ++ [K], Identity k := by
  intro k hk'
  rcases List.mem_append.mp hk' with hmem | hmem
  · exact hk.known k hmem
  · exact List.mem_singleton.mp hmem ▸ hK

-- A peer that introduces itself comes last.
theorem registers {K : DataR} (hK : Identity K) {buff m : MessagePhoto} {type : Int32}
    (hm : MessagePhoto.fill buff (identityText K) type = some m) :
    ∃ ring, registerPeer s.ring m.text = some ring ∧ ring.Holds (own :: (v.others ++ [K])) := by
  have hsame := identityText_eq hK
  have htext := (MessagePhoto.text_of_fill (hsame ▸ nul_notMem_peerIdText hK) hm).1
  obtain ⟨ring, happend, hring⟩ := append_holds hk.ring K
  refine ⟨ring, ?_, hring⟩
  rw [htext, hsame, registerPeer_text hK]
  exact happend

theorem handle_serves {d : Delivery} (hd : d.Valid own v) {m : MessagePhoto}
    (hm : MessagePhoto.fill d.buff d.message.text d.message.type = some m)
    (hb : s.sock.conn.bytes = m.stream ++ (d.message.content d.photoBuff ++ more))
    (hframed : Framed s.sock.conn (d.message.reads ++ ns)) :
    ∃ s', s.handle port d.round m ⟨s.sock.out, (recvAndUnstreamPhoto s.sock.conn).conn⟩ =
        some (s', d.message.ends) ∧
      s.Served s' own
        (Member.tell port d.round.online (v.handle d.round d.message).1
          (v.handle d.round d.message).2.2).1
        (v.handle d.round d.message).2.1
        (Member.tell port d.round.online (v.handle d.round d.message).1
          (v.handle d.round d.message).2.2).2 more ns := by
  obtain ⟨message, r, buff, photoBuff⟩ := d
  obtain ⟨hvalid, hfits, hself, -⟩ := hd
  have htype : m.type = message.type := MessagePhoto.type_of_fill hm
  -- What is left of the connection after a message nothing follows.
  have hread : message.content photoBuff = [] → message.reads = [MESSAGE_PHOTO_SIZE] →
      (recvAndUnstreamPhoto s.sock.conn).conn.bytes = more ∧
        Framed (recvAndUnstreamPhoto s.sock.conn).conn ns := by
    intro hcontent hreads
    rw [hcontent, List.nil_append] at hb
    rw [hreads] at hframed
    obtain ⟨-, -, hrest, hns⟩ := recvAndUnstreamPhoto_framed s.sock.conn m more ns hb hframed
    exact ⟨hrest, hns⟩
  cases message with
  | request q =>
      obtain ⟨⟨hq, hcount⟩, hupload⟩ := hvalid
      have htext := (MessagePhoto.text_of_fill (Request.nul_notMem_text hq) hm).1
      obtain ⟨h, hcall, hleaves⟩ := request_leaves hk.album hk.ready hq hcount
        (fun id name bytes h => (hupload id name bytes h).1) htext htype hb hframed
      obtain ⟨s', hphotos, hserved⟩ := photos_serve port hk hself hcall hleaves
        (sound_step hk.sound hq hfits) (news_carried hleaves.album hfits
          (fun id name bytes h => (hupload id name bytes h).2) _)
      exact ⟨s', by rw [handle_photos (htype ▸ q.type_mem), hphotos]; rfl, hserved⟩
  | refused name size =>
      obtain ⟨hname, hid⟩ := hvalid
      have hnul : 0 ∉ name ++ 44 :: decimal size := by simp [hname.2.2, nul_notMem_decimal]
      have htext := (MessagePhoto.text_of_fill hnul hm).1
      obtain ⟨h, hcall, hleaves⟩ := refused_leaves hk.album hk.ready hname hid htext htype hb hframed
      obtain ⟨s', hphotos, hserved⟩ :=
        photos_serve port hk hself hcall hleaves hk.sound (fun b hb => absurd hb List.not_mem_nil)
      exact ⟨s', by rw [handle_photos (by simp [htype, Incoming.type]), hphotos]; rfl, hserved⟩
  | register K =>
      obtain ⟨hrest, hns⟩ := hread rfl rfl
      have h7 : m.type.toInt = 7 := by rw [htype]; rfl
      obtain ⟨ring, hcall, hring⟩ := registers hk hvalid hm
      refine ⟨_, ?_, read_serves hk (w := { v with others := v.others ++ [K] }) rfl hring
        (known_append hk hvalid) hrest hns⟩
      simp only [Serving.handle, h7, hcall, Option.bind_eq_bind, Option.bind_some]
      rfl
  | newcomer K =>
      obtain ⟨hidentity, hheaders⟩ := hvalid
      obtain ⟨hrest, hns⟩ := hread rfl rfl
      have h8 : m.type.toInt = 8 := by rw [htype]; rfl
      obtain ⟨ring, hcall, hring⟩ := registers hk hidentity hm
      obtain ⟨out, hsend, hacc, hready⟩ :=
        sendAllPhotos_album hk.album hk.sound hheaders hk.ready r.buffs
      refine ⟨{ s with ring := ring, sock := ⟨out, (recvAndUnstreamPhoto s.sock.conn).conn⟩ }, ?_, ?_⟩
      · simp only [Serving.handle, h8, hcall, hsend, Option.bind_eq_bind, Option.bind_some]
        rfl
      · exact ⟨⟨hk.album, hring, hk.sound, known_append hk hidentity, hready⟩, hacc,
          (List.append_nil _).symm, hrest, hns⟩
  | replicate q =>
      obtain ⟨hid, hsound, hheader, hkeywords⟩ := hvalid
      obtain ⟨h, hcall, hleaves⟩ := replicate_leaves hk.album r.gateway hk.ready hid hsound
        hheader hkeywords photoBuff htype hb hframed
      have hall : ∀ p ∈ v.album ++ [q], p.Sound := by
        intro p hp
        rcases List.mem_append.mp hp with hp | hp
        · exact hk.sound p hp
        · exact List.mem_singleton.mp hp ▸ hsound
      obtain ⟨s', hphotos, hserved⟩ :=
        photos_serve port hk hself hcall hleaves hall (fun b hb => absurd hb List.not_mem_nil)
      exact ⟨s', by rw [handle_photos (by simp [htype, Incoming.type]), hphotos]; rfl, hserved⟩
  | keyword id word =>
      have hnul : 0 ∉ addKeywordText id word := by
        simp [addKeywordText, hvalid.2.1, nul_notMem_decimal]
      have htext := (MessagePhoto.text_of_fill hnul hm).1
      obtain ⟨h, hcall, hleaves⟩ :=
        keyword_leaves hk.album r.gateway hk.ready hvalid htext htype hb hframed
      obtain ⟨s', hphotos, hserved⟩ := photos_serve port hk hself hcall hleaves
        (sound_addKeyword hk.sound hvalid hfits) (fun b hb => absurd hb List.not_mem_nil)
      exact ⟨s', by rw [handle_photos (by simp [htype, Incoming.type]), hphotos]; rfl, hserved⟩
  | delete id =>
      have htext := (MessagePhoto.text_of_fill (nul_notMem_decimal _) hm).1
      obtain ⟨h, hcall, hleaves⟩ :=
        delete_leaves hk.album r.gateway hk.ready htext htype hb hframed
      obtain ⟨s', hphotos, hserved⟩ := photos_serve port hk hself hcall hleaves
        (fun q hq => hk.sound q (List.mem_of_mem_filter hq)) (fun b hb => absurd hb List.not_mem_nil)
      exact ⟨s', by rw [handle_photos (by simp [htype, Incoming.type]), hphotos]; rfl, hserved⟩
  | remove K =>
      obtain ⟨hidentity, hne⟩ := hvalid
      obtain ⟨hrest, hns⟩ := hread rfl rfl
      have h12 : m.type.toInt = 12 := by rw [htype]; rfl
      have htext := (MessagePhoto.text_of_fill (nul_notMem_peerIdText hidentity) hm).1
      obtain ⟨ring, hremove, hring⟩ := remove_holds hk.ring K
      rw [List.erase_cons_tail (by simpa using Ne.symm hne)] at hring
      have hcall : deletePeer r.held s.ring m.text = some ring := by
        rw [htext]
        exact (deletePeer_text hidentity r.held s.ring).trans hremove
      refine ⟨_, ?_, read_serves hk (w := { v with others := v.others.erase K }) rfl hring
        (fun k hk' => hk.known k (List.mem_of_mem_erase hk')) hrest hns⟩
      simp only [Serving.handle, h12, hcall, Option.bind_eq_bind, Option.bind_some]
      rfl
  | unknown text type =>
      obtain ⟨hrest, hns⟩ := hread rfl rfl
      have hother : m.type.toInt < -2 ∨ m.type.toInt = 0 ∨ 12 < m.type.toInt := htype ▸ hvalid
      refine ⟨_, ?_, read_serves hk rfl hk.ring hk.known hrest hns⟩
      unfold Serving.handle
      split
      all_goals first | omega | rfl
  | leave text =>
      obtain ⟨hrest, hns⟩ := hread rfl rfl
      have hminus : m.type.toInt = -1 := by rw [htype]; rfl
      exact ⟨_, by simp only [Serving.handle, hminus]; rfl,
        read_serves hk rfl hk.ring hk.known hrest hns⟩
  | gatewayOffline text =>
      obtain ⟨hrest, hns⟩ := hread rfl rfl
      have hminus : m.type.toInt = -2 := by rw [htype]; rfl
      exact ⟨_, by simp only [Serving.handle, hminus]; rfl,
        read_serves hk rfl hk.ring hk.known hrest hns⟩

theorem check_serves {r : Surroundings} (hself : r.online own = true)
    (hunbroken : r.errno ≠ .epipe) (hb : s.sock.conn.bytes = more)
    (hframed : Framed s.sock.conn ns) :
    ∃ s', s.check port r = some (s', r.ends) ∧
      s.Served s' own (v.tell port r.online (alarm r.ends)).1 []
        (v.tell port r.online (alarm r.ends)).2 more ns := by
  have hsame : s.Served s own v [] [] more ns := ⟨hk, by simp, by simp, hb, hframed⟩
  cases herrno : r.errno with
  | none => exact ⟨s, by simp [Serving.check, checkGWState, checkErrno, herrno, Surroundings.ends], by
      simpa [Surroundings.ends, herrno, alarm, Member.tell] using hsame⟩
  | other => exact ⟨s, by simp [Serving.check, checkGWState, checkErrno, herrno, Surroundings.ends], by
      simpa [Surroundings.ends, herrno, alarm, Member.tell] using hsame⟩
  | epipe => exact absurd herrno hunbroken
  | eagain =>
      have hcarried : Broadcast.Carried s.peer ⟨[], -2, none⟩ := ⟨by decide, rfl⟩
      obtain ⟨ring, hbroadcast, hring⟩ := broadcast_tells port hself hk.ring hk.known hcarried
      have hends : r.ends = some .shutDown := by rw [Surroundings.ends, herrno]
      rw [hends]
      refine ⟨_, by simp [Serving.check, checkGWState, checkErrno, herrno, hbroadcast]; rfl, ?_⟩
      refine ⟨⟨hk.album, hring, hk.sound, fun K hK => hk.known K (List.mem_of_mem_filter hK), hk.ready⟩,
        by simp, ?_, hb, hframed⟩
      simp [alarm, Member.tell]

end Turn

theorem Serving.Served.trans {s s' s'' : Serving} {own : DataR} {v v' : Member}
    {reply reply' more more' : List Byte} {sent sent' : List Transmission} {ns ns' : List Nat}
    (h : s.Served s' own v reply sent more ns) (h' : s'.Served s'' own v' reply' sent' more' ns') :
    s.Served s'' own v' (reply ++ reply') (sent ++ sent') more' ns' where
  keeps := h'.keeps
  accepted := by rw [h'.accepted, h.accepted, List.append_assoc]
  sent := by rw [h'.sent, h.sent, List.append_assoc]
  bytes := h'.bytes
  framed := h'.framed

-- Once nothing more comes the thread closes its end.
theorem turn_closed (port : Int32) (r : Surroundings) {s : Serving} (hb : s.sock.conn.bytes = []) :
    ∃ sock, s.turn port r = some ({ s with sock := sock }, some .closed) := by
  refine ⟨⟨s.sock.out, (recvAndUnstreamPhoto s.sock.conn).conn⟩, ?_⟩
  obtain ⟨hgot, -, hout⟩ :=
    recvAll_outcome MESSAGE_PHOTO_SIZE s.sock.conn (by decide) (by decide)
  have hnone : (recvAll s.sock.conn MESSAGE_PHOTO_SIZE).stored.length = 0 := by
    rw [hb] at hgot
    simp [(List.append_eq_nil_iff.mp hgot).1]
  have hsize : 0 < MESSAGE_PHOTO_SIZE := by decide
  have hall : (recvAll s.sock.conn MESSAGE_PHOTO_SIZE).ret = s.sock.conn.ending.nbytes := by
    rcases hout with ⟨-, hret, -⟩ | ⟨hlength, -⟩ | ⟨hlength, -⟩
    · exact hret
    · omega
    · omega
  have hret : (recvAndUnstreamPhoto s.sock.conn).ret ≤ 0 := by
    cases hending : s.sock.conn.ending <;>
      simp [recvAndUnstreamPhoto, hall, hending, Ending.nbytes]
  simp only [Serving.turn, if_pos hret]

section Serve

variable (port : Int32) {own : DataR} {v : Member} {s : Serving} (hk : s.Keeps own v)
  {more : List Byte} {ns : List Nat}

include hk

-- One message, one turn.
theorem turn_serves {d : Delivery} (hd : d.Valid own v) (hb : s.sock.conn.bytes = d.stream ++ more)
    (hframed : Framed s.sock.conn (d.message.reads ++ ns)) :
    ∃ s', s.turn port d.round = some (s', d.ending) ∧
      s.Served s' own (v.step port d).1 (v.step port d).2.1 (v.step port d).2.2 more ns := by
  obtain ⟨m, hm⟩ := MessagePhoto.exists_fill hd.fits d.buff d.message.type
  have hstream : d.stream = m.stream ++ d.message.content d.photoBuff := by
    rw [Delivery.stream, hm]
    rfl
  rw [hstream, List.append_assoc] at hb
  have hreads : d.message.reads = MESSAGE_PHOTO_SIZE :: d.message.reads.tail := by
    obtain ⟨message, r, buff, photoBuff⟩ := d
    cases message with
    | request q => cases q <;> rfl
    | _ => rfl
  have hfirst := hframed
  rw [hreads, List.cons_append] at hfirst
  obtain ⟨hret, hbuff, -, -⟩ := recvAndUnstreamPhoto_framed s.sock.conn m _ _ hb hfirst
  obtain ⟨s1, hhandle, hserved⟩ := handle_serves port hk hd hm hb hframed
  have hpositive : ¬(recvAndUnstreamPhoto s.sock.conn).ret ≤ 0 := by rw [hret]; decide
  have hturn : s.turn port d.round = d.message.ends.elim (s1.check port d.round)
      (fun ended => some (s1, some ended)) := by
    simp only [Serving.turn, if_neg hpositive, hbuff, hhandle, Option.bind_eq_bind, Option.bind_some]
    cases d.message.ends <;> rfl
  rw [hturn]
  cases hends : d.message.ends with
  | some ended =>
      have hending : d.ending = some ended := by rw [Delivery.ending, hends]
      have halarm : alarm (some ended) = [] := if_neg (hends ▸ d.message.ends_ne_shutDown)
      refine ⟨s1, by rw [hending, Option.elim_some], ?_⟩
      simpa only [Member.step, hending, halarm, List.append_nil] using hserved
  | none =>
      have hending : d.ending = d.round.ends := by rw [Delivery.ending, hends]
      obtain ⟨s2, hcheck, hlast⟩ :=
        check_serves port hserved.keeps hd.self hd.unbroken hserved.bytes hserved.framed
      refine ⟨s2, by rw [hending]; exact hcheck, ?_⟩
      simpa only [Member.step, hending, tell_append, List.append_nil] using hserved.trans hlast

-- A peer that is sent messages, whoever sends them and whatever they are about, does what
-- these mean one after the other, up to the first that ends the connection.
theorem serve_refines {ds : List Delivery} (hds : ValidCourse own port v ds)
    (hb : s.sock.conn.bytes = ds.flatMap Delivery.stream)
    (hframed : Framed s.sock.conn (ds.flatMap (fun d => d.message.reads))) :
    ∃ s', s.serve port (ds.map Delivery.round) = some (s', (v.run port ds).ended) ∧
      s.Served s' own (v.run port ds).member (v.run port ds).replies (v.run port ds).sent
        ((v.run port ds).unread.flatMap Delivery.stream)
        ((v.run port ds).unread.flatMap (fun d => d.message.reads)) ∧
      ((v.run port ds).ended = none → ∀ r, ∃ sock, s'.turn port r =
        some ({ s' with sock := sock }, some .closed)) := by
  induction ds generalizing s v with
  | nil => exact ⟨s, rfl, ⟨hk, by simp [Member.run], by simp [Member.run], hb, hframed⟩,
      fun _ r => turn_closed port r hb⟩
  | cons d rest ih =>
      obtain ⟨hd, hrest⟩ := hds
      rw [List.flatMap_cons] at hb hframed
      obtain ⟨s1, hturn, hserved⟩ := turn_serves port hk hd hb hframed
      rw [List.map_cons, Serving.serve, hturn, Option.bind_eq_bind, Option.bind_some]
      cases hending : d.ending with
      | some ended =>
          have hrun : v.run port (d :: rest) = ⟨(v.step port d).1, (v.step port d).2.1,
              (v.step port d).2.2, some ended, rest⟩ := by
            simp only [Member.run, hending]
          rw [hrun]
          exact ⟨s1, rfl, hserved, by simp⟩
      | none =>
          obtain ⟨s', hserve, hserved', hclosed⟩ :=
            ih hserved.keeps (hrest hending) hserved.bytes hserved.framed
          have hrun : v.run port (d :: rest) = { (v.step port d).1.run port rest with
              replies := (v.step port d).2.1 ++ ((v.step port d).1.run port rest).replies
              sent := (v.step port d).2.2 ++ ((v.step port d).1.run port rest).sent } := by
            simp only [Member.run, hending]
          rw [hrun]
          exact ⟨s', hserve, hserved.trans hserved', hclosed⟩

end Serve

-- Peer 3001, which knows of peer 3002, is sent photo 7 by it; a client gives the photo a keyword
-- and peer 3003 joins. For the next photo the gateway does not answer.
def fourMessages : List Delivery :=
  let up (errno : Errno) (gateway : GatewayReply) : Surroundings :=
    ⟨gateway, fun _ => true, errno, fun _ => blankMessage, ⟨[], 0⟩⟩
  [⟨.replicate ⟨7, [97], [], [1, 2]⟩, up .none .timeout, blankMessage, blankMessage⟩,
    ⟨.request (.addKeyword 7 [98]), up .other .timeout, blankMessage, blankMessage⟩,
    ⟨.newcomer ⟨[49], 3003⟩, up .none .timeout, blankMessage, blankMessage⟩,
    ⟨.refused [99] 5, up .eagain .timeout, blankMessage, blankMessage⟩]

theorem serve_refines_fourMessages :
    ∃ s s' : Serving, s.sent = [] ∧
      s.serve 3001 (fourMessages.map Delivery.round) = some (s', some .shutDown) ∧
      s'.sent = [.message ⟨[49], 3002⟩ [55, 46, 98] 10, .message ⟨[49], 3002⟩ [] (-2),
        .message ⟨[49], 3003⟩ [] (-2)] ∧
      Represents s'.peer [⟨7, [97], [[98]], [1, 2]⟩] := by
  obtain ⟨ring, -, hring⟩ := recvRingUdp_start [⟨[49], 3001⟩, ⟨[49], 3002⟩]
  let conn : Conn := ⟨fourMessages.flatMap Delivery.stream,
    fourMessages.flatMap (fun d => d.message.reads), .closed⟩
  let s : Serving := ⟨⟨[], fun _ => none⟩, ring, ⟨⟨[], []⟩, conn⟩, []⟩
  have hkeeps : s.Keeps ⟨[49], 3001⟩ ⟨[], [⟨[49], 3002⟩]⟩ :=
    ⟨⟨rfl, by simp, Album.wellFormed_nil⟩, hring, by simp, fun K hK => List.mem_singleton.mp hK ▸
      ⟨by decide, by decide, by decide, by decide, by decide, by decide⟩, by simp [s, Out.Ready]⟩
  have hframed : Framed conn (fourMessages.flatMap (fun d => d.message.reads)) := by
    apply framed_exact
    · decide +kernel
    · decide +kernel
  have hvalid : ValidCourse ⟨[49], 3001⟩ 3001 ⟨[], [⟨[49], 3002⟩]⟩ fourMessages := by
    have hidentity : Identity ⟨[49], 3003⟩ :=
      ⟨by decide, by decide, by decide, by decide, by decide, by decide⟩
    have hsound : Photo.Sound ⟨7, [97], [], [1, 2]⟩ :=
      ⟨by decide, by decide, fun k hk => absurd hk List.not_mem_nil⟩
    have hword : (Request.addKeyword 7 [98]).Valid [] :=
      ⟨by decide, by decide, fun b hb => List.mem_singleton.mp hb ▸ rfl⟩
    refine ⟨⟨⟨by decide, hsound, ?_, by decide, by decide⟩, by decide, rfl, by decide⟩,
      fun _ => ⟨⟨⟨⟨hword, trivial⟩, ?_⟩, ?_, rfl, by decide⟩,
      fun _ => ⟨⟨⟨hidentity, ?_⟩, ?_, rfl, by decide⟩,
      fun _ => ⟨⟨⟨by decide, ?_⟩, by decide +kernel, rfl, by decide⟩, fun h => absurd h (by decide)⟩⟩⟩⟩
    · exact (by decide +kernel : (photoHeaderText ⟨[97], 7, []⟩ 2).length < MAX_SIZE)
    · intro id name bytes h
      cases h
    · exact (by decide +kernel : (addKeywordText 7 [98]).length < MAX_SIZE)
    · exact (by decide +kernel : ∀ q ∈ [Photo.mk 7 [97] [[98]] [1, 2]],
        (photoHeaderText q.data q.bytes.length).length < MAX_SIZE)
    · exact (by decide +kernel : (identityText ⟨[49], 3003⟩).length < MAX_SIZE)
    · intro id h
      cases h
  obtain ⟨s', hserve, hserved, -⟩ := serve_refines 3001 hkeeps hvalid rfl hframed
  have hended : (Member.run 3001 ⟨[], [⟨[49], 3002⟩]⟩ fourMessages).ended = some .shutDown := by
    decide +kernel
  have hsent : (Member.run 3001 ⟨[], [⟨[49], 3002⟩]⟩ fourMessages).sent =
      [.message ⟨[49], 3002⟩ [55, 46, 98] 10, .message ⟨[49], 3002⟩ [] (-2),
        .message ⟨[49], 3003⟩ [] (-2)] := by
    decide +kernel
  rw [hended] at hserve
  exact ⟨s, s', rfl, hserve, hserved.sent.trans hsent, hserved.keeps.album⟩

end Gallery
