import Gallery.Library.Replies
import Gallery.Peer.Theorems
import Gallery.Transition
import Mathlib.Data.List.TakeWhile

namespace Gallery

open Bytes Text

-- A call of the library and the peer's handling of its request: each side gets all the
-- other one sends, and nothing else.
def Exchange {ρ : Type} (call : Sock → Option (ρ × Sock)) (p : Peer) (r : ρ) (q : Peer) : Prop :=
  ∃ (c c' s : Sock) (gateway : GatewayReply) (h : Handled) (request reply : List Byte),
    (c.out.Ready ∧ c.conn.Whole ∧ c.conn.bytes = reply) ∧
    (s.out.Ready ∧ s.conn.Whole ∧ s.conn.bytes = request) ∧
    (call c = some (r, c') ∧ c'.out.accepted = c.out.accepted ++ request) ∧
    connection p s gateway = some h ∧ h.sock.out.accepted = s.out.accepted ++ reply ∧ h.peer = q

section AddKeyword

variable {buff : MessagePhoto} {success : Int32} {id : UInt32} {keyword : CString}

theorem addKeywordText_noNul (hnul : 0 ∉ keyword) : 0 ∉ addKeywordText id keyword := by
  simp [addKeywordText, hnul, nul_notMem_decimal]

-- `%u` and the dot take what the library put before the keyword; `%s` takes a word of it.
theorem sscanfKeyword_word (id : UInt32) (keyword : CString) :
    sscanfKeyword (addKeywordText id keyword) = (scanWord keyword).map (fun w => (id, w.1)) := by
  simp only [sscanfKeyword, addKeywordText, scanUInt_decimal id _ (stops_cons isDigit 46 _ (by decide)),
    scanLiteral_cons, Option.bind_eq_bind, Option.bind_some]
  cases scanWord keyword <;> rfl

-- The answer is one `int`, taken with one `recv`.
theorem galleryAddKeyword_whole {c : Sock} {out : Out} {answer : Int32}
    (hsent : Sent c buff (addKeywordText id keyword) 2 out) (hc : c.conn.Whole)
    (hb : c.conn.bytes = intBytes answer) :
    galleryAddKeyword c buff success id keyword = some (answer, ⟨out, (recv c.conn 4).conn⟩) := by
  have hne : c.conn.bytes ≠ [] := List.ne_nil_of_length_pos (by simp [hb])
  have htaken : c.conn.taken 4 = 4 := by
    simp [Conn.taken, Conn.available, show c.conn.chunks = [] from hc, hb]
  have hstored : (recv c.conn 4).stored = intBytes answer := by
    rw [recv_cons _ _ hne, htaken, hb, List.take_of_length_le (by simp)]
  have hret : ¬ (recv c.conn 4).ret = -1 := by
    rw [recv_cons _ _ hne, htaken]
    change ¬ ((4 : Nat) : Int) = -1
    decide
  rw [galleryAddKeyword, requestInt_sent _ _ _ _ _ _ _ hsent, if_neg hret, hstored,
    overlay_of_length_le _ _ (by simp), intOfBytes_intBytes]

-- What the exchange comes to: the first word of the keyword is inserted.
theorem exchange_addKeyword (hnul : 0 ∉ keyword)
    (hfits : (addKeywordText id keyword).length < MAX_SIZE) (p : Peer) (r : Int32) (q : Peer) :
    Exchange (fun c => galleryAddKeyword c buff success id keyword) p r q ↔
      ∃ w, scanWord keyword = some w ∧ insertKeyword p id w.1 = (r, q) := by
  obtain ⟨m, hm⟩ := MessagePhoto.exists_fill hfits buff 2
  obtain ⟨htext, htype⟩ := MessagePhoto.text_of_fill (addKeywordText_noNul hnul) hm
  have htwo : (2 : Int32).toInt = 2 := by decide
  constructor
  · rintro ⟨c, c', s, gateway, h, request, reply, ⟨hc, hwhole, hreply⟩, ⟨hs, hwhole', hrequest⟩,
      ⟨hcall, hacc⟩, hconn, hanswer, rfl⟩
    obtain ⟨out, hsent, hout⟩ := sent_of_fill hm hc
    simp only at hcall
    have hsame : c'.out = out := by
      rw [galleryAddKeyword, requestInt_sent _ _ _ _ _ _ _ hsent] at hcall
      obtain ⟨-, rfl⟩ := Prod.mk.inj (Option.some.inj hcall)
      rfl
    rw [hsame, hout] at hacc
    obtain rfl := List.append_cancel_left hacc
    obtain ⟨hbuff, -, -⟩ := recvAndUnstreamPhoto_whole (m := m) hwhole' (by rw [hrequest, List.append_nil])
    have hadd : addKeyword p ⟨s.out, (recvAndUnstreamPhoto s.conn).conn⟩ m = some h := by
      rw [← hconn]
      simp [connection, hbuff, htype, htwo]
    obtain ⟨id', w, hscan, hpeer, hsock⟩ := addKeyword_some hadd
    rw [htext, sscanfKeyword_word] at hscan
    obtain ⟨w', hw, he⟩ := Option.map_eq_some_iff.mp hscan
    obtain ⟨rfl, rfl⟩ := Prod.mk.inj he
    have hint := (sendAll_ready s.out (intBytes (insertKeyword p id w'.1).1)
      (List.ne_nil_of_length_pos (by simp)) hs).2.1
    rw [hsock (by rw [htype]; decide), hint] at hanswer
    obtain rfl := List.append_cancel_left hanswer
    rw [galleryAddKeyword_whole hsent hwhole hreply] at hcall
    obtain ⟨rfl, -⟩ := Prod.mk.inj (Option.some.inj hcall)
    exact ⟨w', hw, by rw [hpeer]⟩
  · rintro ⟨w, hw, hinsert⟩
    have hready : Out.Ready ⟨[], []⟩ := by simp [Out.Ready]
    let c : Sock := ⟨⟨[], []⟩, ⟨intBytes r, [], .closed⟩⟩
    let s : Sock := ⟨⟨[], []⟩, ⟨m.stream, [], .closed⟩⟩
    obtain ⟨out, hsent, hout⟩ := sent_of_fill (c := c) hm hready
    obtain ⟨hbuff, -, -⟩ := recvAndUnstreamPhoto_whole (c := s.conn) (m := m) rfl (List.append_nil _).symm
    have hint := (sendAll_ready ⟨[], []⟩ (intBytes r) (List.ne_nil_of_length_pos (by simp)) hready).2.1
    have hten : ¬ (2 : Int32) = 10 := by decide
    refine ⟨c, _, s, .notSent, ⟨q, ⟨(sendAll ⟨[], []⟩ (intBytes r)).2,
      (recvAndUnstreamPhoto s.conn).conn⟩, if r = 1 then [⟨m.text, 10, none⟩] else []⟩, m.stream,
      intBytes r, ⟨hready, rfl, rfl⟩, ⟨hready, rfl, rfl⟩,
      ⟨galleryAddKeyword_whole hsent rfl rfl, hout⟩, ?_, hint, rfl⟩
    simp only [connection, hbuff, Option.bind_eq_bind, Option.bind_some, htype, htwo, addKeyword, htext,
      sscanfKeyword_word, hw, Option.map_some, hinsert, if_neg hten]
    rfl

end AddKeyword

section Search

variable {buff : MessagePhoto} {heap : Nat → Byte} {keyword : CString}

theorem gallerySearchPhoto_out {c : Sock} {out : Out} {res : SearchResult}
    (hsent : Sent c buff keyword 3 out) (h : gallerySearchPhoto c buff heap keyword = some res) :
    res.sock.out = out := by
  unfold Sent at hsent
  simp only [gallerySearchPhoto, hsent, Option.bind_eq_bind, Option.bind_some] at h
  rw [if_neg (by decide)] at h
  repeat' split at h
  all_goals
    obtain rfl := Option.some.inj h
    rfl

-- What the peer sends and what the library makes of it are the ids of the hits.
theorem exchange_searchPhoto (hnul : 0 ∉ keyword) (hfits : keyword.length < MAX_SIZE) (p : Peer)
    (hcount : (hitIds p keyword).length < 2 ^ 31) :
    (∃ r q, Exchange (fun c => (gallerySearchPhoto c buff heap keyword).map (fun r => (r, r.sock)))
      p r q) ∧
    ∀ r q, Exchange (fun c => (gallerySearchPhoto c buff heap keyword).map (fun r => (r, r.sock)))
      p r q → r.id_photos = hitIds p keyword ∧ q = p := by
  obtain ⟨m, hm⟩ := MessagePhoto.exists_fill hfits buff 3
  obtain ⟨htext, htype⟩ := MessagePhoto.text_of_fill hnul hm
  have hthree : (3 : Int32).toInt = 3 := by decide
  let r : SearchReply := ⟨hitIds p keyword, hcount⟩
  -- The client's side, whatever else its connection has been used for.
  have hclient : ∀ (c : Sock) (out : Out), Sent c buff keyword 3 out → c.conn.Whole →
      c.conn.bytes = r.stream →
      ∃ res, gallerySearchPhoto c buff heap keyword = some res ∧ res.id_photos = hitIds p keyword := by
    intro c out hsent hwhole hb
    have havail : c.conn.available = 4 + 4 * r.ids.length := by
      simp [Conn.available, show c.conn.chunks = [] from hwhole, hb, r.length_stream]
    have hafter : (c.conn.after 4).available = 4 * r.ids.length := by
      simp [Conn.available, Conn.after, show c.conn.chunks = [] from hwhole, hb, r.length_stream]
    obtain ⟨res, hres, hret⟩ := (gallerySearchPhoto_full c buff keyword out r hsent hb).mpr
      ⟨by omega, Or.inr (by omega)⟩ heap
    rw [if_pos hb] at hret
    exact ⟨res, hres, hret.2.1⟩
  constructor
  · have hready : Out.Ready ⟨[], []⟩ := by simp [Out.Ready]
    let c : Sock := ⟨⟨[], []⟩, ⟨r.stream, [], .closed⟩⟩
    let s : Sock := ⟨⟨[], []⟩, ⟨m.stream, [], .closed⟩⟩
    obtain ⟨out, hsent, hout⟩ := sent_of_fill (c := c) hm hready
    obtain ⟨res, hres, -⟩ := hclient c out hsent rfl rfl
    obtain ⟨hbuff, -, -⟩ := recvAndUnstreamPhoto_whole (c := s.conn) (m := m) rfl (List.append_nil _).symm
    obtain ⟨out', hsearch, -, hacc⟩ := searchPhoto_reply (p := p) (m := m)
      (s := ⟨s.out, (recvAndUnstreamPhoto s.conn).conn⟩) hready (htext.symm ▸ hcount)
    rw [htext] at hacc
    refine ⟨res, p, c, res.sock, s, .notSent, ⟨p, ⟨out', (recvAndUnstreamPhoto s.conn).conn⟩, []⟩,
      m.stream, r.stream, ⟨hready, rfl, rfl⟩, ⟨hready, rfl, rfl⟩,
      ⟨by simp [hres], by rw [gallerySearchPhoto_out hsent hres, hout]⟩, ?_, hacc, rfl⟩
    simp [connection, hbuff, htype, hthree, hsearch]
  · rintro res q ⟨c, c', s, gateway, h, request, reply, ⟨hc, hwhole, hreply⟩, ⟨hs, hwhole', hrequest⟩,
      ⟨hcall, hacc⟩, hconn, hanswer, rfl⟩
    obtain ⟨out, hsent, hout⟩ := sent_of_fill hm hc
    obtain ⟨res', hres', he⟩ := Option.map_eq_some_iff.mp hcall
    obtain ⟨rfl, rfl⟩ := Prod.mk.inj he
    rw [gallerySearchPhoto_out hsent hres', hout] at hacc
    obtain rfl := List.append_cancel_left hacc
    obtain ⟨hbuff, -, -⟩ := recvAndUnstreamPhoto_whole (m := m) hwhole' (by rw [hrequest, List.append_nil])
    obtain ⟨out', hsearch, -, hacc'⟩ := searchPhoto_reply (p := p) (m := m)
      (s := ⟨s.out, (recvAndUnstreamPhoto s.conn).conn⟩) hs (htext.symm ▸ hcount)
    have hhandled : h = ⟨p, ⟨out', (recvAndUnstreamPhoto s.conn).conn⟩, []⟩ := by
      simp only [connection, hbuff, Option.bind_eq_bind, Option.bind_some, htype, hthree, hsearch,
        Option.some.injEq] at hconn
      exact hconn.symm
    subst hhandled
    rw [htext] at hacc'
    have hstream : reply = r.stream := List.append_cancel_left (hanswer.symm.trans hacc')
    obtain ⟨res', hres, hids⟩ := hclient c out hsent hwhole (hreply.trans hstream)
    obtain rfl := Option.some.inj (hres'.symm.trans hres)
    exact ⟨hids, rfl⟩

end Search

section Runs

-- A peer handles one request after the other, each on a connection of its own.
def Peer.handle (p : Peer) (request : Sock × GatewayReply) : Option Peer :=
  (connection p request.1 request.2).map Handled.peer

-- A request other than the deletion of the photo with this id.
def KeepsPhoto (id : UInt32) (_ : Peer) (request : Sock × GatewayReply) : Prop :=
  ∀ m, (recvAndUnstreamPhoto request.1.conn).buff = some m →
    m.type.toInt = 4 ∨ m.type.toInt = 11 → sscanfId m.text ≠ some id

-- A listed photo with this id carries the keyword.
def Tagged (id : UInt32) (keyword : CString) (p : Peer) : Prop :=
  ∃ q ∈ p.photo_list, q.id = id ∧ keyword ∈ q.keyword

theorem mem_hitIds {p : Peer} {id : UInt32} {keyword : CString} :
    id ∈ hitIds p keyword ↔ Tagged id keyword p := by
  simp only [hitIds, Tagged, List.mem_map, List.mem_reverse, List.mem_filter, searchKeyword_iff,
    and_assoc]
  constructor
  · rintro ⟨q, hq, hk, hid⟩
    exact ⟨q, hq, hid, hk⟩
  · rintro ⟨q, hq, hid, hk⟩
    exact ⟨q, hq, hk, hid⟩

variable {p q : Peer} {id : UInt32} {keyword : CString}

theorem tagged_insertKeyword (h : Tagged id keyword p) (id' : UInt32) (keyword' : CString) :
    Tagged id keyword (insertKeyword p id' keyword').2 := by
  obtain ⟨d, hd, hid, hk⟩ := h
  simp only [insertKeyword]
  split
  · exact ⟨d, hd, hid, hk⟩
  · split
    · split
      · exact ⟨d, hd, hid, hk⟩
      · rcases mem_listUpdate (K := setData [] id')
          (fun d => { d with keyword := d.keyword ++ [keyword'] }) hd with hmem | hmem
        · exact ⟨_, hmem, hid, hk⟩
        · exact ⟨_, hmem, hid, List.mem_append_left _ hk⟩
    · exact ⟨d, hd, hid, hk⟩

-- Only the deletion of a photo takes a keyword off it.
theorem tagged_handle (h : Tagged id keyword p) (request : Sock × GatewayReply)
    (hkeeps : KeepsPhoto id p request) (hstep : p.handle request = some q) : Tagged id keyword q := by
  obtain ⟨handled, hconn, rfl⟩ := Option.map_eq_some_iff.mp hstep
  obtain ⟨m, hm, hcases⟩ := connection_cases hconn
  rcases hcases with hsame | ⟨photo, hnew⟩ | ⟨id', keyword', hpeer⟩ | ⟨id', htype, hscan, hlist⟩
  · obtain ⟨d, hd, hdone⟩ := h
    exact ⟨d, hsame ▸ hd, hdone⟩
  · obtain ⟨d, hd, hdone⟩ := h
    exact ⟨d, hnew ▸ List.mem_cons_of_mem photo hd, hdone⟩
  · rw [hpeer]
    exact tagged_insertKeyword h id' keyword'
  · obtain ⟨d, hd, hid, hk⟩ := h
    refine ⟨d, hlist ▸ mem_listRemove hd ?_, hid, hk⟩
    intro he
    apply hkeeps m hm htype
    rw [hscan, ← hid]
    exact congrArg some he.symm

theorem tagged_of_reaches (h : Tagged id keyword p) (hrun : Reaches Peer.handle (KeepsPhoto id) p q) :
    Tagged id keyword q :=
  hrun.invariant h (fun _ request _ ht hkeeps hstep => tagged_handle ht request hkeeps hstep)

end Runs

section Findable

variable {id : UInt32} {keyword : CString}

-- What adding a keyword is for: the peer handles the request, and if it answers 1 it has
-- stored this string, and from then on searches for it find the photo.
def Findable (id : UInt32) (keyword : CString) : Prop :=
  ∀ (p : Peer) (photo : Data) (buff : MessagePhoto) (success : Int32),
    listSearch p.photo_list (setData [] id) = some photo → photo.n_keywords < MAX_KEYWORDS →
    (∃ r q, Exchange (fun c => galleryAddKeyword c buff success id keyword) p r q) ∧
    ∀ q, Exchange (fun c => galleryAddKeyword c buff success id keyword) p 1 q →
      q.photo_list = listUpdate p.photo_list (setData [] id)
        (fun d => { d with keyword := d.keyword ++ [keyword] }) ∧
      ∀ (p' : Peer) (buff' : MessagePhoto) (heap : Nat → Byte),
        Reaches Peer.handle (KeepsPhoto id) q p' → p'.photo_list.length < 2 ^ 31 →
        let search : Sock → Option (SearchResult × Sock) :=
          fun c => (gallerySearchPhoto c buff' heap keyword).map (fun r => (r, r.sock))
        (∃ r q', Exchange search p' r q') ∧ ∀ r q', Exchange search p' r q' → id ∈ r.id_photos

theorem scanWord_noSpace {s : List Byte} {w : List Byte × List Byte} (h : scanWord s = some w) :
    ∀ b ∈ w.1, isSpace b = false := by
  simp only [scanWord] at h
  split at h
  · cases h
  · obtain rfl := Option.some.inj h
    intro b hb
    simpa using List.mem_takeWhile_imp hb

theorem insertKeyword_one {p q : Peer} {keyword : CString}
    (h : insertKeyword p id keyword = (1, q)) :
    q.photo_list = listUpdate p.photo_list (setData [] id)
      (fun d => { d with keyword := d.keyword ++ [keyword] }) ∧ Tagged id keyword q := by
  simp only [insertKeyword] at h
  split at h
  · exact absurd (Prod.mk.inj h).1 (by decide)
  · rename_i photo hfound
    split at h
    · split at h
      · exact absurd (Prod.mk.inj h).1 (by decide)
      · obtain ⟨-, rfl⟩ := Prod.mk.inj h
        have hmem := listUpdate_mem (fun d => { d with keyword := d.keyword ++ [keyword] }) hfound
        exact ⟨rfl, _, hmem, (listSearch_some _ _ _ hfound).2, by simp⟩
    · exact absurd (Prod.mk.inj h).1 (by decide)

-- A photo without keywords takes any.
theorem insertKeyword_fresh (files : CString → Option (List Byte)) (name keyword : CString) :
    insertKeyword ⟨[setData name id], files⟩ id keyword =
      (1, ⟨[{ setData name id with keyword := [keyword] }], files⟩) := by
  simp [insertKeyword, listSearch, listUpdate, equalData, setData, Data.n_keywords, MAX_KEYWORDS,
    searchKeyword]

-- A keyword is stored as it was given, and found, just when it has no white space.
theorem findable_iff (hne : keyword ≠ []) (hnul : 0 ∉ keyword)
    (hfits : (addKeywordText id keyword).length < MAX_SIZE) :
    Findable id keyword ↔ ∀ b ∈ keyword, isSpace b = false := by
  constructor
  · intro h
    have hphoto : listSearch [setData [97] id] (setData [] id) = some (setData [97] id) := by
      simp [listSearch, equalData, setData]
    obtain ⟨⟨r, q, hadd⟩, hstored⟩ := h ⟨[setData [97] id], fun _ => none⟩ _ blankMessage 0 hphoto
      (by simp [setData, Data.n_keywords, MAX_KEYWORDS])
    obtain ⟨w, hw, hinsert⟩ := (exchange_addKeyword hnul hfits _ r q).mp hadd
    rw [insertKeyword_fresh] at hinsert
    obtain ⟨rfl, rfl⟩ := Prod.mk.inj hinsert
    obtain ⟨hlist, -⟩ := hstored _ hadd
    have hsame : w.1 = keyword := by
      simpa [listUpdate, equalData, setData] using hlist
    rw [← hsame]
    exact scanWord_noSpace hw
  · intro hspace p photo buff success hphoto hroom
    have hword := scanWord_append keyword [] hne hspace (stops_nil _)
    rw [List.append_nil] at hword
    constructor
    · exact ⟨_, _, (exchange_addKeyword hnul hfits p _ _).mpr ⟨_, hword, rfl⟩⟩
    · intro q hadd
      obtain ⟨w, hw, hinsert⟩ := (exchange_addKeyword hnul hfits p 1 q).mp hadd
      obtain rfl := Option.some.inj (hword.symm.trans hw)
      obtain ⟨hlist, htagged⟩ := insertKeyword_one hinsert
      refine ⟨hlist, ?_⟩
      intro p' buff' heap hrun hcount
      have hshort : keyword.length < MAX_SIZE := by
        simp only [addKeywordText, List.length_append, List.length_cons] at hfits
        omega
      have hhits : (hitIds p' keyword).length < 2 ^ 31 := by
        have hle := List.length_filter_le (fun q => searchKeyword q keyword) p'.photo_list
        simp only [hitIds, List.length_map, List.length_reverse]
        omega
      obtain ⟨hexists, hall⟩ := exchange_searchPhoto hnul hshort p' hhits
      refine ⟨hexists, ?_⟩
      intro r q' hsearch
      rw [(hall r q' hsearch).1]
      exact mem_hitIds.mpr (tagged_of_reaches htagged hrun)

theorem findable_iff_oneWord : Findable 7 [46, 49] :=
  (findable_iff (by decide) (by decide) (by decide)).mpr
    (by simp [isSpace])

-- "a b" is stored as "a".
theorem twoWords_not_findable : ¬ Findable 7 [97, 32, 98] := by
  intro h
  have hphoto : listSearch [setData [97] 7] (setData [] 7) = some (setData [97] 7) := by decide
  have hadd : Exchange (fun c => galleryAddKeyword c blankMessage 0 7 [97, 32, 98])
      ⟨[setData [97] 7], fun _ => none⟩ 1 ⟨[{ setData [97] 7 with keyword := [[97]] }], fun _ => none⟩ :=
    (exchange_addKeyword (by decide) (by decide) _ _ _).mpr
      ⟨([97], [32, 98]), by decide, insertKeyword_fresh _ _ _⟩
  have hlist := ((h ⟨[setData [97] 7], fun _ => none⟩ _ blankMessage 0 hphoto (by decide)).2 _ hadd).1
  exact absurd hlist (by decide)

end Findable

end Gallery
