import Gallery.Album
import Gallery.Peer.Theorems

namespace Gallery

open Bytes Text

def Photo.data (q : Photo) : Data := ⟨q.name, q.id, q.keywords⟩

-- A peer that holds the album: the list in reverse, every photo in its file.
structure Represents (p : Peer) (a : Album) : Prop where
  photo_list : p.photo_list = (a.map Photo.data).reverse
  files : ∀ q ∈ a, p.files (fileName q.id) = some q.bytes
  wellFormed : a.WellFormed

-- What one handled request leaves: the peer holds the album, and the connection
-- was sent the reply and no other byte.
structure Answered (h : Handled) (out : Out) (a : Album) (reply : Reply) : Prop where
  represents : Represents h.peer a
  accepted : h.sock.out.accepted = out.accepted ++ reply.stream
  ready : h.sock.out.Ready

theorem fileName_ne_of_notMem {a : Album} (id : UInt32) (hid : id ∉ a.ids) (q : Photo) (hq : q ∈ a) :
    fileName q.id ≠ fileName id :=
  fun h => hid (fileName_injective h ▸ List.mem_map_of_mem hq)

section Represents

variable {p : Peer} {a : Album} (hp : Represents p a)

include hp

theorem Represents.ids_nodup : (p.photo_list.map Data.id).Nodup := by
  have h : p.photo_list.map Data.id = a.ids.reverse := by
    simp [hp.photo_list, Album.ids, Photo.data, Function.comp_def]
  rw [h]
  exact List.nodup_reverse.mpr hp.wellFormed.ids

theorem Represents.hitIds (keyword : CString) :
    hitIds p keyword = Album.ids (a.filter (fun q => keyword ∈ q.keywords)) := by
  rw [Gallery.hitIds, hp.photo_list, List.filter_reverse, List.reverse_reverse, List.filter_map,
    List.map_map]
  change (a.filter _).map Photo.id = _
  rw [Album.ids]
  congr 1
  apply List.filter_congr
  intro q _
  rw [Bool.eq_iff_iff, Function.comp_apply, searchKeyword_iff, decide_eq_true_eq]
  rfl

theorem Represents.mem_photo_list (q : Photo) (hq : q ∈ a) : q.data ∈ p.photo_list := by
  rw [hp.photo_list, List.mem_reverse]
  exact List.mem_map_of_mem hq

theorem Represents.listSearch (id : UInt32) :
    listSearch p.photo_list (setData [] id) = (a.lookup id).map Photo.data := by
  cases h : a.lookup id with
  | none =>
      have hid := (Album.lookup_eq_none id).mp h
      rw [Option.map_none, listSearch_none, hp.photo_list, List.map_reverse, List.mem_reverse,
        List.map_map]
      exact hid
  | some q =>
      obtain ⟨hq, hid⟩ := (Album.lookup_eq_some hp.wellFormed id q).mp h
      exact listSearch_of_mem _ _ _ hp.ids_nodup (hp.mem_photo_list q hq) hid

theorem Represents.listRemove (id : UInt32) :
    (listRemove p.photo_list (setData [] id)).1 = if id ∈ a.ids then 1 else 0 := by
  have hmem : id ∈ p.photo_list.map Data.id ↔ id ∈ a.ids := by
    simp [hp.photo_list, Album.ids, Photo.data, Function.comp_def]
  rw [listRemove_fst, setData]
  simp only [hmem]

theorem Represents.addPhoto (id : UInt32) (name : CString) (bytes : List Byte)
    (hr : (Request.addPhoto id name bytes).Valid a) :
    Represents (({ p with photo_list := setData name id :: p.photo_list } : Peer).writeFile
      (fileName id) bytes) (a.step (.addPhoto id name bytes)).1 := by
  refine ⟨?_, ?_, Album.step_wellFormed hp.wellFormed _ hr⟩
  · simp [Album.step, hp.photo_list, Photo.data, setData]
  · intro q hq
    rcases List.mem_append.mp hq with hq | hq
    · rw [Peer.writeFile_files, if_neg (fileName_ne_of_notMem id hr.2.1 q hq)]
      exact hp.files q hq
    · obtain rfl := List.mem_singleton.mp hq
      simp

theorem Represents.insertKeyword (id : UInt32) (keyword : CString) :
    (insertKeyword p id keyword).1 = (a.addKeyword id keyword).2 ∧
      Represents (insertKeyword p id keyword).2 (a.addKeyword id keyword).1 := by
  have hwf := Album.addKeyword_wellFormed hp.wellFormed id keyword
  simp only [Gallery.insertKeyword, hp.listSearch, Album.addKeyword] at hwf ⊢
  cases hq : a.lookup id with
  | none => exact ⟨rfl, hp⟩
  | some q =>
      obtain ⟨hmem, -⟩ := (Album.lookup_eq_some hp.wellFormed id q).mp hq
      have hle := (hp.wellFormed.keywords q hmem).2
      have hcount : q.data.n_keywords = q.keywords.length := rfl
      have hkeyword : q.data.keyword = q.keywords := rfl
      simp only [hq, Option.map_some, hcount, searchKeyword_iff, hkeyword] at hwf ⊢
      by_cases hfull : q.keywords.length = MAX_KEYWORDS
      · rw [if_neg (by omega), if_pos hfull]
        exact ⟨rfl, hp⟩
      · rw [if_pos (by omega), if_neg hfull]
        rw [if_neg hfull] at hwf
        by_cases hold : keyword ∈ q.keywords
        · rw [if_pos hold, if_pos hold]
          exact ⟨rfl, hp⟩
        · rw [if_neg hold, if_neg hold]
          rw [if_neg hold] at hwf
          refine ⟨rfl, ?_, ?_, hwf⟩
          · change listUpdate _ _ _ = _
            rw [listUpdate_eq_map _ _ _ hp.ids_nodup, hp.photo_list, List.map_reverse,
              List.map_map, List.map_map]
            congr 1
            apply List.map_congr_left
            intro r _
            by_cases hrid : r.id = id <;> simp [Photo.data, setData, hrid]
          · intro r hr
            obtain ⟨r', hr', rfl⟩ := List.mem_map.mp hr
            have hfile := hp.files r' hr'
            split <;> exact hfile

theorem Represents.deletePhoto (id : UInt32) :
    Represents (({ p with photo_list := p.photo_list.filter (fun q => q.id != id) } : Peer).unlink
      (fileName id)) (a.filter (fun q => q.id != id)) := by
  refine ⟨?_, ?_, Album.step_wellFormed hp.wellFormed (.deletePhoto id) trivial⟩
  · simp only [Peer.unlink_photo_list, hp.photo_list, List.filter_reverse, List.filter_map]
    rfl
  · intro q hq
    obtain ⟨hq, hne⟩ := List.mem_filter.mp hq
    have hname : fileName q.id ≠ fileName id := by
      intro h
      exact absurd (fileName_injective h) (by simpa using hne)
    rw [Peer.unlink_files, if_neg hname]
    exact hp.files q hq

end Represents

section Handlers

variable {p : Peer} {a : Album} {s : Sock} {m : MessagePhoto}
variable (hp : Represents p a) (hs : s.out.Ready)

include hp hs

theorem addPhotoClient_answered (id : UInt32) (name : CString) (bytes more : List Byte)
    (hr : (Request.addPhoto id name bytes).Valid a)
    (htext : m.text = (Request.addPhoto id name bytes).text)
    (hb : s.conn.bytes = bytes ++ more) (hframed : Framed s.conn [bytes.length]) :
    ∃ h ret, addPhotoClient p s (.id id) m.text = some (h, ret) ∧
      Answered h s.out (a.step (.addPhoto id name bytes)).1 (.id id) := by
  have hnew := hp.addPhoto id name bytes hr
  obtain ⟨hid, -, hname, hcomma, -, hbytes⟩ := hr
  obtain ⟨-, hacc, hready⟩ :=
    sendAll_ready s.out (uint32Bytes id) (List.ne_nil_of_length_pos (by simp)) hs
  obtain ⟨conn, hcall, -, -⟩ := addPhotoClient_framed p s hs hid hname hcomma hbytes more [] hb hframed
  rw [htext]
  exact ⟨_, id.toInt32, hcall, hnew, hacc, hready⟩

theorem addKeyword_answered (id : UInt32) (keyword : CString)
    (hr : (Request.addKeyword id keyword).Valid a)
    (htext : m.text = (Request.addKeyword id keyword).text) (htype : m.type = 2) :
    ∃ h, addKeyword p s m = some h ∧
      Answered h s.out (a.step (.addKeyword id keyword)).1 (a.step (.addKeyword id keyword)).2 := by
  obtain ⟨hne, -, hspace⟩ := hr
  obtain ⟨hsuccess, hnew⟩ := hp.insertKeyword id keyword
  obtain ⟨-, hacc, hready⟩ := sendAll_ready s.out (intBytes (insertKeyword p id keyword).1)
    (List.ne_nil_of_length_pos (by simp)) hs
  have hten : ¬ (2 : Int32) = 10 := by decide
  simp only [addKeyword, htext, Request.text, sscanfKeyword_text id keyword hne hspace,
    Option.bind_eq_bind, Option.bind_some, htype, if_neg hten]
  exact ⟨_, rfl, hnew, by rw [hacc, hsuccess]; rfl, hready⟩

-- The list is in reverse and so is the list of hits: the ids come out oldest first.
theorem searchPhoto_answered (keyword : CString) (htext : m.text = keyword)
    (hcount : (Request.searchPhoto keyword).Counted a) :
    ∃ h, searchPhoto p s m = some h ∧
      Answered h s.out (a.step (.searchPhoto keyword)).1 (a.step (.searchPhoto keyword)).2 := by
  have hids := hp.hitIds m.text
  have hlt : (hitIds p m.text).length < 2 ^ 31 := by
    rw [hids, Album.ids, List.length_map, htext]
    exact hcount
  obtain ⟨out, hcall, hready, hacc⟩ := searchPhoto_reply (p := p) (m := m) hs hlt
  rw [hids, htext] at hacc
  exact ⟨_, hcall, hp, hacc, hready⟩

theorem deletePhoto_answered (id : UInt32) (htext : m.text = photoIdText id) (htype : m.type = 4) :
    ∃ h, deletePhoto p s m = some h ∧
      Answered h s.out (a.step (.deletePhoto id)).1 (a.step (.deletePhoto id)).2 := by
  have hlist := listRemove_eq_filter p.photo_list (setData [] id) hp.ids_nodup
  have hfound := hp.listRemove id
  obtain ⟨-, hacc, hready⟩ := sendAll_ready s.out
    (intBytes (Int32.ofNat (listRemove p.photo_list (setData [] id)).1))
    (List.ne_nil_of_length_pos (by simp)) hs
  have hnew := hp.deletePhoto id
  have heleven : ¬ (4 : Int32) = 11 := by decide
  simp only [deletePhoto, htext, sscanfId_text, Option.bind_eq_bind, Option.bind_some, htype,
    if_neg heleven, Album.step]
  by_cases hid : id ∈ a.ids
  · rw [hfound, if_pos hid] at hacc hready ⊢
    refine ⟨_, rfl, ?_, by simpa [hid, Reply.stream] using hacc, hready⟩
    simp only [hlist]
    exact hnew
  · rw [hfound, if_neg hid] at hacc hready ⊢
    refine ⟨_, rfl, ?_, by simpa [hid, Reply.stream] using hacc, hready⟩
    have hsame : a.filter (fun q => q.id != id) = a := by
      rw [List.filter_eq_self]
      intro q hq
      have hne : q.id ≠ id := fun h => hid (h ▸ List.mem_map_of_mem hq)
      simpa using hne
    have hlistSame : (listRemove p.photo_list (setData [] id)).2 = p.photo_list := by
      rw [hlist, hp.photo_list, List.filter_reverse, List.filter_map]
      exact congrArg (fun a => (List.map Photo.data a).reverse) hsame
    simp only [hlistSame, hsame]
    exact hp

theorem sendPhotoName_answered (id : UInt32) (htext : m.text = photoIdText id) :
    ∃ h, sendPhotoName p s m = some h ∧
      Answered h s.out (a.step (.getPhotoName id)).1 (a.step (.getPhotoName id)).2 := by
  simp only [sendPhotoName, htext, sscanfId_text, Option.bind_eq_bind, Option.bind_some,
    hp.listSearch, Album.step]
  cases hq : a.lookup id with
  | none =>
      obtain ⟨-, hacc, hready⟩ :=
        sendAll_ready s.out (intBytes 0) (List.ne_nil_of_length_pos (by simp)) hs
      exact ⟨_, rfl, hp, hacc, hready⟩
  | some q =>
      obtain ⟨-, hacc, hready⟩ :=
        sendAll_ready s.out (intBytes (Int32.ofNat (q.name ++ [0]).length))
          (List.ne_nil_of_length_pos (by simp)) hs
      obtain ⟨-, hacc', hready'⟩ := sendAll_ready _ (q.name ++ [0]) (by simp) hready
      refine ⟨_, rfl, hp, ?_, hready'⟩
      rw [hacc] at hacc'
      change _ = s.out.accepted ++ (intBytes (Int32.ofNat (q.name ++ [0]).length) ++ (q.name ++ [0]))
      rw [← List.append_assoc]
      exact hacc'

theorem sendPhotoClient_answered (id : UInt32) (htext : m.text = photoIdText id) :
    ∃ h, sendPhotoClient p s m = some h ∧
      Answered h s.out (a.step (.getPhoto id)).1 (a.step (.getPhoto id)).2 := by
  simp only [sendPhotoClient, htext, sscanfId_text, Option.bind_eq_bind, Option.bind_some,
    hp.listSearch, Album.step]
  have hlong : ∀ n, longBytes n ≠ [] :=
    fun n => List.ne_nil_of_length_pos (by simp [longBytes])
  cases hq : a.lookup id with
  | none =>
      obtain ⟨-, hacc, hready⟩ := sendAll_ready s.out (longBytes 0) (hlong 0) hs
      exact ⟨_, rfl, hp, hacc, hready⟩
  | some q =>
      obtain ⟨hmem, -⟩ := (Album.lookup_eq_some hp.wellFormed id q).mp hq
      have hfile : p.files (fileName q.data.id) = some q.bytes := hp.files q hmem
      obtain ⟨-, hacc, hready⟩ :=
        sendAll_ready s.out (longBytes q.bytes.length) (hlong _) hs
      simp only [Option.map_some, hfile, Option.bind_some]
      by_cases hbytes : q.bytes = []
      · refine ⟨_, rfl, hp, ?_, ?_⟩
        · simpa [sendBytes, hbytes, Reply.stream, longBytes] using hacc
        · simpa [sendBytes, hbytes] using hready
      · obtain ⟨-, hacc', hready'⟩ := sendAll_ready _ q.bytes hbytes hready
        rw [hacc] at hacc'
        refine ⟨_, rfl, hp, ?_, ?_⟩
        · simpa [sendBytes, hbytes, Reply.stream, longBytes] using hacc'
        · simpa [sendBytes, hbytes] using hready'

end Handlers

-- The sizes of the reads that take a request from the connection.
def Request.reads : Request → List Nat
  | addPhoto _ _ bytes => [MESSAGE_PHOTO_SIZE, bytes.length]
  | _ => [MESSAGE_PHOTO_SIZE]

-- One request of a client as it reaches the peer: its message is the next of the
-- connection, every read returns the bytes asked for and the answer can be sent.
-- For a new photo the gateway gave `id`.
structure Carries (s : Sock) (gateway : GatewayReply) (r : Request) : Prop where
  message : ∃ buff m more, MessagePhoto.fill buff r.text r.type = some m ∧
    s.conn.bytes = m.stream ++ (r.content ++ more)
  framed : Framed s.conn r.reads
  ready : s.out.Ready
  id : ∀ id name bytes, r = .addPhoto id name bytes → gateway = .id id

theorem Request.nul_notMem_text {a : Album} {r : Request} (hr : r.Valid a) : 0 ∉ r.text := by
  cases r with
  | addPhoto id name bytes =>
      obtain ⟨-, -, -, -, hname, -⟩ := hr
      simp [Request.text, hname, nul_notMem_decimal]
  | addKeyword id keyword =>
      obtain ⟨-, hkeyword, -⟩ := hr
      simp [Request.text, addKeywordText, hkeyword, nul_notMem_decimal]
  | searchPhoto keyword => exact hr
  | deletePhoto id => exact nul_notMem_decimal _
  | getPhotoName id => exact nul_notMem_decimal _
  | getPhoto id => exact nul_notMem_decimal _

-- The handler of a request.
def requestHandler (p : Peer) (s : Sock) (gateway : GatewayReply) (m : MessagePhoto) :
    Request → Option Handled
  | .addPhoto _ _ _ => (addPhotoClient p s gateway m.text).map Prod.fst
  | .addKeyword _ _ => addKeyword p s m
  | .searchPhoto _ => searchPhoto p s m
  | .deletePhoto _ => deletePhoto p s m
  | .getPhotoName _ => sendPhotoName p s m
  | .getPhoto _ => sendPhotoClient p s m

theorem connection_dispatch (p : Peer) {a : Album} {s : Sock} {gateway : GatewayReply} {r : Request}
    (hr : r.Valid a) (hc : Carries s gateway r) :
    ∃ (m : MessagePhoto) (conn : Conn) (more : List Byte), m.text = r.text ∧ m.type = r.type ∧
      conn.bytes = r.content ++ more ∧ Framed conn r.reads.tail ∧
      connection p s gateway = requestHandler p ⟨s.out, conn⟩ gateway m r := by
  obtain ⟨buff, m, more, hfill, hbytes⟩ := hc.message
  obtain ⟨htext, htype⟩ := MessagePhoto.text_of_fill (Request.nul_notMem_text hr) hfill
  have hreads : r.reads = MESSAGE_PHOTO_SIZE :: r.reads.tail := by cases r <;> rfl
  obtain ⟨-, hbuff, hrest, hframed⟩ :=
    recvAndUnstreamPhoto_framed s.conn m _ r.reads.tail hbytes (hreads ▸ hc.framed)
  refine ⟨m, _, more, htext, htype, hrest, hframed, ?_⟩
  have hint : m.type.toInt = r.type.toInt := congrArg Int32.toInt htype
  simp only [connection, hbuff, Option.bind_eq_bind, Option.bind_some, hint]
  cases r <;> rfl

theorem connection_answered {p : Peer} {a : Album} (hp : Represents p a) (s : Sock)
    (gateway : GatewayReply) (r : Request) (hr : r.Valid a) (hcount : r.Counted a)
    (hc : Carries s gateway r) :
    ∃ h, connection p s gateway = some h ∧ Answered h s.out (a.step r).1 (a.step r).2 := by
  obtain ⟨m, conn, more, htext, htype, hrest, hframed, hdispatch⟩ := connection_dispatch p hr hc
  rw [hdispatch]
  cases r with
  | addPhoto id name bytes =>
      obtain rfl := hc.id id name bytes rfl
      obtain ⟨h, ret, hcall, hans⟩ := addPhotoClient_answered (s := ⟨s.out, conn⟩) hp hc.ready id
        name bytes more hr htext hrest hframed
      exact ⟨h, by simp [requestHandler, hcall], hans⟩
  | addKeyword id keyword =>
      exact addKeyword_answered (s := ⟨s.out, conn⟩) hp hc.ready id keyword hr htext htype
  | searchPhoto keyword =>
      exact searchPhoto_answered (s := ⟨s.out, conn⟩) hp hc.ready keyword htext hcount
  | deletePhoto id =>
      exact deletePhoto_answered (s := ⟨s.out, conn⟩) hp hc.ready id htext htype
  | getPhotoName id =>
      exact sendPhotoName_answered (s := ⟨s.out, conn⟩) hp hc.ready id htext
  | getPhoto id =>
      exact sendPhotoClient_answered (s := ⟨s.out, conn⟩) hp hc.ready id htext

-- The requests a peer handles one at a time, each on the connection it came on.
def connections : Peer → List (Sock × GatewayReply) → Option (Peer × List (List Byte))
  | p, [] => some (p, [])
  | p, (s, gateway) :: rest => do
      let h ← connection p s gateway
      let (p, replies) ← connections h.peer rest
      some (p, h.sock.out.accepted.drop s.out.accepted.length :: replies)

-- A sequence of requests, each one valid for the album left by those before it.
def CarriesAll : Album → List (Sock × GatewayReply) → List Request → Prop
  | _, [], [] => True
  | a, (s, gateway) :: calls, r :: rs => r.Valid a ∧ Carries s gateway r ∧ CarriesAll (a.step r).1 calls rs
  | _, _, _ => False

def CountedAll : Album → List Request → Prop
  | _, [] => True
  | a, r :: rs => r.Counted a ∧ CountedAll (a.step r).1 rs

theorem connections_represents {p : Peer} {a : Album} (hp : Represents p a)
    (calls : List (Sock × GatewayReply)) (rs : List Request) (h : CarriesAll a calls rs)
    (hcount : CountedAll a rs) :
    ∃ p', connections p calls = some (p', (a.run rs).2.map Reply.stream) ∧
      Represents p' (a.run rs).1 := by
  induction calls generalizing p a rs with
  | nil =>
      cases rs with
      | nil => exact ⟨p, rfl, hp⟩
      | cons r rs => exact absurd h id
  | cons call calls ih =>
      obtain ⟨s, gateway⟩ := call
      cases rs with
      | nil => exact absurd h id
      | cons r rs =>
          obtain ⟨hr, hc, hrest⟩ := h
          obtain ⟨hone, hcounts⟩ := hcount
          obtain ⟨h1, hcall, hans⟩ := connection_answered hp s gateway r hr hone hc
          obtain ⟨p', hcalls, hp'⟩ := ih hans.represents rs hrest hcounts
          refine ⟨p', ?_, hp'⟩
          simp [connections, hcall, hcalls, Album.run, hans.accepted]

section Directory

-- A photo that is no more in the album has no file; where none of the id was there the file is
-- as before.
def Clears (p p' : Peer) (a a' : Album) : Prop :=
  ∀ id, id ∉ a'.ids → p'.files (fileName id) = if id ∈ a.ids then none else p.files (fileName id)

theorem clears_same {p p' : Peer} {a a' : Album} (hids : a'.ids = a.ids) (hfiles : p'.files = p.files) :
    Clears p p' a a' := by
  intro id hid
  rw [hids] at hid
  rw [if_neg hid, hfiles]

variable {p : Peer} {a : Album} {s : Sock} {m : MessagePhoto} {h : Handled}

theorem insertKeyword_files (id : UInt32) (keyword : CString) :
    (insertKeyword p id keyword).2.files = p.files := by
  unfold insertKeyword
  simp only
  split
  · rfl
  · split_ifs <;> rfl

theorem deletePhoto_files {id : UInt32} (hscan : sscanfId m.text = some id)
    (hcall : deletePhoto p s m = some h) :
    h.peer.files = if (listRemove p.photo_list (setData [] id)).1 ≠ 0 then
      (p.unlink (fileName id)).files else p.files := by
  simp only [deletePhoto, hscan, Option.bind_eq_bind, Option.bind_some] at hcall
  split at hcall
  all_goals
    obtain rfl := Option.some.inj hcall
    split <;> rfl

theorem deletePhoto_clears (hp : Represents p a) {id : UInt32} (htext : m.text = photoIdText id)
    (hcall : deletePhoto p s m = some h) :
    Clears p h.peer a (a.filter (fun q => q.id != id)) := by
  have hfound := hp.listRemove id
  have hfiles := deletePhoto_files (htext ▸ sscanfId_text id) hcall
  rw [hfound] at hfiles
  intro other hother
  by_cases he : other = id
  · subst he
    by_cases hid : other ∈ a.ids
    · simp [hfiles, hid]
    · simp [hfiles, hid]
  · have hmem : other ∉ a.ids := by
      intro hmem
      obtain ⟨q, hq, rfl⟩ := List.mem_map.mp hmem
      exact hother (List.mem_map_of_mem (List.mem_filter.mpr ⟨hq, by simpa using he⟩))
    have hname : fileName other ≠ fileName id := fun hsame => he (fileName_injective hsame)
    have hsame : (p.unlink (fileName id)).files (fileName other) = p.files (fileName other) := by
      rw [Peer.unlink_files, if_neg hname]
    rw [if_neg hmem, hfiles]
    split
    · exact hsame
    · rfl

theorem connection_clears (hp : Represents p a) {gateway : GatewayReply} {r : Request}
    (hr : r.Valid a) (hc : Carries s gateway r) (hcall : connection p s gateway = some h) :
    Clears p h.peer a (a.step r).1 := by
  obtain ⟨m, conn, more, htext, htype, hb, hframed, hdispatch⟩ := connection_dispatch p hr hc
  rw [hdispatch] at hcall
  cases r with
  | addPhoto id name bytes =>
      obtain rfl := hc.id id name bytes rfl
      obtain ⟨hid, -, hname, hcomma, -, hbytes⟩ := hr
      obtain ⟨conn', hadd, -⟩ := addPhotoClient_framed p ⟨s.out, conn⟩ hc.ready hid hname hcomma
        hbytes more [] hb hframed
      have htext' : m.text = name ++ 44 :: decimal bytes.length := htext
      rw [requestHandler, htext', hadd] at hcall
      obtain rfl := Option.some.inj hcall
      intro other hother
      have hold : other ∉ a.ids := fun hmem => hother (by simp [Album.step, Album.ids_append, hmem])
      have hne : other ≠ id := fun he => hother (by simp [Album.step, Album.ids, he])
      have hname : fileName other ≠ fileName id := fun hsame => hne (fileName_injective hsame)
      rw [if_neg hold, Peer.writeFile_files, if_neg hname]
  | addKeyword id keyword =>
      obtain ⟨id', word, -, hpeer, -⟩ := addKeyword_some hcall
      exact clears_same (Album.addKeyword_ids id keyword) (by rw [hpeer, insertKeyword_files])
  | searchPhoto keyword => exact clears_same rfl (by rw [searchPhoto_peer hcall])
  | deletePhoto id => exact deletePhoto_clears hp htext hcall
  | getPhotoName id => exact clears_same rfl (by rw [sendPhotoName_peer hcall])
  | getPhoto id => exact clears_same rfl (by rw [sendPhotoClient_peer hcall])

-- The ids of the photos a sequence of requests adds.
def addedIds : List Request → List UInt32
  | [] => []
  | .addPhoto id _ _ :: rs => id :: addedIds rs
  | _ :: rs => addedIds rs

theorem addedIds_cons (r : Request) (rs : List Request) :
    addedIds (r :: rs) = addedIds [r] ++ addedIds rs := by
  cases r <;> rfl

theorem ids_step_of_added {a : Album} {r : Request} {id : UInt32} (h : id ∈ addedIds [r]) :
    id ∈ (a.step r).1.ids := by
  cases r with
  | addPhoto id' name bytes =>
      obtain rfl : id = id' := by simpa [addedIds] using h
      simp [Album.step, Album.ids]
  | _ => exact absurd h List.not_mem_nil

-- So of all that was in the album, or was added, only what is left has a file.
theorem connections_clear {p' : Peer} {replies : List (List Byte)} (hp : Represents p a)
    (calls : List (Sock × GatewayReply)) (rs : List Request) (h : CarriesAll a calls rs)
    (hcount : CountedAll a rs) (hcall : connections p calls = some (p', replies)) (id : UInt32)
    (hid : id ∉ (a.run rs).1.ids) (hadded : id ∈ a.ids ∨ id ∈ addedIds rs ∨
      p.files (fileName id) = none) : p'.files (fileName id) = none := by
  induction calls generalizing p a rs replies with
  | nil =>
      cases rs with
      | nil =>
          obtain ⟨rfl, -⟩ := Prod.mk.inj (Option.some.inj hcall)
          rcases hadded with hmem | hmem | hnone
          · exact absurd hmem hid
          · exact absurd hmem List.not_mem_nil
          · exact hnone
      | cons r rs => exact absurd h False.elim
  | cons call calls ih =>
      obtain ⟨s, gateway⟩ := call
      cases rs with
      | nil => exact absurd h False.elim
      | cons r rs =>
          obtain ⟨hr, hc, hrest⟩ := h
          obtain ⟨hone, hcounts⟩ := hcount
          obtain ⟨h1, hcall1, hans⟩ := connection_answered hp s gateway r hr hone hc
          have hclears := connection_clears hp hr hc hcall1
          simp only [connections, hcall1, Option.bind_eq_bind, Option.bind_some] at hcall
          obtain ⟨⟨p2, replies2⟩, hcalls, he⟩ := Option.bind_eq_some_iff.mp hcall
          obtain ⟨rfl, -⟩ := Prod.mk.inj (Option.some.inj he)
          refine ih hans.represents rs hrest hcounts hcalls hid ?_
          by_cases hmem : id ∈ (a.step r).1.ids
          · exact Or.inl hmem
          · rw [addedIds_cons, List.mem_append] at hadded
            rcases hadded with hmem' | (hmem' | hmem') | hnone
            · exact Or.inr (Or.inr (by rw [hclears id hmem, if_pos hmem']))
            · exact absurd (ids_step_of_added hmem') hmem
            · exact Or.inr (Or.inl hmem')
            · refine Or.inr (Or.inr ?_)
              rw [hclears id hmem]
              split_ifs
              · rfl
              · exact hnone

end Directory

-- The peer starts with no photos, whatever its directory holds.
theorem connections_refine_album (files : CString → Option (List Byte))
    (calls : List (Sock × GatewayReply)) (rs : List Request) (h : CarriesAll [] calls rs)
    (hcount : CountedAll [] rs) :
    ∃ p, connections ⟨[], files⟩ calls = some (p, (Album.run [] rs).2.map Reply.stream) ∧
      Represents p (Album.run [] rs).1 ∧
      ∀ id ∈ addedIds rs, id ∉ (Album.run [] rs).1.ids → p.files (fileName id) = none := by
  have hstart : Represents ⟨[], files⟩ [] := ⟨rfl, by simp, Album.wellFormed_nil⟩
  obtain ⟨p, hcalls, hp⟩ := connections_represents hstart calls rs h hcount
  exact ⟨p, hcalls, hp, fun id hadded hid =>
    connections_clear hstart calls rs h hcount hcalls id hid (Or.inr (Or.inl hadded))⟩

-- A connection that brings one request and whatever follows it.
def requestSock (r : Request) (content : List Byte) : Sock :=
  ⟨⟨[], []⟩, ⟨((MessagePhoto.fill blankMessage r.text r.type).map MessagePhoto.stream).getD [] ++
    content, [100, 4], .closed⟩⟩

-- Photo 7 is added and gets a keyword, which is then searched for.
def threeRequests : List Request := [.addPhoto 7 [97] [1, 2], .addKeyword 7 [98], .searchPhoto [98]]

theorem connections_refine_album_threeRequests :
    ∃ p, connections ⟨[], fun _ => none⟩
        (threeRequests.map (fun r => (requestSock r r.content, .id 7))) =
      some (p, (Album.run [] threeRequests).2.map Reply.stream) ∧
      Represents p (Album.run [] threeRequests).1 ∧
      ∀ id ∈ addedIds threeRequests, id ∉ (Album.run [] threeRequests).1.ids →
        p.files (fileName id) = none := by
  refine connections_refine_album (fun _ => none) _ threeRequests ?_
    ⟨trivial, trivial, Nat.lt_of_le_of_lt (List.length_filter_le _ _) (by decide +kernel), trivial⟩
  have hcarries : ∀ r ∈ threeRequests, Carries (requestSock r r.content) (.id 7) r := by
    intro r hr
    have hfill : (MessagePhoto.fill blankMessage r.text r.type).isSome := by
      revert r
      decide +kernel
    obtain ⟨m, hm⟩ := Option.isSome_iff_exists.mp hfill
    refine ⟨⟨blankMessage, m, [], hm, by simp [requestSock, hm]⟩, ?_, ?_, ?_⟩
    · clear hm hfill
      revert r
      decide +kernel
    · simp [requestSock, Out.Ready]
    · intro id name bytes h
      subst h
      obtain ⟨rfl, -⟩ : id = 7 ∧ name = [97] ∧ bytes = [1, 2] := by simpa [threeRequests] using hr
      rfl
  refine ⟨?_, hcarries _ (by simp [threeRequests]), ?_, hcarries _ (by simp [threeRequests]), ?_,
    hcarries _ (by simp [threeRequests]), trivial⟩
  · exact ⟨by decide, by decide, List.cons_ne_nil _ _, by simp, by simp, List.cons_ne_nil _ _⟩
  · refine ⟨List.cons_ne_nil _ _, by simp, fun b hb => ?_⟩
    obtain rfl := List.mem_singleton.mp hb
    rfl
  · exact (by simp : (0 : Byte) ∉ [98])

section Overflow

theorem Album.run_append (a : Album) (rs rs' : List Request) :
    a.run (rs ++ rs') = (((a.run rs).1.run rs').1, (a.run rs).2 ++ ((a.run rs).1.run rs').2) := by
  induction rs generalizing a with
  | nil => rfl
  | cons r rs ih => simp [Album.run, ih]

theorem carriesAll_append {a : Album} {calls calls' : List (Sock × GatewayReply)}
    {rs rs' : List Request} (h : CarriesAll a calls rs) (h' : CarriesAll (a.run rs).1 calls' rs') :
    CarriesAll a (calls ++ calls') (rs ++ rs') := by
  induction calls generalizing a rs with
  | nil =>
      cases rs with
      | nil => exact h'
      | cons r rs => exact absurd h False.elim
  | cons call calls ih =>
      cases rs with
      | nil => exact absurd h False.elim
      | cons r rs => exact ⟨h.1, h.2.1, ih h.2.2 h'⟩

theorem connections_append (p : Peer) (calls calls' : List (Sock × GatewayReply)) :
    connections p (calls ++ calls') = (connections p calls).bind (fun done =>
      (connections done.1 calls').map (fun last => (last.1, done.2 ++ last.2))) := by
  induction calls generalizing p with
  | nil =>
      simp only [List.nil_append, connections, Option.bind_some]
      cases connections p calls' <;> rfl
  | cons call calls ih =>
      obtain ⟨s, gateway⟩ := call
      simp only [List.cons_append, connections, ih, Option.bind_eq_bind]
      cases connection p s gateway with
      | none => rfl
      | some h =>
          simp only [Option.bind_some]
          cases connections h.peer calls with
          | none => rfl
          | some done =>
              simp only [Option.bind_some]
              cases connections done.1 calls' <;> rfl

-- A connection with nothing but one request, which comes whole.
def onlyRequest (r : Request) (gateway : GatewayReply) : Sock × GatewayReply :=
  (⟨⟨[], []⟩, ⟨((MessagePhoto.fill blankMessage r.text r.type).map MessagePhoto.stream).getD [] ++
    r.content, r.reads, .closed⟩⟩, gateway)

theorem onlyRequest_carries {r : Request} {gateway : GatewayReply} (hfits : r.text.length < MAX_SIZE)
    (hcontent : ∀ id name bytes, r = .addPhoto id name bytes →
      gateway = .id id ∧ bytes ≠ [] ∧ bytes.length < 2 ^ 31) :
    Carries (onlyRequest r gateway).1 (onlyRequest r gateway).2 r := by
  obtain ⟨m, hm⟩ := MessagePhoto.exists_fill hfits blankMessage r.type
  have hlen := m.length_stream
  refine ⟨⟨blankMessage, m, [], hm, by simp [onlyRequest, hm]⟩, ?_, by simp [onlyRequest, Out.Ready],
    fun id name bytes h => (hcontent id name bytes h).1⟩
  simp only [onlyRequest, hm, Option.map_some, Option.getD_some]
  apply framed_exact
  · intro n hn
    cases r with
    | addPhoto id name bytes =>
        obtain ⟨-, hne, hlt⟩ := hcontent id name bytes rfl
        have hpos := List.length_pos_iff.mpr hne
        rcases List.mem_pair.mp hn with rfl | rfl
        · decide
        · exact ⟨hpos, hlt⟩
    | _ =>
        obtain rfl := List.mem_singleton.mp hn
        decide
  · rw [List.length_append, hlen]
    cases r <;> simp [Request.reads, Request.content]

def photoId (n : Nat) : UInt32 := UInt32.ofNat (n + 1)

-- Photos that all get the same keyword.
def taggedUploads : Nat → List (Request × GatewayReply)
  | 0 => []
  | n + 1 => taggedUploads n ++
      [(.addPhoto (photoId n) [97] [1], .id (photoId n)), (.addKeyword (photoId n) [98], .timeout)]

def taggedAlbum (n : Nat) : Album := (List.range n).map (fun i => ⟨photoId i, [97], [[98]], [1]⟩)

theorem photoId_toNat {n : Nat} (hn : n < 2 ^ 31) : (photoId n).toNat = n + 1 := by
  rw [photoId, UInt32.toNat_ofNat']
  exact Nat.mod_eq_of_lt (by omega)

theorem taggedAlbum_succ (n : Nat) :
    taggedAlbum (n + 1) = taggedAlbum n ++ [⟨photoId n, [97], [[98]], [1]⟩] := by
  rw [taggedAlbum, taggedAlbum, List.range_succ, List.map_append]
  rfl

theorem photoId_notMem {n : Nat} (hn : n < 2 ^ 31) : photoId n ∉ (taggedAlbum n).ids := by
  intro hmem
  obtain ⟨q, hq, hid⟩ := List.mem_map.mp hmem
  obtain ⟨i, hi, rfl⟩ := List.mem_map.mp hq
  have hlt := List.mem_range.mp hi
  have hsame : (photoId i).toNat = (photoId n).toNat := congrArg UInt32.toNat hid
  rw [photoId_toNat (by omega), photoId_toNat hn] at hsame
  omega

-- One photo of the sequence, with its keyword.
theorem taggedAlbum_step {n : Nat} (hn : n < 2 ^ 31) :
    Album.run (taggedAlbum n) [.addPhoto (photoId n) [97] [1], .addKeyword (photoId n) [98]] =
      (taggedAlbum (n + 1), [.id (photoId n), .success 1]) := by
  have hnone : (taggedAlbum n).lookup (photoId n) = none :=
    (Album.lookup_eq_none _).mpr (photoId_notMem hn)
  have hlast : Album.lookup (taggedAlbum n ++ [⟨photoId n, [97], [], [1]⟩]) (photoId n) =
      some ⟨photoId n, [97], [], [1]⟩ := by
    rw [Album.lookup, List.find?_append]
    rw [Album.lookup] at hnone
    simp [hnone]
  have hold : (taggedAlbum n).map (fun q =>
      if q.id = photoId n then { q with keywords := q.keywords ++ [[98]] } else q) = taggedAlbum n := by
    refine (List.map_congr_left ?_).trans (List.map_id _)
    intro q hq
    have hne : q.id ≠ photoId n := fun he => photoId_notMem hn (he ▸ List.mem_map_of_mem hq)
    simp [hne]
  simp only [Album.run, Album.step, Album.addKeyword, hlast, taggedAlbum_succ]
  simp [MAX_KEYWORDS, hold]

theorem countedAll_append {a : Album} {rs rs' : List Request} (h : CountedAll a rs)
    (h' : CountedAll (a.run rs).1 rs') : CountedAll a (rs ++ rs') := by
  induction rs generalizing a with
  | nil => exact h'
  | cons r rs ih => exact ⟨h.1, ih h.2 h'⟩

theorem taggedUploads_carried {n : Nat} (hn : n ≤ 2 ^ 31) :
    CarriesAll [] ((taggedUploads n).map (fun c => onlyRequest c.1 c.2))
        ((taggedUploads n).map Prod.fst) ∧
      CountedAll [] ((taggedUploads n).map Prod.fst) ∧
      (Album.run [] ((taggedUploads n).map Prod.fst)).1 = taggedAlbum n := by
  induction n with
  | zero => exact ⟨trivial, trivial, rfl⟩
  | succ n ih =>
      obtain ⟨hcarries, hcounted, halbum⟩ := ih (by omega)
      have hstep := taggedAlbum_step (show n < 2 ^ 31 by omega)
      have hid : photoId n ≠ 0 := by
        intro hzero
        have hnat := photoId_toNat (show n < 2 ^ 31 by omega)
        rw [hzero] at hnat
        simp at hnat
      have hupload : (Request.addPhoto (photoId n) [97] [1]).Valid (taggedAlbum n) :=
        ⟨hid, photoId_notMem (by omega), by simp, by simp, by simp, by simp⟩
      have hword : (Request.addKeyword (photoId n) [98]).Valid
          ((taggedAlbum n).step (.addPhoto (photoId n) [97] [1])).1 :=
        ⟨by simp, by simp, fun b hb => List.mem_singleton.mp hb ▸ rfl⟩
      have hdigits : (decimal (photoId n).toNat).length ≤ 10 :=
        length_decimal_le (by decide) (Nat.lt_trans (photoId n).toNat_lt (by decide))
      simp only [taggedUploads, List.map_append, List.map_cons, List.map_nil]
      refine ⟨carriesAll_append hcarries ?_, countedAll_append hcounted ⟨trivial, trivial, trivial⟩, ?_⟩
      · rw [halbum]
        refine ⟨hupload, onlyRequest_carries ?_ ?_, hword, onlyRequest_carries ?_ ?_, trivial⟩
        · exact (by decide : (([97] : CString) ++ 44 :: decimal [(1 : Byte)].length).length < MAX_SIZE)
        · rintro id name bytes h
          obtain ⟨rfl, -, rfl⟩ := Request.addPhoto.inj h
          exact ⟨rfl, by simp, by decide⟩
        · simp only [Request.text, addKeywordText, List.length_append, List.length_cons,
            List.length_nil, MAX_SIZE]
          omega
        · intro id name bytes h
          cases h
      · rw [Album.run_append, halbum, hstep]

-- All of them, and then a search for their keyword.
def taggedSearch (n : Nat) : List (Request × GatewayReply) :=
  taggedUploads n ++ [(.searchPhoto [98], .timeout)]

theorem search_of_taggedUploads {n : Nat} (hn : n = 2 ^ 31) :
    CarriesAll [] ((taggedSearch n).map (fun c => onlyRequest c.1 c.2))
        ((taggedSearch n).map Prod.fst) ∧
      ∃ p replies, connections ⟨[], fun _ => none⟩
          ((taggedSearch n).map (fun c => onlyRequest c.1 c.2)) = some (p, replies) ∧
        replies ≠ (Album.run [] ((taggedSearch n).map Prod.fst)).2.map Reply.stream := by
  obtain ⟨hcarries, hcounted, halbum⟩ := taggedUploads_carried (Nat.le_of_eq hn)
  obtain ⟨p, hcalls, hp, -⟩ := connections_refine_album (fun _ => none) _ _ hcarries hcounted
  rw [halbum] at hp
  have hvalid : (Request.searchPhoto [98]).Valid (taggedAlbum n) := by simp [Request.Valid]
  have hc : Carries (onlyRequest (.searchPhoto [98]) .timeout).1
      (onlyRequest (.searchPhoto [98]) .timeout).2 (.searchPhoto [98]) :=
    onlyRequest_carries (by decide) (fun _ _ _ h => by cases h)
  obtain ⟨m, conn, more, htext, -, -, -, hdispatch⟩ := connection_dispatch p hvalid hc
  have htagged : (taggedAlbum n).filter (fun q => [98] ∈ q.keywords) = taggedAlbum n := by
    refine List.filter_eq_self.mpr fun q hq => ?_
    obtain ⟨i, -, rfl⟩ := List.mem_map.mp hq
    simp
  have hlen : (taggedAlbum n).length = n := by rw [taggedAlbum, List.length_map, List.length_range]
  have hword : m.text = [98] := htext
  have hhits : (hitIds p m.text).length = 2 ^ 31 := by
    rw [hword, hp.hitIds, htagged, Album.ids, List.length_map, hlen, hn]
  obtain ⟨out, hsearch, hacc⟩ := searchPhoto_overflow (p := p) (m := m)
    (s := ⟨(onlyRequest (.searchPhoto [98]) .timeout).1.out, conn⟩) hc.ready hhits
  rw [requestHandler, hsearch] at hdispatch
  simp only [taggedSearch, List.map_append, List.map_cons, List.map_nil]
  refine ⟨carriesAll_append hcarries ⟨halbum.symm ▸ hvalid, hc, trivial⟩, p,
    (Album.run [] ((taggedUploads n).map Prod.fst)).2.map Reply.stream ++
      [intBytes (Int32.ofNat (2 ^ 31))], ?_, ?_⟩
  · rw [connections_append, hcalls, Option.bind_some, connections, hdispatch]
    simp only [Option.bind_eq_bind, Option.bind_some, connections, hacc, List.drop_left,
      Option.map_some]
  · rw [Album.run_append, List.map_append, halbum]
    intro hsame
    have hlast := List.append_cancel_left hsame
    have hlong := congrArg List.length (List.cons.inj hlast).1
    simp only [Reply.stream, htagged, List.length_append, length_intBytes, length_flatMap_uint32Bytes,
      Album.ids, List.length_map, hlen] at hlong
    omega

theorem search_overflows :
    CarriesAll [] ((taggedSearch (2 ^ 31)).map (fun c => onlyRequest c.1 c.2))
        ((taggedSearch (2 ^ 31)).map Prod.fst) ∧
      ∃ p replies, connections ⟨[], fun _ => none⟩
          ((taggedSearch (2 ^ 31)).map (fun c => onlyRequest c.1 c.2)) = some (p, replies) ∧
        replies ≠ (Album.run [] ((taggedSearch (2 ^ 31)).map Prod.fst)).2.map Reply.stream :=
  search_of_taggedUploads rfl

end Overflow

end Gallery
