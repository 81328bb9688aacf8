import Gallery.Library
import Gallery.Socket.Framing

namespace Gallery

open Bytes Text

-- The request left the client whole.
def Sent (s : Sock) (buff : MessagePhoto) (message : CString) (type : Int32) (out : Out) : Prop :=
  streamAndSendPhoto s.out buff message type = some (0, out)

-- A request that fits its buffer goes out whole.
theorem sent_of_fill {buff m : MessagePhoto} {message : CString} {type : Int32} {c : Sock}
    (hm : MessagePhoto.fill buff message type = some m) (hc : c.out.Ready) :
    ∃ out, Sent c buff message type out ∧ out.accepted = c.out.accepted ++ m.stream := by
  obtain ⟨hret, hacc, -⟩ :=
    sendAll_ready c.out m.stream (List.ne_nil_of_length_pos (by simp [MESSAGE_PHOTO_SIZE])) hc
  refine ⟨_, ?_, hacc⟩
  simp [Sent, streamAndSendPhoto, hm, hret]

-- What is read as a length below 2^31 stays below it however the reply is cut.
theorem leNat_take_lt {n : Nat} (hn : n < 2 ^ 31) (rest bytes : List Byte) (k : Nat)
    (hpre : bytes <+: intBytes (Int32.ofNat n) ++ rest) (hk : k ≤ 4) :
    leNat (bytes.take k) < 2 ^ 31 := by
  have hlen : (bytes.take k).length ≤ k := List.length_take_le k bytes
  rcases Nat.lt_or_ge (bytes.take k).length 4 with h | h
  · have hlt := leNat_lt (bytes.take k)
    have hpow : 256 ^ (bytes.take k).length ≤ 256 ^ 3 := Nat.pow_le_pow_right (by decide) (by omega)
    omega
  · obtain ⟨more, hmore⟩ := hpre
    have htake : bytes.take k = intBytes (Int32.ofNat n) := by
      have h4 : k = 4 := by omega
      rw [h4, List.length_take] at h
      rw [h4, ← @List.take_append_of_le_length _ _ more _ (by omega), hmore,
        List.take_left' (length_intBytes _)]
    rw [htake, leNat_intBytes_ofNat _ (by omega)]
    exact hn

section Int

-- `arrived` is what comes of `reply` before the connection ends; the call must
-- not depend on what its unset local held.
def IntHandled (call : Int32 → Option (Int32 × Sock)) (arrived : List Byte)
    (answer error : Int32) : Prop :=
  ∀ success, ∃ ret s, call success = some (ret, s) ∧
    if arrived = intBytes answer then ret = answer ∧ s.conn.bytes = [] else ret = error

theorem intHandled_some (f : Int32 → Int32) (s : Sock) (arrived : List Byte)
    (answer error : Int32) :
    IntHandled (fun success => some (f success, s)) arrived answer error ↔
      ∀ success, if arrived = intBytes answer then f success = answer ∧ s.conn.bytes = []
        else f success = error := by
  simp [IntHandled]

-- The answer comes whole with the first `recv`, or nothing comes and `recv` fails.
def WholeInt (c : Conn) : Prop :=
  (c.bytes.length = 4 ∧ 4 ≤ c.available) ∨ (c.bytes = [] ∧ c.ending = .failed)

theorem requestInt_sent (s : Sock) (buff : MessagePhoto) (success : Int32) (message : CString)
    (type error : Int32) (out : Out) (h : Sent s buff message type out) :
    requestInt s buff success message type error =
      some (if (recv s.conn 4).ret = -1 then error
        else intOfBytes (overlay (recv s.conn 4).stored (intBytes success)),
        ⟨out, (recv s.conn 4).conn⟩) := by
  unfold Sent at h
  by_cases hr : (recv s.conn 4).ret = -1 <;> simp [requestInt, h, hr]

-- A short read leaves the last byte of the answer to chance.
theorem overlay_short_ne (fresh : List Byte) (h : fresh.length < 4) :
    intOfBytes (overlay fresh (intBytes 0)) ≠ intOfBytes (overlay fresh (intBytes (-1))) := by
  intro he
  have hlen : ∀ i : Int32, (overlay fresh (intBytes i)).length = 4 := by
    intro i
    simp only [overlay, List.length_append, List.length_drop, length_intBytes]
    omega
  have hb := congrArg intBytes he
  rw [intBytes_intOfBytes _ (hlen 0), intBytes_intOfBytes _ (hlen (-1))] at hb
  have hd := List.append_cancel_left hb
  have h0 : intBytes 0 = List.replicate 4 0 := by decide
  have h1 : intBytes (-1) = List.replicate 4 255 := by decide
  rw [h0, h1, List.drop_replicate, List.drop_replicate] at hd
  have hlast := List.replicate_right_injective (by omega : 4 - fresh.length ≠ 0) hd
  exact absurd hlast (by decide)

-- With fewer than four bytes read, two runs that differ in the unset local
-- differ in what they return.
theorem not_intHandled_short (s : Sock) (fresh arrived : List Byte) (answer error : Int32)
    (h : fresh.length < 4) :
    ¬ IntHandled (fun success => some (intOfBytes (overlay fresh (intBytes success)), s)) arrived
      answer error := by
  rw [intHandled_some]
  intro hall
  have h0 := hall 0
  have h1 := hall (-1)
  refine overlay_short_ne fresh h ?_
  split at h0
  · rename_i he
    rw [if_pos he] at h1
    rw [h0.1, h1.1]
  · rename_i he
    rw [if_neg he] at h1
    rw [h0, h1]

theorem requestInt_iff (s : Sock) (buff : MessagePhoto) (message : CString) (type error : Int32)
    (out : Out) (answer : Int32) (hsent : Sent s buff message type out)
    (hpre : s.conn.bytes <+: intBytes answer) :
    IntHandled (fun success => requestInt s buff success message type error) s.conn.bytes
      answer error ↔ WholeInt s.conn := by
  have hlen : s.conn.bytes.length ≤ 4 := by simpa using hpre.length_le
  simp only [requestInt_sent s buff _ message type error out hsent]
  by_cases hb : s.conn.bytes = []
  · rw [recv_nil _ _ hb]
    simp only [WholeInt, hb, List.length_nil]
    cases hend : s.conn.ending with
    | failed =>
        have hne : [] ≠ intBytes answer := fun h => by simpa using congrArg List.length h
        simp only [Ending.nbytes, if_true, intHandled_some, if_neg hne]
        simp
    | closed =>
        simp only [Ending.nbytes]
        constructor
        · intro h
          exact absurd h (not_intHandled_short _ [] _ answer error (by decide))
        · rintro (⟨h, -⟩ | ⟨-, h⟩)
          · exact absurd h (by decide)
          · exact absurd h (by decide)
  · have hpos := s.conn.taken_pos 4 (by decide) hb
    obtain ⟨hk4, hkb⟩ := s.conn.taken_le 4
    have hret : ¬ ((s.conn.taken 4 : Nat) : Int) = -1 := by omega
    have hwhole : WholeInt s.conn ↔ s.conn.taken 4 = 4 := by
      simp only [WholeInt, hb, false_and, or_false]
      unfold Conn.taken at hpos ⊢
      omega
    rw [recv_cons _ _ hb, hwhole]
    simp only [if_neg hret]
    constructor
    · intro h
      by_contra hk
      refine not_intHandled_short _ (s.conn.bytes.take (s.conn.taken 4)) _ answer error ?_ h
      rw [List.length_take]
      omega
    · intro hk
      have hfull : s.conn.bytes = intBytes answer :=
        hpre.eq_of_length (by rw [length_intBytes]; omega)
      rw [intHandled_some]
      intro success
      rw [if_pos hfull, hk, hfull, List.take_of_length_le (by simp),
        overlay_of_length_le _ _ (by simp), intOfBytes_intBytes]
      exact ⟨rfl, by simp [Conn.after, hfull]⟩

end Int

section Search

def SearchHandled (call : (Nat → Byte) → Option SearchResult) (arrived : List Byte)
    (r : SearchReply) : Prop :=
  ∀ heap, ∃ res, call heap = some res ∧
    if arrived = r.stream then
      res.ret = Int32.ofNat r.ids.length ∧ res.id_photos = r.ids ∧ res.sock.conn.bytes = []
    else res.ret = -1

-- The length comes whole with the first `recv` and the array whole with the
-- second; or the connection fails after giving the first `recv` all it has, be
-- it nothing or at most four bytes that do not read as 0.
def WholeSearch (c : Conn) (r : SearchReply) : Prop :=
  (c.bytes = r.stream ∧ 4 ≤ c.available ∧
    (r.ids = [] ∨ 4 * r.ids.length ≤ (c.after 4).available)) ∨
  (c.bytes ≠ r.stream ∧ c.ending = .failed ∧
    (c.bytes = [] ∨
      (c.bytes.length ≤ 4 ∧ c.bytes.length ≤ c.available ∧ leNat c.bytes ≠ 0)))

-- The call once the request is out and `length` read as `n`.
def searchArray (out : Out) (heap : Nat → Byte) (c : Conn) (n : Nat) : SearchResult :=
  let array := recv c (4 * n)
  if array.ret = -1 then ⟨-1, [], ⟨out, array.conn⟩⟩
  else ⟨Int32.ofNat n, uint32Array n (overlay array.stored (malloc heap (4 * n))),
    ⟨out, array.conn⟩⟩

theorem overlay_zero (fresh : List Byte) :
    intOfBytes (overlay fresh (intBytes 0)) = Int32.ofNat (leNat fresh) := by
  have h0 : intBytes 0 = List.replicate 4 0 := by decide
  rw [intOfBytes, overlay, h0, List.drop_replicate, leNat_append, leNat_replicate_zero, Nat.mul_zero,
    Nat.add_zero]

theorem toSizeT_ofNat (n : Nat) (h : n < 2 ^ 31) : toSizeT (Int32.ofNat n).toInt = n := by
  rw [Int32.toInt_ofNat_of_lt h, toSizeT_of_lt _ (by omega) (by omega), Int.toNat_natCast]

theorem ofNat_ne_zero {n : Nat} (h : n < 2 ^ 31) (h0 : n ≠ 0) : Int32.ofNat n ≠ 0 := by
  rw [Ne, ofNat_eq_iff h]
  simpa using h0

theorem ofNat_ne_neg_one {n : Nat} (h : n < 2 ^ 31) : Int32.ofNat n ≠ -1 := by
  rw [Ne, ofNat_eq_iff h]
  have : (-1 : Int32).toInt = -1 := by decide
  omega

theorem gallerySearchPhoto_nil (s : Sock) (buff : MessagePhoto) (heap : Nat → Byte)
    (keyword : CString) (out : Out) (hsent : Sent s buff keyword 3 out) (hb : s.conn.bytes = []) :
    gallerySearchPhoto s buff heap keyword =
      some ⟨if s.conn.ending = .failed then -1 else 0, [], ⟨out, s.conn⟩⟩ := by
  unfold Sent at hsent
  have h0 : intOfBytes (intBytes 0) = 0 := intOfBytes_intBytes 0
  cases hend : s.conn.ending <;>
    simp [gallerySearchPhoto, hsent, recv_nil _ _ hb, Ending.nbytes, hend, h0]

theorem gallerySearchPhoto_cons (s : Sock) (buff : MessagePhoto) (heap : Nat → Byte)
    (keyword : CString) (out : Out) (hsent : Sent s buff keyword 3 out) (hb : s.conn.bytes ≠ [])
    (n : Nat) (hn : leNat (s.conn.bytes.take (s.conn.taken 4)) = n) (hlt : n < 2 ^ 31) :
    gallerySearchPhoto s buff heap keyword =
      if n = 0 then some ⟨0, [], ⟨out, s.conn.after (s.conn.taken 4)⟩⟩
      else some (searchArray out heap (s.conn.after (s.conn.taken 4)) n) := by
  unfold Sent at hsent
  have hret : ¬ ((s.conn.taken 4 : Nat) : Int) = -1 := by omega
  have hov := overlay_zero (s.conn.bytes.take (s.conn.taken 4))
  rw [hn] at hov
  have hsize : n * 4 % 2 ^ 64 = 4 * n := by omega
  by_cases h0 : n = 0
  · subst h0
    simp [gallerySearchPhoto, hsent, recv_cons _ _ hb, hret, hov]
  · have hne := ofNat_ne_zero hlt h0
    have harray := toSizeT_ofNat n hlt
    have hcount := toNatClampNeg_ofNat n hlt
    by_cases ha : (recv (s.conn.after (s.conn.taken 4)) (4 * n)).ret = -1 <;>
      simp only [gallerySearchPhoto, hsent, recv_cons _ _ hb, hret, hov, h0, hne, harray, hsize,
        hcount, searchArray, ha, Option.bind_eq_bind, Option.bind_some, if_false, if_true] <;>
      rfl

theorem uint32Array_flatMap (ids : List UInt32) :
    uint32Array ids.length (ids.flatMap uint32Bytes) = ids := by
  induction ids with
  | nil => rfl
  | cons id ids ih =>
      rw [List.flatMap_cons, List.length_cons, uint32Array, List.take_left' (length_uint32Bytes id),
        List.drop_left' (length_uint32Bytes id), uint32OfBytes_uint32Bytes, ih]

theorem SearchReply.length_stream (r : SearchReply) : r.stream.length = 4 + 4 * r.ids.length := by
  rw [SearchReply.stream, List.length_append, length_intBytes, length_flatMap_uint32Bytes]

theorem SearchReply.take_stream (r : SearchReply) :
    leNat (r.stream.take 4) = r.ids.length ∧ r.stream.drop 4 = r.ids.flatMap uint32Bytes := by
  have hn := r.n_photos
  have h4 : (intBytes (Int32.ofNat r.ids.length)).length = 4 := length_intBytes _
  rw [SearchReply.stream, List.take_left' h4, List.drop_left' h4]
  exact ⟨leNat_intBytes_ofNat _ (by omega), rfl⟩

theorem searchArray_ret (out : Out) (heap : Nat → Byte) (c : Conn) (n : Nat) (hlt : n < 2 ^ 31) :
    (searchArray out heap c n).ret = -1 ↔ c.bytes = [] ∧ c.ending = .failed := by
  have hne := ofNat_ne_neg_one hlt
  by_cases hb : c.bytes = []
  · cases hend : c.ending <;> simp [searchArray, recv_nil _ _ hb, hend, hb, Ending.nbytes, hne]
  · have hret : ¬ ((c.taken (4 * n) : Nat) : Int) = -1 := by omega
    simp [searchArray, recv_cons _ _ hb, hret, hb, hne]

theorem searchArray_cons (out : Out) (heap : Nat → Byte) (c : Conn) (n : Nat)
    (hb : c.bytes ≠ []) :
    (searchArray out heap c n).ret = Int32.ofNat n ∧
    c.bytes.length ≤ (searchArray out heap c n).sock.conn.bytes.length + 4 * n := by
  have hret : ¬ ((c.taken (4 * n) : Nat) : Int) = -1 := by omega
  have hk := (c.taken_le (4 * n)).1
  simp only [searchArray, recv_cons _ _ hb, if_neg hret, Conn.after, List.length_drop, true_and]
  omega

-- The array read from a connection that holds exactly its bytes.
theorem searchArray_full (out : Out) (heap : Nat → Byte) (c : Conn) (ids : List UInt32)
    (h0 : ids ≠ []) (hb : c.bytes = ids.flatMap uint32Bytes) :
    (searchArray out heap c ids.length).ret = Int32.ofNat ids.length ∧
    ((searchArray out heap c ids.length).sock.conn.bytes = [] ↔
      4 * ids.length ≤ c.available) ∧
    (4 * ids.length ≤ c.available → (searchArray out heap c ids.length).id_photos = ids) := by
  have hlen := length_flatMap_uint32Bytes ids
  have hpos := List.length_pos_iff.mpr h0
  have hne : c.bytes ≠ [] := List.ne_nil_of_length_pos (by rw [hb]; omega)
  have hret : ¬ ((c.taken (4 * ids.length) : Nat) : Int) = -1 := by omega
  have htaken : c.taken (4 * ids.length) = min c.available (4 * ids.length) := by
    rw [Conn.taken, hb, hlen, Nat.min_self]
  simp only [searchArray, recv_cons _ _ hne, if_neg hret, true_and]
  constructor
  · simp only [Conn.after, List.drop_eq_nil_iff, hb, hlen, htaken]
    omega
  · intro hav
    rw [htaken, Nat.min_eq_right hav, hb, List.take_of_length_le (by omega),
      overlay_of_length_le _ _ (by rw [length_malloc]; omega), uint32Array_flatMap]

theorem gallerySearchPhoto_full (s : Sock) (buff : MessagePhoto) (keyword : CString) (out : Out)
    (r : SearchReply) (hsent : Sent s buff keyword 3 out) (hfull : s.conn.bytes = r.stream) :
    SearchHandled (fun heap => gallerySearchPhoto s buff heap keyword) s.conn.bytes r ↔
      4 ≤ s.conn.available ∧
        (r.ids = [] ∨ 4 * r.ids.length ≤ (s.conn.after 4).available) := by
  have hlen := r.length_stream
  have hn := r.n_photos
  have hb : s.conn.bytes ≠ [] := List.ne_nil_of_length_pos (by rw [hfull]; omega)
  have hk : s.conn.taken 4 = min s.conn.available 4 := by
    rw [Conn.taken, hfull, hlen]
    omega
  have hlt := leNat_take_lt hn _ s.conn.bytes _
    (by rw [hfull]; exact List.prefix_rfl) (s.conn.taken_le 4).1
  have hcall := fun heap =>
    gallerySearchPhoto_cons s buff heap keyword out hsent hb _ rfl hlt
  simp only [SearchHandled, if_pos hfull]
  by_cases hav : 4 ≤ s.conn.available
  · rw [Nat.min_eq_right hav] at hk
    rw [hk, hfull, r.take_stream.1] at hcall
    have hafter : (s.conn.after 4).bytes = r.ids.flatMap uint32Bytes := by
      simp only [Conn.after, hfull, r.take_stream.2]
    by_cases h0 : r.ids = []
    · have hz : r.ids.length = 0 := by rw [h0]; rfl
      rw [h0] at hafter
      simp [hcall, h0, hav, hafter]
    · have hz : r.ids.length ≠ 0 := fun h => h0 (List.length_eq_zero_iff.mp h)
      have harray := fun heap => searchArray_full out heap (s.conn.after 4) r.ids h0 hafter
      simp only [hcall, if_neg hz, Option.some.injEq, exists_eq_left', harray, true_and, hav, h0,
        false_or]
      constructor
      · exact fun h => (h (fun _ => 0)).2
      · exact fun h heap => ⟨(harray heap).2.2 h, h⟩
  · constructor
    · intro h
      obtain ⟨res, hres, hret, -, hrest⟩ := h (fun _ => 0)
      rw [hcall] at hres
      have hafter : (s.conn.after (s.conn.taken 4)).bytes.length = 4 + 4 * r.ids.length - s.conn.taken 4 := by
        simp only [Conn.after, List.length_drop, hfull, hlen]
      split at hres
      · obtain rfl := Option.some.inj hres
        have := congrArg List.length hrest
        simp only [hafter, List.length_nil] at this
        omega
      · rename_i hz
        obtain rfl := Option.some.inj hres
        have hne : (s.conn.after (s.conn.taken 4)).bytes ≠ [] :=
          List.ne_nil_of_length_pos (by omega)
        obtain ⟨hr, hleft⟩ := searchArray_cons out (fun _ => 0) _
          (leNat (s.conn.bytes.take (s.conn.taken 4))) hne
        have hv := (ofNat_inj hlt hn).mp (hr.symm.trans hret)
        rw [hrest, hafter, List.length_nil, hv] at hleft
        omega
    · exact fun h => absurd h.1 hav

theorem gallerySearchPhoto_cut (s : Sock) (buff : MessagePhoto) (keyword : CString) (out : Out)
    (r : SearchReply) (hsent : Sent s buff keyword 3 out) (hpre : s.conn.bytes <+: r.stream)
    (hcut : s.conn.bytes ≠ r.stream) :
    SearchHandled (fun heap => gallerySearchPhoto s buff heap keyword) s.conn.bytes r ↔
      s.conn.ending = .failed ∧
        (s.conn.bytes = [] ∨ (s.conn.bytes.length ≤ 4 ∧
          s.conn.bytes.length ≤ s.conn.available ∧ leNat s.conn.bytes ≠ 0)) := by
  simp only [SearchHandled, if_neg hcut]
  by_cases hb : s.conn.bytes = []
  · have h01 : (0 : Int32) ≠ -1 := by decide
    simp only [gallerySearchPhoto_nil s buff _ keyword out hsent hb, Option.some.injEq,
      exists_eq_left', hb, true_or, and_true, forall_const]
    cases s.conn.ending <;> simp [h01]
  · have hlt := leNat_take_lt r.n_photos _ s.conn.bytes _ hpre (s.conn.taken_le 4).1
    have hcall := fun heap =>
      gallerySearchPhoto_cons s buff heap keyword out hsent hb _ rfl hlt
    have hpos := List.length_pos_iff.mpr hb
    have hall : s.conn.taken 4 = s.conn.bytes.length ↔
        s.conn.bytes.length ≤ 4 ∧ s.conn.bytes.length ≤ s.conn.available := by
      unfold Conn.taken
      omega
    have hrest : (s.conn.after (s.conn.taken 4)).bytes = [] ↔
        s.conn.taken 4 = s.conn.bytes.length := by
      have := (s.conn.taken_le 4).2
      simp only [Conn.after, List.drop_eq_nil_iff]
      omega
    by_cases h0 : leNat (s.conn.bytes.take (s.conn.taken 4)) = 0
    · have h01 : (0 : Int32) ≠ -1 := by decide
      simp only [hcall, if_pos h0, Option.some.injEq, exists_eq_left', h01, forall_const, false_iff,
        hb, false_or, not_and, ne_eq, not_not]
      intro _ h4 hav
      rw [hall.mpr ⟨h4, hav⟩, List.take_length] at h0
      exact h0
    · have hending : (s.conn.after (s.conn.taken 4)).ending = s.conn.ending := rfl
      simp only [hcall, if_neg h0, Option.some.injEq, exists_eq_left', forall_const, hb, false_or,
        searchArray_ret out _ _ _ hlt, hending, hrest, hall]
      constructor
      · rintro ⟨⟨h4, hav⟩, hend⟩
        rw [hall.mpr ⟨h4, hav⟩, List.take_length] at h0
        exact ⟨hend, h4, hav, h0⟩
      · rintro ⟨hend, h4, hav, -⟩
        exact ⟨⟨h4, hav⟩, hend⟩

theorem gallerySearchPhoto_iff (s : Sock) (buff : MessagePhoto) (keyword : CString) (out : Out)
    (r : SearchReply) (hsent : Sent s buff keyword 3 out) (hpre : s.conn.bytes <+: r.stream) :
    SearchHandled (fun heap => gallerySearchPhoto s buff heap keyword) s.conn.bytes r ↔
      WholeSearch s.conn r := by
  by_cases hfull : s.conn.bytes = r.stream
  · rw [gallerySearchPhoto_full s buff keyword out r hsent hfull]
    simp [WholeSearch, hfull]
  · rw [gallerySearchPhoto_cut s buff keyword out r hsent hpre hfull]
    simp [WholeSearch, hfull]

end Search

section Name

def NameHandled (call : (Nat → Byte) → Option NameResult) (arrived : List Byte)
    (r : NameReply) : Prop :=
  ∀ heap, ∃ res, call heap = some res ∧
    if arrived = r.stream then
      res.ret = (if r.name = [] then 0 else 1) ∧ res.photo_name = r.name ∧ res.sock.conn.bytes = []
    else res.ret = -1

-- No `recv` for the length finds more than it lacks, and all the bytes come, or some are
-- missing and the connection fails instead of closing.
def WholeName (c : Conn) (r : NameReply) : Prop :=
  (c.bytes = r.stream ∧ AlignedSizes c.chunks c.bytes.length [4]) ∨
  (c.bytes ≠ r.stream ∧ c.ending = .failed ∧
    (c.bytes.length < 4 ∨ AlignedSizes c.chunks c.bytes.length [4]))

-- The call once the request is out and `length` read as `n`.
def readName (out : Out) (heap : Nat → Byte) (c : Conn) (n : Nat) : NameResult :=
  if n = 0 then ⟨0, [], ⟨out, c⟩⟩
  else
    let name := recvAll c n
    if name.ret = -1 then ⟨-1, [], ⟨out, name.conn⟩⟩
    else ⟨1, (overlay name.stored (malloc heap n)).take n, ⟨out, name.conn⟩⟩

theorem galleryGetPhotoName_sent (s : Sock) (buff : MessagePhoto) (heap : Nat → Byte)
    (id_photo : UInt32) (out : Out) (hsent : Sent s buff (photoIdText id_photo) 5 out) (n : Nat)
    (hfit : (recvAll s.conn 4).stored.length ≤ 4) (hn : leNat (recvAll s.conn 4).stored = n)
    (hlt : n < 2 ^ 31) :
    galleryGetPhotoName s buff heap id_photo =
      some (if (recvAll s.conn 4).ret = -1 then ⟨-1, [], ⟨out, (recvAll s.conn 4).conn⟩⟩
        else readName out heap (recvAll s.conn 4).conn n) := by
  unfold Sent at hsent
  have hov := overlay_zero (recvAll s.conn 4).stored
  have hroom := Nat.not_lt.mpr hfit
  rw [hn] at hov
  have hsize := toSizeT_ofNat n hlt
  by_cases hret : (recvAll s.conn 4).ret = -1
  · simp [galleryGetPhotoName, hsent, hroom, hret]
  · by_cases h0 : n = 0
    · subst h0
      simp [galleryGetPhotoName, hsent, hroom, hret, hov, readName]
    · have hne := ofNat_ne_zero hlt h0
      by_cases hname : (recvAll (recvAll s.conn 4).conn n).ret = -1 <;>
        simp [galleryGetPhotoName, hsent, hroom, hret, hov, readName, h0, hne, hsize, hname,
          -Int32.toInt_ofNat']

theorem not_nameHandled_past (s : Sock) (buff : MessagePhoto) (id_photo : UInt32) (out : Out)
    (hsent : Sent s buff (photoIdText id_photo) 5 out)
    (hpast : 4 < (recvAll s.conn 4).stored.length) (arrived : List Byte) (r : NameReply) :
    ¬NameHandled (fun heap => galleryGetPhotoName s buff heap id_photo) arrived r := by
  intro h
  unfold Sent at hsent
  obtain ⟨res, hcall, -⟩ := h (fun _ => 0)
  simp [galleryGetPhotoName, hsent, hpast] at hcall

-- A name that ends too early is reported as an error only when `recv_all` fails.
theorem readName_ret (out : Out) (heap : Nat → Byte) (c : Conn) (n : Nat)
    (hb : c.bytes.length < n) (hlt : n < 2 ^ 31) :
    (readName out heap c n).ret = -1 ↔ c.ending = .failed := by
  have h0 : n ≠ 0 := by omega
  obtain ⟨hbytes, -, hout⟩ := recvAll_outcome n c (by omega) hlt
  have hlen := congrArg List.length hbytes
  simp only [List.length_append] at hlen
  rcases hout with ⟨-, hret, -⟩ | ⟨hl, -⟩ | ⟨hl, -⟩
  · cases hend : c.ending <;> simp [readName, h0, hret, hend, Ending.nbytes]
  · omega
  · omega

theorem readName_full (out : Out) (heap : Nat → Byte) (c : Conn) (n : Nat)
    (hb : c.bytes.length = n) (hlt : n < 2 ^ 31) :
    (readName out heap c n).ret = (if c.bytes = [] then 0 else 1) ∧
    (readName out heap c n).photo_name = c.bytes ∧
    (readName out heap c n).sock.conn.bytes = [] := by
  by_cases h0 : n = 0
  · have hnil : c.bytes = [] := List.length_eq_zero_iff.mp (hb.trans h0)
    simp [readName, h0, hnil]
  · have hne : c.bytes ≠ [] := by
      intro h
      rw [h] at hb
      exact h0 hb.symm
    obtain ⟨hbytes, -, hout⟩ := recvAll_outcome n c (by omega) hlt
    have hlen := congrArg List.length hbytes
    simp only [List.length_append] at hlen
    rcases hout with ⟨hl, -, hrest⟩ | ⟨hl, hret⟩ | ⟨hl, -⟩
    · rw [hrest, List.length_nil] at hlen
      omega
    · have hrest : (recvAll c n).conn.bytes = [] := List.length_eq_zero_iff.mp (by omega)
      rw [hrest, List.append_nil] at hbytes
      have hnot : ¬ (recvAll c n).ret = -1 := by omega
      have hov : overlay c.bytes (malloc heap n) = c.bytes :=
        overlay_of_length_le _ _ (by rw [length_malloc, hb])
      simp only [readName, if_neg h0, if_neg hnot, hbytes, hov, hrest, if_neg hne, true_and, and_true]
      rw [← hb, List.take_length]
    · omega

theorem NameReply.length_name_lt (r : NameReply) : r.name.length < 2 ^ 31 := by
  cases r with
  | absent => decide
  | present name fits =>
      simp only [NameReply.name, List.length_append, List.length_singleton, SIZE] at fits ⊢
      omega

theorem NameReply.length_stream (r : NameReply) : r.stream.length = 4 + r.name.length := by
  rw [NameReply.stream, List.length_append, length_intBytes]

-- The first four bytes of the reply, once they are there.
theorem NameReply.leNat_take (r : NameReply) (bytes : List Byte) (hpre : bytes <+: r.stream)
    (h4 : 4 ≤ bytes.length) : leNat (bytes.take 4) = r.name.length := by
  obtain ⟨more, hmore⟩ := hpre
  have hlt := r.length_name_lt
  rw [← @List.take_append_of_le_length _ _ more _ h4, hmore, NameReply.stream,
    List.take_left' (length_intBytes _), leNat_intBytes_ofNat _ (by omega)]

theorem galleryGetPhotoName_full (s : Sock) (buff : MessagePhoto) (id_photo : UInt32) (out : Out)
    (r : NameReply) (hsent : Sent s buff (photoIdText id_photo) 5 out)
    (hfull : s.conn.bytes = r.stream) :
    NameHandled (fun heap => galleryGetPhotoName s buff heap id_photo) s.conn.bytes r ↔
      (recvAll s.conn 4).stored.length = 4 := by
  have hL := r.length_name_lt
  have hstream := r.length_stream
  obtain ⟨hbytes, -, hout⟩ := recvAll_outcome 4 s.conn (by decide) (by decide)
  rw [hfull] at hbytes
  have hlen := congrArg List.length hbytes
  simp only [List.length_append, hstream] at hlen
  rcases hout with ⟨hl, -, hrest⟩ | ⟨hl, hret⟩ | ⟨hl, -⟩
  · rw [hrest, List.length_nil] at hlen
    omega
  · have hnot : ¬ (recvAll s.conn 4).ret = -1 := by omega
    have hn : leNat (recvAll s.conn 4).stored = r.name.length := by
      rw [← @List.take_of_length_le _ 4 _ hl.le]
      exact r.leNat_take _ (hbytes ▸ List.prefix_append _ _) hl.ge
    have hrest : (recvAll s.conn 4).conn.bytes = r.name := by
      have hdrop := congrArg (List.drop 4) hbytes
      rwa [List.drop_left' hl, NameReply.stream, List.drop_left' (length_intBytes _)] at hdrop
    have hread := fun heap => readName_full out heap (recvAll s.conn 4).conn _
      (congrArg List.length hrest) hL
    simp only [hrest] at hread
    simp only [NameHandled, if_pos hfull, Option.some.injEq, exists_eq_left', hl, iff_true, hread,
      galleryGetPhotoName_sent s buff _ id_photo out hsent _ hl.le hn hL, if_neg hnot]
    exact fun _ => ⟨trivial, trivial, trivial⟩
  · exact iff_of_false (not_nameHandled_past s buff id_photo out hsent hl _ r) (by omega)

theorem galleryGetPhotoName_cut (s : Sock) (buff : MessagePhoto) (id_photo : UInt32) (out : Out)
    (r : NameReply) (hsent : Sent s buff (photoIdText id_photo) 5 out)
    (hpre : s.conn.bytes <+: r.stream) (hcut : s.conn.bytes ≠ r.stream) :
    NameHandled (fun heap => galleryGetPhotoName s buff heap id_photo) s.conn.bytes r ↔
      s.conn.ending = .failed ∧ (recvAll s.conn 4).stored.length ≤ 4 := by
  have hL := r.length_name_lt
  have hstream := r.length_stream
  have hshort : s.conn.bytes.length < r.stream.length :=
    Nat.lt_of_le_of_ne hpre.length_le (fun h => hcut (hpre.eq_of_length h))
  obtain ⟨hbytes, hend, hout⟩ := recvAll_outcome 4 s.conn (by decide) (by decide)
  have hlen := congrArg List.length hbytes
  simp only [List.length_append] at hlen
  have hstored : (recvAll s.conn 4).stored <+: r.stream :=
    (hbytes ▸ List.prefix_append _ _).trans hpre
  by_cases hfit : (recvAll s.conn 4).stored.length ≤ 4
  case neg =>
    exact iff_of_false (not_nameHandled_past s buff id_photo out hsent (Nat.not_le.mp hfit) _ r)
      (fun h => hfit h.2)
  have htake : (recvAll s.conn 4).stored.take 4 = (recvAll s.conn 4).stored :=
    List.take_of_length_le hfit
  have hlt := leNat_take_lt hL _ _ 4 hstored (by decide)
  rw [htake] at hlt
  have hcall := fun heap =>
    galleryGetPhotoName_sent s buff heap id_photo out hsent _ hfit rfl hlt
  simp only [NameHandled, if_neg hcut, hcall, Option.some.injEq, exists_eq_left', hfit, and_true]
  rcases hout with ⟨hl, hret, hrest⟩ | ⟨hl, hret⟩ | ⟨hl, -⟩
  · cases hending : s.conn.ending with
    | failed => simp [hret, hending, Ending.nbytes]
    | closed =>
        have hnot : ¬ (recvAll s.conn 4).ret = -1 := by
          rw [hret, hending]
          decide
        simp only [if_neg hnot, reduceCtorEq, iff_false]
        intro h
        by_cases h0 : leNat (recvAll s.conn 4).stored = 0
        · have hzero := h (fun _ => 0)
          simp [readName, h0] at hzero
        · have hfailed := (readName_ret out (fun _ => 0) _ _ (by rw [hrest]; simp; omega) hlt).mp
            (h (fun _ => 0))
          rw [hend, hending] at hfailed
          cases hfailed
  · have hnot : ¬ (recvAll s.conn 4).ret = -1 := by omega
    have hn := r.leNat_take _ hstored (by omega)
    rw [htake] at hn
    simp only [if_neg hnot, hn, readName_ret out _ (recvAll s.conn 4).conn _ (by omega) hL, hend,
      forall_const]
  · omega

theorem galleryGetPhotoName_iff (s : Sock) (buff : MessagePhoto) (id_photo : UInt32) (out : Out)
    (r : NameReply) (hsent : Sent s buff (photoIdText id_photo) 5 out)
    (hpre : s.conn.bytes <+: r.stream) :
    NameHandled (fun heap => galleryGetPhotoName s buff heap id_photo) s.conn.bytes r ↔
      WholeName s.conn r := by
  obtain ⟨hbytes, -, hout⟩ := recvAll_outcome 4 s.conn (by decide) (by decide)
  have hlen := congrArg List.length hbytes
  simp only [List.length_append] at hlen
  -- With four bytes there, the length is read whole just when no `recv` finds too much.
  have haligned : 4 ≤ s.conn.bytes.length →
      ((recvAll s.conn 4).stored.length = 4 ↔
        AlignedSizes s.conn.chunks s.conn.bytes.length [4]) := by
    intro h4
    rw [← framed_iff_alignedSizes [4] (by simp) (by simp) s.conn (by simpa using h4),
      framed_cons s.conn 4 [] (by decide) (by decide)]
    simp [Framed]
  by_cases hfull : s.conn.bytes = r.stream
  · have h4 : 4 ≤ s.conn.bytes.length := by
      rw [hfull, r.length_stream]
      omega
    rw [galleryGetPhotoName_full s buff id_photo out r hsent hfull, haligned h4]
    simp [WholeName, hfull]
  · rw [galleryGetPhotoName_cut s buff id_photo out r hsent hpre hfull]
    have hfit : (recvAll s.conn 4).stored.length ≤ 4 ↔
        s.conn.bytes.length < 4 ∨ AlignedSizes s.conn.chunks s.conn.bytes.length [4] := by
      rcases Nat.lt_or_ge s.conn.bytes.length 4 with hlt | h4
      · exact iff_of_true (by omega) (Or.inl hlt)
      · rw [← haligned h4, or_iff_right (Nat.not_lt.mpr h4)]
        rcases hout with ⟨hl, -, hrest⟩ | ⟨hl, -⟩ | ⟨hl, -⟩
        · rw [hrest, List.length_nil] at hlen
          omega
        · omega
        · omega
    rw [hfit]
    simp [WholeName, hfull]

end Name

-- When the four calls handle every cut and every chunking of a reply as
-- documented: the peer's answer if all of it came, the error value otherwise.
theorem library_replies_iff (s : Sock) (buff : MessagePhoto) :
    (∀ (id_photo : UInt32) (keyword : CString) (out : Out) (answer : Int32),
      Sent s buff (addKeywordText id_photo keyword) 2 out → s.conn.bytes <+: intBytes answer →
      (IntHandled (fun success => galleryAddKeyword s buff success id_photo keyword) s.conn.bytes
        answer 0 ↔ WholeInt s.conn)) ∧
    (∀ (keyword : CString) (out : Out) (r : SearchReply),
      Sent s buff keyword 3 out → s.conn.bytes <+: r.stream →
      (SearchHandled (fun heap => gallerySearchPhoto s buff heap keyword) s.conn.bytes r ↔
        WholeSearch s.conn r)) ∧
    (∀ (id_photo : UInt32) (out : Out) (answer : Int32),
      Sent s buff (photoIdText id_photo) 4 out → s.conn.bytes <+: intBytes answer →
      (IntHandled (fun success => galleryDeletePhoto s buff success id_photo) s.conn.bytes
        answer (-1) ↔ WholeInt s.conn)) ∧
    (∀ (id_photo : UInt32) (out : Out) (r : NameReply),
      Sent s buff (photoIdText id_photo) 5 out → s.conn.bytes <+: r.stream →
      (NameHandled (fun heap => galleryGetPhotoName s buff heap id_photo) s.conn.bytes r ↔
        WholeName s.conn r)) :=
  ⟨fun _ _ out answer hsent hpre => requestInt_iff s buff _ 2 0 out answer hsent hpre,
    fun keyword out r hsent hpre => gallerySearchPhoto_iff s buff keyword out r hsent hpre,
    fun _ out answer hsent hpre => requestInt_iff s buff _ 4 (-1) out answer hsent hpre,
    fun id_photo out r hsent hpre => galleryGetPhotoName_iff s buff id_photo out r hsent hpre⟩

def idle : Out := ⟨[], []⟩

-- The peer closes the connection before it answers.
def closedEarly : Sock := ⟨idle, ⟨[], [], .closed⟩⟩

-- The reply to a search arrives in three pieces.
def splitReply : Sock :=
  ⟨idle, ⟨SearchReply.stream ⟨[5, 6], by decide⟩, [4, 4], .failed⟩⟩

def sentBytes (message : CString) (type : Int32) : Out :=
  ⟨((MessagePhoto.fill blankMessage message type).map MessagePhoto.stream).getD [], []⟩

-- The whole reply arrives, in pieces of the given sizes.
def arriving (reply : List Byte) (chunks : List Nat) : Sock := ⟨idle, ⟨reply, chunks, .closed⟩⟩

theorem library_replies_iff_wholeAndCut :
    IntHandled (fun success => galleryAddKeyword (arriving (intBytes 1) [4]) blankMessage success 1 [97])
      (intBytes 1) 1 0 ∧
    ¬IntHandled (fun success => galleryAddKeyword closedEarly blankMessage success 1 [97]) [] 1 0 ∧
    SearchHandled (fun heap =>
        gallerySearchPhoto (arriving splitReply.conn.bytes [4, 8]) blankMessage heap [97])
      splitReply.conn.bytes ⟨[5, 6], by decide⟩ ∧
    IntHandled (fun success => galleryDeletePhoto (arriving (intBytes 1) [4]) blankMessage success 1)
      (intBytes 1) 1 (-1) ∧
    NameHandled (fun heap =>
        galleryGetPhotoName (arriving (NameReply.stream (.present [112] (by decide))) [1, 3, 2])
          blankMessage heap 1)
      (NameReply.stream (.present [112] (by decide))) (.present [112] (by decide)) := by
  refine ⟨?_, ?_, ?_, ?_, ?_⟩
  · exact ((library_replies_iff (arriving (intBytes 1) [4]) blankMessage).1 1 [97]
      (sentBytes (addKeywordText 1 [97]) 2) 1 (by unfold Sent; decide +kernel) List.prefix_rfl).mpr
      (Or.inl (by decide))
  · intro h
    have hwhole := ((library_replies_iff closedEarly blankMessage).1 1 [97]
      (sentBytes (addKeywordText 1 [97]) 2) 1 (by unfold Sent; decide +kernel) List.nil_prefix).mp h
    rcases hwhole with ⟨hlength, -⟩ | ⟨-, hfailed⟩
    · exact absurd hlength (by decide)
    · exact absurd hfailed (by decide)
  · exact ((library_replies_iff (arriving splitReply.conn.bytes [4, 8]) blankMessage).2.1 [97]
      (sentBytes [97] 3) ⟨[5, 6], by decide⟩ (by unfold Sent; decide +kernel) List.prefix_rfl).mpr
      (Or.inl ⟨rfl, by decide, Or.inr (by decide)⟩)
  · exact ((library_replies_iff (arriving (intBytes 1) [4]) blankMessage).2.2.1 1
      (sentBytes (photoIdText 1) 4) 1 (by unfold Sent; decide +kernel) List.prefix_rfl).mpr
      (Or.inl (by decide))
  · exact ((library_replies_iff (arriving (NameReply.stream (.present [112] (by decide))) [1, 3, 2])
      blankMessage).2.2.2 1 (sentBytes (photoIdText 1) 5) (.present [112] (by decide))
      (by unfold Sent; decide +kernel) List.prefix_rfl).mpr
      (Or.inl ⟨rfl, by simp [arriving, AlignedSizes, Aligned]⟩)

-- On an early close `gallery_add_keyword` and `gallery_delete_photo` return what
-- the unset local held and `gallery_get_photo_name` says the photo does not
-- exist; a split search reply loses its second id.
theorem replies_mishandled :
    ¬ IntHandled (fun success => galleryAddKeyword closedEarly blankMessage success 1 [97]) [] 1 0 ∧
    ¬ SearchHandled (fun heap => gallerySearchPhoto splitReply blankMessage heap [97])
        splitReply.conn.bytes ⟨[5, 6], by decide⟩ ∧
    ¬ IntHandled (fun success => galleryDeletePhoto closedEarly blankMessage success 1) [] 1 (-1) ∧
    ¬ NameHandled (fun heap => galleryGetPhotoName closedEarly blankMessage heap 1) [] .absent := by
  have hadd : (galleryAddKeyword closedEarly blankMessage 1 1 [97]).map Prod.fst = some 1 := by
    decide +kernel
  have hsearch : (gallerySearchPhoto splitReply blankMessage (fun _ => 0) [97]).map
      (fun res => res.id_photos) = some [5, 0] := by
    decide +kernel
  have hdelete : (galleryDeletePhoto closedEarly blankMessage 1 1).map Prod.fst = some 1 := by
    decide +kernel
  have hname : (galleryGetPhotoName closedEarly blankMessage (fun _ => 0) 1).map
      (fun res => res.ret) = some 0 := by
    decide +kernel
  refine ⟨fun h => ?_, fun h => ?_, fun h => ?_, fun h => ?_⟩
  · obtain ⟨ret, s, hcall, hret⟩ := h 1
    have h1 : 1 = ret :=
      Option.some.inj (hadd.symm.trans (congrArg (Option.map Prod.fst) hcall))
    rw [if_neg (by decide), ← h1] at hret
    exact absurd hret (by decide)
  · obtain ⟨res, hcall, hres⟩ := h (fun _ => 0)
    have h1 : [5, 0] = res.id_photos :=
      Option.some.inj (hsearch.symm.trans (congrArg (Option.map SearchResult.id_photos) hcall))
    have hids := ((if_pos rfl).mp hres).2.1
    rw [← h1] at hids
    exact absurd hids (by decide)
  · obtain ⟨ret, s, hcall, hret⟩ := h 1
    have h1 : 1 = ret :=
      Option.some.inj (hdelete.symm.trans (congrArg (Option.map Prod.fst) hcall))
    rw [if_neg (by decide), ← h1] at hret
    exact absurd hret (by decide)
  · obtain ⟨res, hcall, hret⟩ := h (fun _ => 0)
    have h1 := Option.some.inj (hname.symm.trans (congrArg (Option.map NameResult.ret) hcall))
    rw [if_neg (by decide), ← h1] at hret
    exact absurd hret (by decide)

end Gallery
