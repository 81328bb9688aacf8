import Gallery.Socket.Theorems

namespace Gallery

-- Successive calls `recv_all(n1)`, `recv_all(n2)`, ... each return the size asked
-- for and store exactly the next bytes of the stream, none past that size.
def Framed (c : Conn) : List Nat → Prop
  | [] => True
  | n :: ns =>
      (recvAll c n).ret = n ∧ (recvAll c n).stored = c.bytes.take n ∧
        Framed (recvAll c n).conn ns

instance decidableFramed : (c : Conn) → (ns : List Nat) → Decidable (Framed c ns)
  | _, [] => inferInstanceAs (Decidable True)
  | c, n :: ns =>
      have := decidableFramed (recvAll c n).conn ns
      inferInstanceAs (Decidable (_ ∧ _ ∧ _))

-- A delivery schedule for a message of `n` bytes, `missing` of them still to
-- come out of `avail`, and for the messages after it: no call made after a
-- partial read of a message finds more bytes than that message lacks.
def Aligned : List Nat → Nat → Nat → Nat → List Nat → Prop
  | [], avail, n, missing, _ => missing = n ∨ avail = missing
  | d :: ds, avail, n, missing, ns =>
      (missing = n ∨ d ≤ missing ∨ avail = missing) ∧
        if max 1 d < missing then Aligned ds (avail - max 1 d) n (missing - max 1 d) ns
        else
          match ns with
          | [] => True
          | n' :: ns' => Aligned ds (avail - missing) n' n' ns'

def AlignedSizes (chunks : List Nat) (avail : Nat) : List Nat → Prop
  | [] => True
  | n :: ns => Aligned chunks avail n n ns

theorem aligned_cons (d : Nat) (ds : List Nat) (avail n missing : Nat) (ns : List Nat) :
    Aligned (d :: ds) avail n missing ns ↔
      (missing = n ∨ d ≤ missing ∨ avail = missing) ∧
        if max 1 d < missing then Aligned ds (avail - max 1 d) n (missing - max 1 d) ns
        else AlignedSizes ds (avail - missing) ns := by
  cases ns <;> rfl

theorem framed_cons (c : Conn) (n : Nat) (ns : List Nat) (h0 : 0 < n) (hn : n < 2 ^ 31) :
    Framed c (n :: ns) ↔
      (recvAll c n).stored.length = n ∧ Framed (recvAll c n).conn ns := by
  obtain ⟨hbytes, _, hout⟩ := recvAll_outcome n c h0 hn
  have hnb := c.ending.nbytes_nonpos
  constructor
  · rintro ⟨hret, -, hrest⟩
    refine ⟨?_, hrest⟩
    rcases hout with ⟨-, hr, -⟩ | ⟨hl, -⟩ | ⟨-, hr⟩
    · omega
    · exact hl
    · omega
  · rintro ⟨hl, hrest⟩
    refine ⟨?_, ?_, hrest⟩
    · rcases hout with ⟨hlt, -, -⟩ | ⟨-, hr⟩ | ⟨hgt, -⟩
      · omega
      · exact hr
      · omega
    · rw [← hbytes, List.take_left' hl]

theorem framed_conn_bytes (c : Conn) (n : Nat) (ns : List Nat) (h0 : 0 < n) (hn : n < 2 ^ 31)
    (h : Framed c (n :: ns)) : (recvAll c n).conn.bytes = c.bytes.drop n := by
  have hl := ((framed_cons c n ns h0 hn).mp h).1
  rw [← (recvAll_outcome n c h0 hn).1, List.drop_left' hl]

-- A connection that holds just the bytes asked for gives them in any chunking.
theorem recvAll_exact {c : Conn} {bytes : List Byte} (hb : c.bytes = bytes) (h0 : bytes ≠ [])
    (hlt : bytes.length < 2 ^ 31) :
    (recvAll c bytes.length).stored = bytes ∧ (recvAll c bytes.length).ret = bytes.length := by
  obtain ⟨hgot, -, hcases⟩ :=
    recvAll_outcome bytes.length c (List.length_pos_iff.mpr h0) hlt
  rw [hb] at hgot
  have hlen := congrArg List.length hgot
  rw [List.length_append] at hlen
  rcases hcases with ⟨hlow, -, hnil⟩ | ⟨hall, hret⟩ | ⟨hover, -⟩
  · rw [hnil, List.length_nil] at hlen
    omega
  · have hnil : (recvAll c bytes.length).conn.bytes = [] := List.length_eq_zero_iff.mp (by omega)
    rw [hnil, List.append_nil] at hgot
    exact ⟨hgot, hret⟩
  · omega

theorem recvAll_ret_lt (c : Conn) (n : Nat) : (recvAll c n).ret < 2 ^ 31 := by
  suffices h : ∀ fuel s, s.total_bytes < 2 ^ 31 → (recvAllLoop n fuel s).ret n < 2 ^ 31 from
    h _ _ (by norm_num)
  have hret : ∀ s : RecvLoop, s.total_bytes < 2 ^ 31 → s.ret n < 2 ^ 31 := by
    intro s hs
    unfold RecvLoop.ret
    split_ifs <;> omega
  intro fuel
  induction fuel with
  | zero => exact hret
  | succ fuel ih =>
      intro s hs
      by_cases ht : toSizeT s.total_bytes < n
      · by_cases hb : s.conn.bytes = []
        · rw [recvAllLoop_nil n fuel s ht hb]
          exact hret _ hs
        · rw [recvAllLoop_cons n fuel s ht hb]
          exact ih _ (toInt_lt _)
      · rw [recvAllLoop_done n _ s (by omega)]
        exact hret s hs

theorem framed_sizes_lt (c : Conn) (ns : List Nat) (h : Framed c ns) :
    ∀ n ∈ ns, n < 2 ^ 31 := by
  induction ns generalizing c with
  | nil => simp
  | cons n ns ih =>
      obtain ⟨hret, -, hrest⟩ := h
      have hlt := recvAll_ret_lt c n
      intro m hm
      rcases List.mem_cons.mp hm with rfl | hm
      · omega
      · exact ih _ hrest m hm

-- One exact read of a stream whose next bytes are `bs`.
theorem recvAll_framed (c : Conn) (bs more : List Byte) (ns : List Nat)
    (hb : c.bytes = bs ++ more) (hbs : bs ≠ []) (h : Framed c (bs.length :: ns)) :
    (recvAll c bs.length).ret = bs.length ∧ (recvAll c bs.length).stored = bs ∧
      (recvAll c bs.length).conn.bytes = more ∧ Framed (recvAll c bs.length).conn ns := by
  have hn := framed_sizes_lt c _ h bs.length (by simp)
  have hrest := framed_conn_bytes c _ ns (List.length_pos_iff.mpr hbs) hn h
  obtain ⟨hret, hstored, hframed⟩ := h
  refine ⟨hret, ?_, ?_, hframed⟩
  · rw [hstored, hb, List.take_left]
  · rw [hrest, hb, List.drop_left]

theorem alignedSizes_nil (avail : Nat) (ns : List Nat) : AlignedSizes [] avail ns := by
  cases ns with
  | nil => trivial
  | cons n ns => exact Or.inl rfl

-- One call inside a message, seen on the schedule: it either stays inside the
-- message, or completes it, or runs past its end.
theorem aligned_iff (c : Conn) (n missing : Nat) (ns : List Nat) (h0 : 0 < missing)
    (hmn : missing ≤ n) (hb : missing + ns.sum ≤ c.bytes.length) :
    Aligned c.chunks c.bytes.length n missing ns ↔
      (c.taken n < missing ∧
        Aligned c.chunks.tail (c.bytes.length - c.taken n) n (missing - c.taken n) ns) ∨
      (c.taken n = missing ∧ AlignedSizes c.chunks.tail (c.bytes.length - missing) ns) := by
  unfold Conn.taken Conn.available
  cases c.chunks with
  | nil =>
      simp only [Aligned, List.tail_nil, alignedSizes_nil, and_true]
      omega
  | cons d ds =>
      simp only [aligned_cons, List.tail_cons]
      by_cases hd : max 1 d < missing
      · have hk : min (max 1 d) (min n c.bytes.length) = max 1 d := by omega
        rw [if_pos hd, hk]
        constructor
        · rintro ⟨-, h⟩
          exact Or.inl ⟨hd, h⟩
        · rintro (⟨-, h⟩ | ⟨h, -⟩)
          · exact ⟨by omega, h⟩
          · omega
      · rw [if_neg hd]
        constructor
        · rintro ⟨hc, h⟩
          exact Or.inr ⟨by omega, h⟩
        · rintro (⟨h, -⟩ | ⟨hk, h⟩)
          · omega
          · exact ⟨by omega, h⟩

theorem recvAllLoop_extends_stored (n fuel : Nat) (s : RecvLoop) :
    s.stored <+: (recvAllLoop n fuel s).stored := by
  induction fuel generalizing s with
  | zero => exact List.prefix_rfl
  | succ fuel ih =>
      by_cases ht : toSizeT s.total_bytes < n
      · by_cases hb : s.conn.bytes = []
        · have hnil := recvAllLoop_nil n fuel s ht hb
          exact ⟨[], by rw [hnil, List.append_nil]⟩
        · rw [recvAllLoop_cons n fuel s ht hb]
          exact (List.prefix_append _ _).trans (ih (s.next n))
      · have hdone := recvAllLoop_done n (fuel + 1) s (by omega)
        exact ⟨[], by rw [hdone, List.append_nil]⟩

-- The induction is on the calls left to `recv`; `ih` speaks of the messages
-- that follow, wherever this one leaves the connection.
theorem recvAllLoop_aligned (n : Nat) (hn : n < 2 ^ 31) (ns : List Nat)
    (ih : ∀ c : Conn, ns.sum ≤ c.bytes.length →
      (Framed c ns ↔ AlignedSizes c.chunks c.bytes.length ns))
    (fuel missing : Nat) (s : RecvLoop) (h0 : 0 < missing) (hmn : missing ≤ n)
    (hstored : s.stored.length = n - missing) (htotal : s.total_bytes = s.stored.length)
    (hb : missing + ns.sum ≤ s.conn.bytes.length) (hfuel : s.conn.bytes.length < fuel) :
    (recvAllLoop n fuel s).stored.length = n ∧ Framed (recvAllLoop n fuel s).conn ns ↔
      Aligned s.conn.chunks s.conn.bytes.length n missing ns := by
  induction fuel generalizing missing s with
  | zero => omega
  | succ fuel ihf =>
      have hne : s.conn.bytes ≠ [] := List.ne_nil_of_length_pos (by omega)
      have hsize : toSizeT s.total_bytes < n := by
        rw [htotal, toSizeT_of_lt _ (by omega) (by omega)]
        omega
      rw [recvAllLoop_cons n fuel s hsize hne, aligned_iff _ n missing ns h0 hmn hb]
      have hk := s.conn.taken_pos n (by omega) hne
      have hlen := s.next_stored_length n
      have htot := s.next_total n htotal
      have hbytes : (s.next n).conn.bytes.length = s.conn.bytes.length - s.conn.taken n :=
        List.length_drop
      rcases Nat.lt_trichotomy (s.conn.taken n) missing with hlt | heq | hgt
      · rw [toInt_of_lt _ (by omega) (by omega)] at htot
        rw [ihf (missing - s.conn.taken n) (s.next n) (by omega) (by omega) (by omega) htot
          (by omega) (by omega), hbytes]
        constructor
        · exact fun h => Or.inl ⟨hlt, h⟩
        · rintro (⟨-, h⟩ | ⟨h, -⟩)
          · exact h
          · omega
      · rw [toInt_of_lt _ (by omega) (by omega)] at htot
        have hdone : n ≤ toSizeT (s.next n).total_bytes := by
          rw [htot, toSizeT_of_lt _ (by omega) (by omega)]
          omega
        rw [recvAllLoop_done n fuel _ hdone, ih _ (by omega), hbytes, heq]
        constructor
        · rintro ⟨-, h⟩
          exact Or.inr ⟨rfl, h⟩
        · rintro (⟨h, -⟩ | ⟨-, h⟩)
          · omega
          · exact ⟨by omega, h⟩
      · constructor
        · rintro ⟨h, -⟩
          have hpre := (recvAllLoop_extends_stored n fuel (s.next n)).length_le
          omega
        · rintro (⟨h, -⟩ | ⟨h, -⟩) <;> omega

theorem framed_iff_alignedSizes (ns : List Nat) (h0 : ∀ n ∈ ns, 0 < n)
    (hn : ∀ n ∈ ns, n < 2 ^ 31) (c : Conn) (hb : ns.sum ≤ c.bytes.length) :
    Framed c ns ↔ AlignedSizes c.chunks c.bytes.length ns := by
  induction ns generalizing c with
  | nil => exact Iff.rfl
  | cons n ns ih =>
      have hpos := h0 n (by simp)
      have hlt := hn n (by simp)
      rw [framed_cons c n ns hpos hlt]
      exact recvAllLoop_aligned n hlt ns
        (ih (fun m hm => h0 m (by simp [hm])) (fun m hm => hn m (by simp [hm])))
        (c.bytes.length + 1) n ⟨0, 0, [], c⟩ hpos (Nat.le_refl n) (by simp) (by simp)
        (by simpa using hb) (by simp)

-- A network that never cuts a message nor joins two delivers every read.
theorem framed_exact (ns : List Nat) (hns : ∀ n ∈ ns, 0 < n ∧ n < 2 ^ 31) (bytes : List Byte)
    (ending : Ending) (hb : ns.sum ≤ bytes.length) : Framed ⟨bytes, ns, ending⟩ ns := by
  rw [framed_iff_alignedSizes ns (fun n hn => (hns n hn).1) (fun n hn => (hns n hn).2) _ hb]
  generalize bytes.length = avail
  clear hb
  induction ns generalizing avail with
  | nil => trivial
  | cons n ns ih =>
      have hpos := (hns n (by simp)).1
      simp only [AlignedSizes]
      rw [aligned_cons, if_neg (by omega)]
      exact ⟨Or.inl rfl, ih (fun m hm => hns m (by simp [hm])) _⟩

section Reads

-- A call of `recv` finds all it asks for.
def Conn.Whole (c : Conn) : Prop := c.chunks = []

theorem framed_of_whole {c : Conn} (hc : c.Whole) (ns : List Nat)
    (hns : ∀ n ∈ ns, 0 < n ∧ n < 2 ^ 31) (hb : ns.sum ≤ c.bytes.length) : Framed c ns := by
  rw [framed_iff_alignedSizes ns (fun n hn => (hns n hn).1) (fun n hn => (hns n hn).2) c hb, hc]
  exact alignedSizes_nil _ ns

theorem whole_of_recvAll {c : Conn} (hc : c.Whole) (n : Nat) : (recvAll c n).conn.Whole := by
  suffices h : ∀ fuel s, s.conn.Whole → (recvAllLoop n fuel s).conn.Whole from h _ _ hc
  intro fuel
  induction fuel with
  | zero => exact fun s hs => hs
  | succ fuel ih =>
      intro s hs
      by_cases ht : toSizeT s.total_bytes < n
      · by_cases hb : s.conn.bytes = []
        · rw [recvAllLoop_nil n fuel s ht hb]
          exact hs
        · rw [recvAllLoop_cons n fuel s ht hb]
          apply ih
          change s.conn.chunks.tail = []
          rw [hs, List.tail_nil]
      · rw [recvAllLoop_done n _ s (Nat.le_of_not_lt ht)]
        exact hs

-- 2 GiB or more do not fit the `int` in which `recv_all` counts.
theorem recvAll_overflow {c : Conn} (hc : c.Whole) (hlo : 2 ^ 31 ≤ c.bytes.length) :
    (recvAll c c.bytes.length).ret ≤ 0 := by
  have hne : c.bytes ≠ [] := List.ne_nil_of_length_pos (by omega)
  have htaken : c.taken c.bytes.length = c.bytes.length := by
    simp [Conn.taken, Conn.available, show c.chunks = [] from hc]
  let s : RecvLoop := RecvLoop.next c.bytes.length ⟨0, 0, [], c⟩
  have hloop : recvAllLoop c.bytes.length (c.bytes.length + 1) ⟨0, 0, [], c⟩ =
      recvAllLoop c.bytes.length c.bytes.length s :=
    recvAllLoop_cons _ _ _ (by simp only [toSizeT]; omega) hne
  have htotal : s.total_bytes = toInt c.bytes.length := by
    simp [s, RecvLoop.next, htaken]
  have hempty : s.conn.bytes = [] := by
    simp [s, RecvLoop.next, Conn.after, htaken]
  have hlt := toInt_lt (c.bytes.length : Int)
  have hge := le_toInt (c.bytes.length : Int)
  have hend := s.conn.ending.nbytes_nonpos
  simp only [recvAll, hloop]
  by_cases hsmall : toSizeT s.total_bytes < c.bytes.length
  · obtain ⟨fuel, hfuel⟩ : ∃ fuel, c.bytes.length = fuel + 1 := ⟨c.bytes.length - 1, by omega⟩
    have hlast : recvAllLoop c.bytes.length c.bytes.length s =
        { s with nbytes := s.conn.ending.nbytes } := by
      rw [hfuel] at hsmall ⊢
      exact recvAllLoop_nil _ fuel s hsmall hempty
    rw [hlast, RecvLoop.ret, if_neg (by simpa using Nat.le_of_lt hsmall), if_pos hend]
    exact hend
  · -- A count that is not negative would be below the size.
    have hneg : s.total_bytes < 0 := by
      rw [htotal] at hsmall ⊢
      simp only [toSizeT] at hsmall
      omega
    rw [recvAllLoop_done _ _ s (Nat.le_of_not_lt hsmall), RecvLoop.ret]
    split
    · decide
    · split
      · assumption
      · exact hneg.le

end Reads

-- Messages sent back to back on one connection; `none` when one of them does
-- not fit its buffer or a call of `send` fails.
def sendPhotos (o : Out) : List (MessagePhoto × CString × Int32) → Option Out
  | [] => some o
  | (buff, buffer, type) :: rest => do
      let (ret, o) ← streamAndSendPhoto o buff buffer type
      if ret = -1 then none else sendPhotos o rest

def fillAll : List (MessagePhoto × CString × Int32) → Option (List MessagePhoto)
  | [] => some []
  | (buff, buffer, type) :: rest => do
      let m ← MessagePhoto.fill buff buffer type
      let ms ← fillAll rest
      some (m :: ms)

-- Repeated calls of `recv_and_unstream_photo`, each of which has to deliver.
def recvPhotos : Nat → Conn → Option (List MessagePhoto)
  | 0, _ => some []
  | k + 1, c => do
      let m ← (recvAndUnstreamPhoto c).buff
      let ms ← recvPhotos k (recvAndUnstreamPhoto c).conn
      some (m :: ms)

theorem sendPhotos_accepted (calls : List (MessagePhoto × CString × Int32)) (o o' : Out)
    (ms : List MessagePhoto) (hms : fillAll calls = some ms) (h : sendPhotos o calls = some o') :
    o'.accepted = o.accepted ++ ms.flatMap MessagePhoto.stream := by
  induction calls generalizing o ms with
  | nil =>
      cases h
      cases hms
      simp
  | cons call rest ih =>
      obtain ⟨buff, buffer, type⟩ := call
      simp only [fillAll, Option.bind_eq_bind, Option.bind_eq_some_iff, Option.some.injEq] at hms
      obtain ⟨m, hm, ms', hms', rfl⟩ := hms
      simp only [sendPhotos, Option.bind_eq_bind, Option.bind_eq_some_iff] at h
      obtain ⟨⟨ret, o1⟩, hsend, h⟩ := h
      split at h
      · cases h
      · rename_i hret
        obtain ⟨m', hm', hacc⟩ := streamAndSendPhoto_accepted o o1 buff buffer type ret hsend hret
        obtain rfl := Option.some.inj (hm.symm.trans hm')
        rw [ih o1 ms' hms' h, hacc, List.flatMap_cons, List.append_assoc]

theorem recvAndUnstreamPhoto_buff (c : Conn) :
    (∃ m, (recvAndUnstreamPhoto c).buff = some m) ↔
      MESSAGE_PHOTO_SIZE ≤ (recvAll c MESSAGE_PHOTO_SIZE).stored.length := by
  obtain ⟨-, -, hout⟩ := recvAll_outcome MESSAGE_PHOTO_SIZE c (by decide) (by decide)
  have hnb : c.ending.nbytes = -1 ∨ c.ending.nbytes = 0 := by
    cases c.ending <;> simp [Ending.nbytes]
  rcases hout with ⟨hl, hret, -⟩ | ⟨hl, hret⟩ | ⟨hl, hret⟩
  · have hnone : (recvAndUnstreamPhoto c).buff = none := by
      rcases hnb with h | h <;> simp [recvAndUnstreamPhoto, hret, h]
    simp [hnone, hl]
  all_goals
    have hfail : (recvAll c MESSAGE_PHOTO_SIZE).ret ≠ -1 := by rw [hret]; decide
    have hend : (recvAll c MESSAGE_PHOTO_SIZE).ret ≠ 0 := by rw [hret]; decide
    have htake : ((recvAll c MESSAGE_PHOTO_SIZE).stored.take MAX_SIZE).length = MAX_SIZE := by
      simp only [MESSAGE_PHOTO_SIZE, List.length_take, MAX_SIZE] at hl ⊢
      omega
    simp only [recvAndUnstreamPhoto, if_neg hfail, if_neg hend, MessagePhoto.unstream,
      dif_pos htake, Option.some.injEq, exists_eq', true_iff]
    omega

theorem recvAndUnstreamPhoto_conn (c : Conn) :
    (recvAndUnstreamPhoto c).conn = (recvAll c MESSAGE_PHOTO_SIZE).conn := by
  simp only [recvAndUnstreamPhoto]
  split_ifs <;> rfl

-- A message whose bytes were read exactly comes out as it was sent.
theorem recvAndUnstreamPhoto_framed (c : Conn) (m : MessagePhoto) (more : List Byte)
    (ns : List Nat) (hb : c.bytes = m.stream ++ more)
    (h : Framed c (MESSAGE_PHOTO_SIZE :: ns)) :
    (recvAndUnstreamPhoto c).ret = 1 ∧ (recvAndUnstreamPhoto c).buff = some m ∧
      (recvAndUnstreamPhoto c).conn.bytes = more ∧ Framed (recvAndUnstreamPhoto c).conn ns := by
  have hrest := framed_conn_bytes c _ ns (by decide) (by decide) h
  obtain ⟨hret, hstored, hframed⟩ := h
  have hfail : (recvAll c MESSAGE_PHOTO_SIZE).ret ≠ -1 := by rw [hret]; decide
  have hend : (recvAll c MESSAGE_PHOTO_SIZE).ret ≠ 0 := by rw [hret]; decide
  have hread : recvAndUnstreamPhoto c = ⟨1, some m, (recvAll c MESSAGE_PHOTO_SIZE).conn⟩ := by
    have hm := MessagePhoto.unstream_stream m []
    simp only [List.append_nil] at hm
    rw [hb, List.take_left' m.length_stream] at hstored
    simp only [recvAndUnstreamPhoto, if_neg hfail, if_neg hend, hstored, hm]
  rw [hread]
  refine ⟨rfl, rfl, ?_, hframed⟩
  rw [hrest, hb, List.drop_left' m.length_stream]

-- It arrives as it was sent when the reads are whole.
theorem recvAndUnstreamPhoto_whole {c : Conn} {m : MessagePhoto} {more : List Byte} (hc : c.Whole)
    (hb : c.bytes = m.stream ++ more) :
    (recvAndUnstreamPhoto c).buff = some m ∧ (recvAndUnstreamPhoto c).conn.Whole ∧
      (recvAndUnstreamPhoto c).conn.bytes = more := by
  have hframed : Framed c [MESSAGE_PHOTO_SIZE] := by
    apply framed_of_whole hc
    · simp [MESSAGE_PHOTO_SIZE]
    · simp [hb]
  obtain ⟨-, hbuff, hrest, -⟩ := recvAndUnstreamPhoto_framed c m more [] hb hframed
  refine ⟨hbuff, ?_, hrest⟩
  rw [recvAndUnstreamPhoto_conn]
  exact whole_of_recvAll hc _

-- Every message takes at least its own size from the stream, so a read past
-- the end of one of them would leave too little for the last.
theorem framed_of_recvPhotos (k : Nat) (c : Conn) (ms : List MessagePhoto)
    (hb : c.bytes.length ≤ k * MESSAGE_PHOTO_SIZE) (h : recvPhotos k c = some ms) :
    k * MESSAGE_PHOTO_SIZE ≤ c.bytes.length ∧
      Framed c (List.replicate k MESSAGE_PHOTO_SIZE) := by
  induction k generalizing c ms with
  | zero => exact ⟨by omega, trivial⟩
  | succ k ih =>
      simp only [recvPhotos, Option.bind_eq_bind, Option.bind_eq_some_iff] at h
      obtain ⟨m, hm, ms', hms', -⟩ := h
      rw [recvAndUnstreamPhoto_conn] at hms'
      have hstored := (recvAndUnstreamPhoto_buff c).mp ⟨m, hm⟩
      have hbytes := (recvAll_outcome MESSAGE_PHOTO_SIZE c (by decide) (by decide)).1
      have hlen := congrArg List.length hbytes
      simp only [List.length_append] at hlen
      rw [Nat.add_mul] at hb ⊢
      obtain ⟨hle, hframed⟩ := ih _ ms' (by omega) hms'
      refine ⟨by omega, ?_⟩
      rw [List.replicate_succ, framed_cons _ _ _ (by decide) (by decide)]
      exact ⟨by omega, hframed⟩

theorem recvPhotos_of_framed (ms : List MessagePhoto) (c : Conn)
    (hb : c.bytes = ms.flatMap MessagePhoto.stream)
    (h : Framed c (List.replicate ms.length MESSAGE_PHOTO_SIZE)) :
    recvPhotos ms.length c = some ms := by
  induction ms generalizing c with
  | nil => rfl
  | cons m ms ih =>
      rw [List.flatMap_cons] at hb
      rw [List.length_cons, List.replicate_succ] at h
      obtain ⟨-, hm, hrest, hframed⟩ := recvAndUnstreamPhoto_framed c m _ _ hb h
      simp [recvPhotos, hm, ih _ hrest hframed]

theorem length_flatMap_stream (ms : List MessagePhoto) :
    (ms.flatMap MessagePhoto.stream).length = ms.length * MESSAGE_PHOTO_SIZE := by
  induction ms with
  | nil => rfl
  | cons m ms ih => simp [List.flatMap_cons, ih, Nat.add_mul, Nat.add_comm]

theorem recvPhotos_iff_aligned (ms : List MessagePhoto) (c : Conn)
    (hb : c.bytes = ms.flatMap MessagePhoto.stream) :
    recvPhotos ms.length c = some ms ↔
      AlignedSizes c.chunks c.bytes.length (List.replicate ms.length MESSAGE_PHOTO_SIZE) := by
  have hlen : c.bytes.length = ms.length * MESSAGE_PHOTO_SIZE := by
    rw [hb, length_flatMap_stream]
  have hsize : ∀ n ∈ List.replicate ms.length MESSAGE_PHOTO_SIZE, n = MESSAGE_PHOTO_SIZE :=
    fun n hn => List.eq_of_mem_replicate hn
  rw [← framed_iff_alignedSizes _ (fun n hn => by rw [hsize n hn]; decide)
    (fun n hn => by rw [hsize n hn]; decide) c (by simp [hlen])]
  exact ⟨fun h => (framed_of_recvPhotos _ c ms (by omega) h).2, recvPhotos_of_framed ms c hb⟩

-- The reads are exact just when every size fits an `int` and no call after a
-- partial read of a message finds bytes of the next one.
theorem framing_iff_aligned (c : Conn) :
    (∀ ns : List Nat, (∀ n ∈ ns, 0 < n) → ns.sum ≤ c.bytes.length →
      (Framed c ns ↔ (∀ n ∈ ns, n < 2 ^ 31) ∧ AlignedSizes c.chunks c.bytes.length ns)) ∧
    (∀ (calls : List (MessagePhoto × CString × Int32)) (results : List Int) (o : Out)
        (ms : List MessagePhoto),
      fillAll calls = some ms → sendPhotos ⟨[], results⟩ calls = some o → c.bytes = o.accepted →
      (recvPhotos ms.length c = some ms ↔
        AlignedSizes c.chunks c.bytes.length (List.replicate ms.length MESSAGE_PHOTO_SIZE))) := by
  constructor
  · intro ns h0 hb
    constructor
    · intro h
      have hn := framed_sizes_lt c ns h
      exact ⟨hn, (framed_iff_alignedSizes ns h0 hn c hb).mp h⟩
    · rintro ⟨hn, h⟩
      exact (framed_iff_alignedSizes ns h0 hn c hb).mpr h
  · intro calls results o ms hms hsend hb
    apply recvPhotos_iff_aligned
    rw [hb, sendPhotos_accepted calls _ o ms hms hsend, List.nil_append]

def blankMessage : MessagePhoto := ⟨List.replicate MAX_SIZE 0, 0, by decide⟩

-- Two requests on one connection: delete photo 1, then get the name of photo 2.
def twoRequests : List (MessagePhoto × CString × Int32) :=
  [(blankMessage, [49], 4), (blankMessage, [50], 5)]

-- Their bytes, of which the first `recv` finds 100.
def splitRequests : Conn :=
  ⟨((fillAll twoRequests).getD []).flatMap MessagePhoto.stream, [100], .closed⟩

theorem framing_iff_aligned_twoRequests :
    (Framed ⟨[1, 2, 3, 4], [1], .closed⟩ [2, 2] ↔
      (∀ n ∈ [2, 2], n < 2 ^ 31) ∧ AlignedSizes [1] 4 [2, 2]) ∧
    (recvPhotos 2 splitRequests = some ((fillAll twoRequests).getD []) ↔
      AlignedSizes [100] 208 [104, 104]) :=
  ⟨(framing_iff_aligned ⟨[1, 2, 3, 4], [1], .closed⟩).1 [2, 2] (by decide) (by decide),
    (framing_iff_aligned splitRequests).2 twoRequests [] ⟨splitRequests.bytes, []⟩
      ((fillAll twoRequests).getD []) (by decide +kernel) (by decide +kernel) rfl⟩

-- The second call of the first `recv_all` asks for 104 bytes again and takes 100
-- of the second request, which is then never received.
theorem splitRequests_not_framed :
    sendPhotos ⟨[], []⟩ twoRequests = some ⟨splitRequests.bytes, []⟩ ∧
    [MESSAGE_PHOTO_SIZE, MESSAGE_PHOTO_SIZE].sum ≤ splitRequests.bytes.length ∧
    ¬ Framed splitRequests [MESSAGE_PHOTO_SIZE, MESSAGE_PHOTO_SIZE] ∧
    recvPhotos 2 splitRequests = none := by
  decide +kernel

end Gallery
