import Gallery.Socket
import Mathlib.Tactic.Linarith

namespace Gallery

theorem toInt_of_lt (x : Int) (h0 : 0 ≤ x) (h : x < 2 ^ 31) : toInt x = x := by
  unfold toInt
  apply Int.bmod_eq_of_le <;> omega

theorem toSizeT_of_lt (x : Int) (h0 : 0 ≤ x) (h : x < 2 ^ 31) : toSizeT x = x.toNat := by
  unfold toSizeT
  rw [Int.emod_eq_of_lt h0 (by omega)]

-- A count that left the range of `int` is still seen as too large: it turns
-- negative and becomes huge as a `size_t`.
theorem lt_toSizeT_toInt (n : Nat) (x : Int) (hn : n < 2 ^ 31) (hx : n < x) (hlt : x < 2 ^ 32) :
    n < toSizeT (toInt x) := by
  by_cases h : x < 2 ^ 31
  · rw [toInt_of_lt x (by omega) h, toSizeT_of_lt x (by omega) h]
    omega
  · have hw : toInt x = x - 2 ^ 32 := by
      unfold toInt
      rw [Int.bmod_def]
      have hm : x % ((2 ^ 32 : Nat) : Int) = x := Int.emod_eq_of_lt (by omega) (by omega)
      rw [hm, if_neg (by omega)]
      omega
    rw [hw, toSizeT]
    omega

theorem toInt_lt (x : Int) : toInt x < 2 ^ 31 := by
  have h := Int.bmod_lt (x := x) (m := 2 ^ 32) (by decide)
  simp only [toInt]
  omega

theorem le_toInt (x : Int) : -2 ^ 31 ≤ toInt x := by
  have h := Int.le_bmod (x := x) (m := 2 ^ 32) (by decide)
  simp only [toInt]
  omega

section Recv

variable (c : Conn)

theorem Ending.nbytes_nonpos (e : Ending) : e.nbytes ≤ 0 := by
  cases e <;> decide

theorem recv_nil (length : Nat) (h : c.bytes = []) :
    recv c length = ⟨c.ending.nbytes, [], c⟩ := by
  simp [recv, h]

-- The bytes one call takes from a connection that still has some.
def Conn.taken (length : Nat) : Nat := min c.available (min length c.bytes.length)

def Conn.after (n : Nat) : Conn :=
  { c with bytes := c.bytes.drop n, chunks := c.chunks.tail }

theorem recv_cons (length : Nat) (h : c.bytes ≠ []) :
    recv c length = ⟨c.taken length, c.bytes.take (c.taken length), c.after (c.taken length)⟩ := by
  simp [recv, h, Conn.taken, Conn.after]

theorem Conn.available_pos (h : c.bytes ≠ []) : 0 < c.available := by
  have hb := List.length_pos_iff.mpr h
  unfold Conn.available
  split <;> omega

theorem Conn.taken_pos (length : Nat) (hl : 0 < length) (h : c.bytes ≠ []) :
    0 < c.taken length := by
  have ha := c.available_pos h
  have hb := List.length_pos_iff.mpr h
  unfold Conn.taken
  omega

theorem Conn.taken_le (length : Nat) : c.taken length ≤ length ∧ c.taken length ≤ c.bytes.length := by
  unfold Conn.taken
  omega

end Recv

section RecvAll

variable (n : Nat)

theorem recvAllLoop_done (fuel : Nat) (s : RecvLoop) (h : n ≤ toSizeT s.total_bytes) :
    recvAllLoop n fuel s = s := by
  cases fuel with
  | zero => rfl
  | succ fuel => simp [recvAllLoop, Nat.not_lt.mpr h]

theorem recvAllLoop_nil (fuel : Nat) (s : RecvLoop) (ht : toSizeT s.total_bytes < n)
    (hb : s.conn.bytes = []) :
    recvAllLoop n (fuel + 1) s = { s with nbytes := s.conn.ending.nbytes } := by
  have hn := s.conn.ending.nbytes_nonpos
  simp [recvAllLoop, ht, recv_nil _ _ hb, hn]

-- The state after one call of `recv` that gave bytes.
def RecvLoop.next (s : RecvLoop) : RecvLoop :=
  let k := s.conn.taken n
  ⟨k, toInt (s.total_bytes + k), s.stored ++ s.conn.bytes.take k, s.conn.after k⟩

theorem recvAllLoop_cons (fuel : Nat) (s : RecvLoop) (ht : toSizeT s.total_bytes < n)
    (hb : s.conn.bytes ≠ []) :
    recvAllLoop n (fuel + 1) s = recvAllLoop n fuel (s.next n) := by
  have hk : s.conn.taken n ≠ 0 := (s.conn.taken_pos n (by omega) hb).ne'
  simp [recvAllLoop, ht, recv_cons _ _ hb, RecvLoop.next, hk]

theorem RecvLoop.next_stored_length (s : RecvLoop) :
    (s.next n).stored.length = s.stored.length + s.conn.taken n := by
  have h := (s.conn.taken_le n).2
  simp only [RecvLoop.next, List.length_append, List.length_take]
  omega

theorem RecvLoop.next_bytes (s : RecvLoop) :
    s.conn.bytes.take (s.conn.taken n) ++ (s.next n).conn.bytes = s.conn.bytes :=
  List.take_append_drop _ _

theorem RecvLoop.next_total (s : RecvLoop) (h : s.total_bytes = s.stored.length) :
    (s.next n).total_bytes = toInt (s.next n).stored.length := by
  rw [s.next_stored_length n, Nat.cast_add, ← h]
  rfl

-- How `recv_all` can end: short when the connection ends, exact, or past the
-- size asked for, which it reports as -2.
def RecvLoop.Outcome (ending : Ending) (s : RecvLoop) : Prop :=
  (s.stored.length < n ∧ s.ret n = ending.nbytes ∧ s.conn.bytes = []) ∨
  (s.stored.length = n ∧ s.ret n = n) ∨
  (n < s.stored.length ∧ s.ret n = -2)

-- The loop ends as soon as `n` bytes are stored; up to `n - 1` more may have
-- come with the last call.
theorem recvAllLoop_full (hn : n < 2 ^ 31) (fuel : Nat) (s : RecvLoop) (hpos : 0 < s.nbytes)
    (htotal : s.total_bytes = toInt s.stored.length) (hle : n ≤ s.stored.length)
    (hlt : s.stored.length < 2 ^ 32) :
    recvAllLoop n fuel s = s ∧
    ((s.stored.length = n ∧ s.ret n = n) ∨ (n < s.stored.length ∧ s.ret n = -2)) := by
  rcases Nat.eq_or_lt_of_le hle with he | hgt
  · have ht : s.total_bytes = n := by rw [htotal, ← he, toInt_of_lt _ (by omega) (by omega)]
    have hsize : toSizeT s.total_bytes = n := by
      rw [ht, toSizeT_of_lt _ (by omega) (by omega), Int.toNat_natCast]
    refine ⟨recvAllLoop_done n fuel s (by omega), Or.inl ⟨he.symm, ?_⟩⟩
    rw [RecvLoop.ret, if_neg (by omega), if_neg (by omega), ht]
  · have hsize : n < toSizeT s.total_bytes := by
      rw [htotal]
      exact lt_toSizeT_toInt n _ hn (by omega) (by omega)
    refine ⟨recvAllLoop_done n fuel s hsize.le, Or.inr ⟨hgt, ?_⟩⟩
    rw [RecvLoop.ret, if_pos hsize]

theorem recvAllLoop_outcome (hn : n < 2 ^ 31) (fuel : Nat) (s : RecvLoop)
    (htotal : s.total_bytes = s.stored.length) (hlt : s.stored.length < n)
    (hfuel : s.conn.bytes.length < fuel) :
    (recvAllLoop n fuel s).Outcome n s.conn.ending ∧
    (recvAllLoop n fuel s).conn.ending = s.conn.ending ∧
    ∃ got, (recvAllLoop n fuel s).stored = s.stored ++ got ∧
      got ++ (recvAllLoop n fuel s).conn.bytes = s.conn.bytes := by
  induction fuel generalizing s with
  | zero => omega
  | succ fuel ih =>
      have hsize : toSizeT s.total_bytes < n := by
        rw [htotal, toSizeT_of_lt _ (by omega) (by omega)]
        omega
      by_cases hb : s.conn.bytes = []
      · rw [recvAllLoop_nil n fuel s hsize hb]
        have hnb := s.conn.ending.nbytes_nonpos
        refine ⟨Or.inl ⟨hlt, ?_, hb⟩, rfl, [], by simp, by simp⟩
        rw [RecvLoop.ret, if_neg (by simp only; omega), if_pos hnb]
      · rw [recvAllLoop_cons n fuel s hsize hb]
        have hk := s.conn.taken_pos n (by omega) hb
        obtain ⟨hkn, hkb⟩ := s.conn.taken_le n
        have hlen := s.next_stored_length n
        have htot := s.next_total n htotal
        have hbytes := s.next_bytes n
        by_cases hmore : (s.next n).stored.length < n
        · have hshort : (s.next n).conn.bytes.length < fuel := by
            have := congrArg List.length hbytes
            simp only [List.length_append, List.length_take] at this
            omega
          rw [toInt_of_lt _ (by omega) (by omega)] at htot
          obtain ⟨hout, hend, got, hstored, hgot⟩ := ih (s.next n) htot hmore hshort
          refine ⟨hout, hend, s.conn.bytes.take (s.conn.taken n) ++ got, ?_, ?_⟩
          · rw [hstored]
            simp only [RecvLoop.next, List.append_assoc]
          · rw [List.append_assoc, hgot, hbytes]
        · have hpos : 0 < (s.next n).nbytes := by
            simp only [RecvLoop.next]
            omega
          obtain ⟨hdone, hout⟩ :=
            recvAllLoop_full n hn fuel (s.next n) hpos htot (by omega) (by omega)
          rw [hdone]
          exact ⟨Or.inr hout, rfl, s.conn.bytes.take (s.conn.taken n), rfl, hbytes⟩

-- One call of `recv_all`: nothing is lost, and the call ends in one of three ways.
theorem recvAll_outcome (c : Conn) (h0 : 0 < n) (hn : n < 2 ^ 31) :
    (recvAll c n).stored ++ (recvAll c n).conn.bytes = c.bytes ∧
    (recvAll c n).conn.ending = c.ending ∧
    (((recvAll c n).stored.length < n ∧ (recvAll c n).ret = c.ending.nbytes ∧
        (recvAll c n).conn.bytes = []) ∨
      ((recvAll c n).stored.length = n ∧ (recvAll c n).ret = n) ∨
      (n < (recvAll c n).stored.length ∧ (recvAll c n).ret = -2)) := by
  obtain ⟨hout, hend, got, hstored, hgot⟩ :=
    recvAllLoop_outcome n hn (c.bytes.length + 1) ⟨0, 0, [], c⟩ rfl (by simpa using h0) (by simp)
  simp only [List.nil_append] at hstored
  refine ⟨?_, hend, hout⟩
  change (recvAllLoop n _ _).stored ++ _ = _
  rw [hstored]
  exact hgot

end RecvAll

section SendAll

theorem send_eq (o : Out) (p : List Byte) (hp : p ≠ []) :
    ((send o p).1 ≤ 0 ∧ (send o p).2.accepted = o.accepted) ∨
    ∃ k : Nat, 0 < k ∧ k ≤ p.length ∧ (send o p).1 = k ∧
      (send o p).2.accepted = o.accepted ++ p.take k := by
  have hpos := List.length_pos_iff.mpr hp
  have hmost : (send o p).1 ≤ min p.length INT_MAX := by
    unfold send
    split <;> simp only [le_refl, min_le_right]
  have hacc : (send o p).2.accepted = o.accepted ++ p.take (send o p).1.toNat := rfl
  by_cases h : (send o p).1 ≤ 0
  · exact Or.inl ⟨h, by rw [hacc, Int.toNat_of_nonpos h, List.take_zero, List.append_nil]⟩
  · exact Or.inr ⟨(send o p).1.toNat, by omega, by omega, by omega, hacc⟩

-- What `send_all` did when its loop ended: everything was accepted, or a call
-- failed after a proper prefix.
def SendOutcome (o : Out) (p : List Byte) (r : Int × Out) : Prop :=
  (0 < r.1 ∧ r.2.accepted = o.accepted ++ p) ∨
  (r.1 ≤ 0 ∧ ∃ k < p.length, r.2.accepted = o.accepted ++ p.take k)

theorem sendAllLoop_outcome (fuel : Nat) (nbytes : Int) (p : List Byte) (o : Out)
    (hfuel : p.length < fuel) (hn : p = [] → 0 < nbytes) :
    SendOutcome o p (sendAllLoop fuel nbytes p o) := by
  induction fuel generalizing nbytes p o with
  | zero => omega
  | succ fuel ih =>
      by_cases hp : p = []
      · subst p
        exact Or.inl ⟨hn rfl, by simp [sendAllLoop]⟩
      · have hpos := List.length_pos_iff.mpr hp
        simp only [sendAllLoop, hpos, if_true]
        rcases send_eq o p hp with ⟨hle, hacc⟩ | ⟨k, hk0, hk, hnb, hacc⟩
        · rw [if_pos hle]
          exact Or.inr ⟨hle, 0, hpos, by simpa using hacc⟩
        · have hrec := ih (send o p).1 (p.drop k) (send o p).2
            (by simp only [List.length_drop]; omega) (fun _ => by omega)
          rw [if_neg (by omega), hnb, Int.toNat_natCast]
          rw [hnb] at hrec
          have hsplit : o.accepted ++ p.take k ++ p.drop k = o.accepted ++ p := by
            rw [List.append_assoc, List.take_append_drop]
          rcases hrec with ⟨h0, ha⟩ | ⟨h0, j, hj, ha⟩
          · exact Or.inl ⟨h0, by rw [ha, hacc, hsplit]⟩
          · simp only [List.length_drop] at hj
            refine Or.inr ⟨h0, k + j, by omega, ?_⟩
            rw [ha, hacc, List.append_assoc, List.take_add]

theorem sendAll_accepted (o o' : Out) (buffer : List Byte) (ret : Int) (hb : buffer ≠ [])
    (h : sendAll o buffer = (ret, o')) (hret : ret ≠ -1) :
    o'.accepted = o.accepted ++ buffer := by
  cases buffer with
  | nil => exact absurd rfl hb
  | cons b bs =>
      have hout := sendAllLoop_outcome ((b :: bs).length + 1) 1 (b :: bs) o (by simp) (by simp)
      have hloop : sendAllLoop ((b :: bs).length + 1) 1 (b :: bs) o =
          sendAllLoop ((b :: bs).length + 1) 0 (b :: bs) o := by
        simp [sendAllLoop]
      rw [hloop] at hout
      simp only [sendAll, Prod.mk.injEq] at h
      obtain ⟨hr, rfl⟩ := h
      rcases hout with ⟨-, ha⟩ | ⟨h0, -⟩
      · exact ha
      · rw [if_pos h0] at hr
        exact absurd hr.symm hret

theorem streamAndSendPhoto_accepted (o o' : Out) (buff : MessagePhoto) (buffer : CString)
    (type : Int32) (ret : Int) (h : streamAndSendPhoto o buff buffer type = some (ret, o'))
    (hret : ret ≠ -1) :
    ∃ m, MessagePhoto.fill buff buffer type = some m ∧
      o'.accepted = o.accepted ++ m.stream := by
  unfold streamAndSendPhoto at h
  cases hm : MessagePhoto.fill buff buffer type with
  | none => simp [hm] at h
  | some m =>
      refine ⟨m, rfl, ?_⟩
      simp only [hm, Option.bind_eq_bind, Option.bind_some] at h
      have hne : m.stream ≠ [] := List.ne_nil_of_length_pos (by simp [MESSAGE_PHOTO_SIZE])
      split at h
      · cases h
        exact absurd rfl hret
      · rename_i hs
        cases h
        exact sendAll_accepted o _ m.stream _ hne rfl hs

-- A connection whose other end reads: no call of `send` fails.
def Out.Ready (o : Out) : Prop := ∀ r ∈ o.results, 0 < r

theorem send_ready (o : Out) (p : List Byte) (hp : p ≠ []) (h : o.Ready) :
    0 < (send o p).1 ∧ (send o p).2.Ready := by
  have hpos := List.length_pos_iff.mpr hp
  constructor
  · have hmax : 0 < INT_MAX := by decide
    unfold send
    split
    · simp only
      omega
    · rename_i r rest hr
      have hr0 := h r (by rw [hr]; exact List.mem_cons_self)
      simp only
      omega
  · intro r hr
    exact h r (List.mem_of_mem_tail hr)

theorem sendAllLoop_ready (fuel : Nat) (nbytes : Int) (p : List Byte) (o : Out)
    (hn : 0 < nbytes) (h : o.Ready) :
    0 < (sendAllLoop fuel nbytes p o).1 ∧ (sendAllLoop fuel nbytes p o).2.Ready := by
  induction fuel generalizing nbytes p o with
  | zero => exact ⟨hn, h⟩
  | succ fuel ih =>
      by_cases hp : p = []
      · subst p
        simpa [sendAllLoop] using ⟨hn, h⟩
      · obtain ⟨hpos, hready⟩ := send_ready o p hp h
        simp only [sendAllLoop, List.length_pos_iff.mpr hp, if_true]
        rw [if_neg (by omega)]
        exact ih _ _ _ hpos hready

theorem sendAll_ready (o : Out) (buffer : List Byte) (hb : buffer ≠ []) (h : o.Ready) :
    (sendAll o buffer).1 ≠ -1 ∧ (sendAll o buffer).2.accepted = o.accepted ++ buffer ∧
      (sendAll o buffer).2.Ready := by
  have hloop : sendAllLoop (buffer.length + 1) 0 buffer o =
      sendAllLoop (buffer.length + 1) 1 buffer o := by
    simp [sendAllLoop, List.length_pos_iff.mpr hb]
  obtain ⟨hpos, hready⟩ :=
    sendAllLoop_ready (buffer.length + 1) 1 buffer o (by decide) h
  rw [← hloop] at hpos hready
  have hret : (sendAll o buffer).1 ≠ -1 := by
    simp only [sendAll]
    rw [if_neg (by omega)]
    omega
  exact ⟨hret, sendAll_accepted o _ buffer _ hb rfl hret, hready⟩

end SendAll

end Gallery
