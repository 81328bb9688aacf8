import Gallery.Socket.Theorems

namespace Gallery

-- The values that the calls of `send` made by `send_all` return, in their order.
def sendAllCalls : Nat → List Byte → Out → List Int
  | 0, _, _ => []
  | fuel + 1, p, o =>
      if 0 < p.length then
        let (nbytes, o) := send o p
        if nbytes ≤ 0 then [nbytes] else nbytes :: sendAllCalls fuel (p.drop nbytes.toNat) o
      else []

-- The bytes these calls accepted; a failed one accepts none.
def bytesAccepted (calls : List Int) : Nat := (calls.map Int.toNat).sum

@[simp] theorem bytesAccepted_nil : bytesAccepted [] = 0 := rfl

@[simp] theorem bytesAccepted_cons (v : Int) (calls : List Int) :
    bytesAccepted (v :: calls) = v.toNat + bytesAccepted calls := rfl

section Calls

variable (fuel : Nat) (nbytes : Int) (p : List Byte) (o : Out)

theorem send_le_INT_MAX : (send o p).1 ≤ INT_MAX := by
  unfold send
  split <;> simp only <;> omega

-- With a bound above the bytes left the loop has ended: more rounds change nothing.
theorem sendAllLoop_fuel {fuel fuel' : Nat} (hfuel : p.length < fuel) (hfuel' : p.length < fuel') :
    sendAllLoop fuel nbytes p o = sendAllLoop fuel' nbytes p o := by
  induction fuel generalizing fuel' nbytes p o with
  | zero => omega
  | succ fuel ih =>
      obtain ⟨fuel', rfl⟩ : ∃ rounds, fuel' = rounds + 1 := ⟨fuel' - 1, by omega⟩
      by_cases hp : p = []
      · simp [sendAllLoop, hp]
      · have hpos := List.length_pos_iff.mpr hp
        simp only [sendAllLoop, hpos, if_true]
        rcases send_eq o p hp with ⟨hle, -⟩ | ⟨k, hk0, hk, hnb, -⟩
        · rw [if_pos hle, if_pos hle]
        · rw [if_neg (by omega), if_neg (by omega), hnb, Int.toNat_natCast]
          apply ih
          · simp only [List.length_drop]
            omega
          · simp only [List.length_drop]
            omega

-- The loop is done when all is accepted, or a call failed before that.
theorem sendAllLoop_calls (hfuel : p.length < fuel)
    (hn : p = [] → 0 < nbytes ∧ nbytes ≤ INT_MAX) :
    ((∀ v ∈ sendAllCalls fuel p o, 0 < v) ∧ bytesAccepted (sendAllCalls fuel p o) = p.length ∧
        0 < (sendAllLoop fuel nbytes p o).1 ∧ (sendAllLoop fuel nbytes p o).1 ≤ INT_MAX ∧
        (sendAllLoop fuel nbytes p o).2.accepted = o.accepted ++ p) ∨
      ((∃ v ∈ sendAllCalls fuel p o, v ≤ 0) ∧
        bytesAccepted (sendAllCalls fuel p o) < p.length ∧ (sendAllLoop fuel nbytes p o).1 ≤ 0 ∧
        (sendAllLoop fuel nbytes p o).2.accepted =
          o.accepted ++ p.take (bytesAccepted (sendAllCalls fuel p o))) := by
  induction fuel generalizing nbytes p o with
  | zero => omega
  | succ fuel ih =>
      by_cases hp : p = []
      · subst hp
        obtain ⟨hpos, hmax⟩ := hn rfl
        exact Or.inl ⟨by simp [sendAllCalls], by simp [sendAllCalls], by simpa [sendAllLoop] using hpos,
          by simpa [sendAllLoop] using hmax, by simp [sendAllLoop]⟩
      · have hpos := List.length_pos_iff.mpr hp
        simp only [sendAllLoop, sendAllCalls, hpos, if_true]
        rcases send_eq o p hp with ⟨hle, hacc⟩ | ⟨k, hk0, hk, hnb, hacc⟩
        · rw [if_pos hle, if_pos hle]
          have hnone : (send o p).1.toNat = 0 := by omega
          exact Or.inr ⟨⟨_, List.mem_singleton_self _, hle⟩, by simpa [hnone] using hpos, hle,
            by simpa [hnone] using hacc⟩
        · have hmax := send_le_INT_MAX p o
          have hrest := ih (send o p).1 (p.drop k) (send o p).2
            (by simp only [List.length_drop]; omega) (fun _ => ⟨by omega, hmax⟩)
          rw [if_neg (by omega), if_neg (by omega), hnb, Int.toNat_natCast]
          rw [hnb] at hrest
          rw [bytesAccepted_cons, Int.toNat_natCast]
          rcases hrest with ⟨hall, hsum, hret, hint, hlast⟩ | ⟨⟨v, hv, hv0⟩, hsum, hret, hlast⟩
          · refine Or.inl ⟨?_, ?_, hret, hint, ?_⟩
            · intro v hv
              rcases List.mem_cons.mp hv with rfl | hv
              · omega
              · exact hall v hv
            · rw [hsum, List.length_drop]
              omega
            · rw [hlast, hacc, List.append_assoc, List.take_append_drop]
          · rw [List.length_drop] at hsum
            refine Or.inr ⟨⟨v, List.mem_cons_of_mem _ hv, hv0⟩, by omega, hret, ?_⟩
            rw [hlast, hacc, List.append_assoc, List.take_add]

end Calls

-- `send_all` ends; it fails exactly when a call of `send` failed, the bytes accepted are
-- the first ones of the buffer in every case and all of them when it does not fail.
theorem sendAll_all_or_failed (o : Out) (buffer : List Byte) (hb : buffer ≠ []) :
    (∀ fuel, buffer.length < fuel →
      sendAllLoop fuel 0 buffer o = sendAllLoop (buffer.length + 1) 0 buffer o) ∧
    ((sendAll o buffer).1 = -1 ∨ 0 < (sendAll o buffer).1 ∧ (sendAll o buffer).1 ≤ INT_MAX) ∧
    ((sendAll o buffer).1 ≠ -1 ↔ ∀ v ∈ sendAllCalls (buffer.length + 1) buffer o, 0 < v) ∧
    (sendAll o buffer).2.accepted =
      o.accepted ++ buffer.take (bytesAccepted (sendAllCalls (buffer.length + 1) buffer o)) ∧
    ((sendAll o buffer).1 ≠ -1 → (sendAll o buffer).2.accepted = o.accepted ++ buffer) := by
  refine ⟨fun fuel hfuel => sendAllLoop_fuel 0 buffer o hfuel (Nat.lt_succ_self _), ?_⟩
  have hret : (sendAll o buffer).1 = if (sendAllLoop (buffer.length + 1) 0 buffer o).1 ≤ 0 then -1
      else (sendAllLoop (buffer.length + 1) 0 buffer o).1 := rfl
  have hout : (sendAll o buffer).2 = (sendAllLoop (buffer.length + 1) 0 buffer o).2 := rfl
  rw [hret, hout]
  rcases sendAllLoop_calls (buffer.length + 1) 0 buffer o (Nat.lt_succ_self _)
      (fun he => absurd he hb) with ⟨hall, hsum, hpos, hmax, hacc⟩ | ⟨⟨v, hv, hv0⟩, hsum, hle, hacc⟩
  · rw [if_neg (by omega)]
    refine ⟨Or.inr ⟨hpos, hmax⟩, ⟨fun _ => hall, fun _ => by omega⟩, ?_, fun _ => hacc⟩
    rw [hsum, List.take_length, hacc]
  · rw [if_pos hle]
    refine ⟨Or.inl rfl, ⟨fun h => absurd rfl h, fun h => ?_⟩, hacc, fun h => absurd rfl h⟩
    have := h v hv
    omega

-- The second call of three accepts part of what is left and the third one fails.
theorem sendAll_all_or_failed_thirdCall :
    (sendAll ⟨[], [2, 1, -1]⟩ [1, 2, 3, 4]).1 = -1 ∧
      (sendAll ⟨[], [2, 1, -1]⟩ [1, 2, 3, 4]).2.accepted = [1, 2, 3] := by
  obtain ⟨-, -, hfail, hacc, -⟩ := sendAll_all_or_failed ⟨[], [2, 1, -1]⟩ [1, 2, 3, 4] (by decide)
  refine ⟨?_, hacc.trans (by decide)⟩
  by_contra hne
  exact absurd (hfail.mp hne) (by decide)

end Gallery
