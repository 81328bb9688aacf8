import Gallery.Gateway
import Gallery.Membership.Rings

namespace Gallery

open Text

namespace GatewayState

section Locks

variable {g : GatewayState}

theorem lock_of_free (hg : g.list_lock = false) : g.lock = some { g with list_lock := true } := by
  simp [lock, hg]

theorem lock_of_held (hg : g.list_lock = true) : g.lock = none := by
  simp [lock, hg]

theorem printPeers_of_free (hg : g.list_lock = false) : g.printPeers = some g := by
  rw [printPeers, lock_of_free hg, Option.map_some, unlock, ← hg]

theorem registered_eq {xs : List DataR} (hg : g.ring.Holds xs) : g.registered = xs := by
  rw [registered, ringElements_holds hg, Option.getD_some]

end Locks

section Broadcast

variable (online : DataR → Bool) {g : GatewayState} {xs : List DataR}

theorem broadcastPeers_of_free (hg : g.list_lock = false) (fuel : Nat) (message : CString)
    (type : Int32) (exc : Option DataR) :
    g.broadcastPeers online fuel message type exc =
      (g.toldBy online fuel exc).map (fun told =>
        { g with sent := g.sent ++ told.map (PeerMessage.mk · message type) }) := by
  rw [broadcastPeers, lock_of_free hg]
  change (g.toldBy online fuel exc).bind _ = _
  cases g.toldBy online fuel exc with
  | none => rfl
  | some told => simp [unlock, hg]

-- A broadcast that ends has only sent messages.
theorem broadcastPeers_frame (hg : g.list_lock = false) {fuel : Nat} {message : CString}
    {type : Int32} {exc : Option DataR} {g' : GatewayState}
    (h : g.broadcastPeers online fuel message type exc = some g') :
    g'.ring = g.ring ∧ g'.list_lock = false := by
  rw [broadcastPeers_of_free online hg] at h
  obtain ⟨told, -, rfl⟩ := Option.map_eq_some_iff.mp h
  exact ⟨rfl, hg⟩

theorem broadcastPeers_of_held (hg : g.list_lock = true) (fuel : Nat) (message : CString)
    (type : Int32) (exc : Option DataR) : g.broadcastPeers online fuel message type exc = none := by
  rw [broadcastPeers, lock_of_held hg]
  rfl

-- Where nothing is excluded from the ring, everybody who answers is told.
theorem toldBy_others (hg : g.ring.Holds xs) (exc : Option DataR) (hexc : ∀ K ∈ exc, K ∉ xs)
    {fuel : Nat} (hfuel : g.ring.heap.brk ≤ fuel) :
    g.toldBy online fuel exc = some (xs.filter online) := by
  obtain ⟨ns, hc, rfl⟩ := hg
  cases ns with
  | nil =>
      have hroot : g.ring.peer_list = none := hc.root_eq
      simp [toldBy, hroot]
  | cons n ns =>
      have hroot : g.ring.peer_list = some n.1 := hc.root_eq
      have hlen := hc.length_le
      rw [hroot] at hc
      simp only [toldBy, hroot]
      exact broadcastPeersLoop_eq online hc exc fuel [] ns n rfl hexc (Nat.lt_of_lt_of_le hlen hfuel)

-- At an excluded root the loop ends before it has begun.
theorem toldBy_root {K : DataR} (hg : g.ring.Holds (K :: xs)) (fuel : Nat) :
    g.toldBy online (fuel + 1) (some K) = some [] := by
  obtain ⟨r, hroot, hkey⟩ := root_of_holds hg
  have hsame : equalDataR K K = true := (equalDataR_iff K K).mpr rfl
  simp [toldBy, hroot, broadcastPeersLoop, hkey, hsame]

theorem toldBy_root_nil {K : DataR} {told : List DataR} (hg : g.ring.Holds (K :: xs)) (fuel : Nat)
    (htold : g.toldBy online fuel (some K) = some told) : told = [] := by
  cases fuel with
  | zero =>
      obtain ⟨r, hroot, -⟩ := root_of_holds hg
      simp [toldBy, hroot, broadcastPeersLoop] at htold
  | succ fuel =>
      rw [toldBy_root online hg fuel] at htold
      exact (Option.some.inj htold).symm

-- Any other excluded entry holds the loop up for good.
theorem toldBy_stuck {K : DataR} (hg : g.ring.Holds xs) (hK : K ∈ xs) (hhead : xs.head? ≠ some K)
    (fuel : Nat) : g.toldBy online fuel (some K) = none := by
  obtain ⟨ns, hc, rfl⟩ := hg
  cases ns with
  | nil => exact absurd hK List.not_mem_nil
  | cons n ns =>
      have hroot : g.ring.peer_list = some n.1 := hc.root_eq
      rw [hroot] at hc
      have hn : n.2 ≠ K := fun he => hhead (by simp [he])
      simp only [toldBy, hroot]
      exact broadcastPeersLoop_stuck online hc K fuel [] ns n rfl (fun he => absurd he hn) hK

-- More rounds than a broadcast needs change nothing.
theorem broadcastPeersLoop_mono {h : RingHeap} {r aux : Addr} {exc : Option DataR} {fuel fuel' : Nat}
    {told : List DataR} (hle : fuel ≤ fuel')
    (htold : broadcastPeersLoop online h r exc fuel aux = some told) :
    broadcastPeersLoop online h r exc fuel' aux = some told := by
  induction fuel generalizing fuel' aux told with
  | zero => cases htold
  | succ fuel ih =>
      obtain ⟨fuel', rfl⟩ : ∃ rounds, fuel' = rounds + 1 := ⟨fuel' - 1, by omega⟩
      have hle' : fuel ≤ fuel' := by omega
      simp only [broadcastPeersLoop, Option.bind_eq_bind] at htold ⊢
      obtain ⟨k, hk, htold⟩ := Option.bind_eq_some_iff.mp htold
      rw [hk, Option.bind_some]
      split at htold
      case isTrue hexc =>
        obtain ⟨next, hnext, htold⟩ := Option.bind_eq_some_iff.mp htold
        rw [if_pos hexc, hnext, Option.bind_some]
        split at htold
        case isTrue hlast => rw [if_pos hlast, htold]
        case isFalse hlast =>
          obtain ⟨rest, hrest, htold⟩ := Option.bind_eq_some_iff.mp htold
          rw [if_neg hlast, ih hle' hrest, Option.bind_some, htold]
      case isFalse hexc =>
        rw [if_neg hexc]
        split at htold
        case isTrue hroot => rw [if_pos hroot, htold]
        case isFalse hroot => rw [if_neg hroot, ih hle' htold]

theorem toldBy_mono {exc : Option DataR} {fuel fuel' : Nat} {told : List DataR} (hle : fuel ≤ fuel')
    (htold : g.toldBy online fuel exc = some told) : g.toldBy online fuel' exc = some told := by
  unfold toldBy at htold ⊢
  split at htold
  case h_1 => exact htold
  case h_2 => exact broadcastPeersLoop_mono online hle htold

-- Nobody is told: no entry answers, or the loop ends where it begins.
def Silent (xs : List DataR) : Option DataR → Prop
  | none => ∀ k ∈ xs, online k = false
  | some K => xs.head? = some K ∨ (K ∉ xs ∧ ∀ k ∈ xs, online k = false)

theorem toldBy_of_silent (hg : g.ring.Holds xs) {exc : Option DataR} (hs : Silent online xs exc) :
    ∃ fuel, g.toldBy online fuel exc = some [] := by
  have hothers : (∀ K ∈ exc, K ∉ xs) → (∀ k ∈ xs, online k = false) →
      ∃ fuel, g.toldBy online fuel exc = some [] := by
    intro hexc hoff
    refine ⟨_, (toldBy_others online hg exc hexc (Nat.le_refl _)).trans ?_⟩
    rw [List.filter_eq_nil_iff.mpr (fun k hk => by simp [hoff k hk])]
  cases exc with
  | none => exact hothers (by simp) hs
  | some K =>
      rcases hs with hhead | ⟨hK, hoff⟩
      · obtain ⟨ys, rfl⟩ := List.head?_eq_some_iff.mp hhead
        exact ⟨1, toldBy_root online hg 0⟩
      · exact hothers (by simpa using hK) hoff

theorem silent_of_toldBy (hg : g.ring.Holds xs) {exc : Option DataR} {fuel : Nat}
    (htold : g.toldBy online fuel exc = some []) : Silent online xs exc := by
  have hothers : (∀ K ∈ exc, K ∉ xs) → ∀ k ∈ xs, online k = false := by
    intro hexc k hk
    have hmore := toldBy_others online hg exc hexc (Nat.le_max_right fuel _)
    rw [toldBy_mono online (Nat.le_max_left fuel _) htold] at hmore
    have hnil := List.filter_eq_nil_iff.mp (Option.some.inj hmore).symm k hk
    simpa using hnil
  cases exc with
  | none => exact hothers (by simp)
  | some K =>
      by_cases hK : K ∈ xs
      · left
        by_contra hhead
        rw [toldBy_stuck online hg hK hhead fuel] at htold
        cases htold
      · exact Or.inr ⟨hK, hothers (by simpa using hK)⟩

-- So a broadcast that ends tells nobody just when nobody is to be told.
theorem toldBy_nil_iff (hg : g.ring.Holds xs) {exc : Option DataR} {fuel : Nat} {told : List DataR}
    (htold : g.toldBy online fuel exc = some told) : told = [] ↔ Silent online xs exc := by
  constructor
  · rintro rfl
    exact silent_of_toldBy online hg htold
  · intro hs
    obtain ⟨fuel', hnil⟩ := toldBy_of_silent online hg hs
    have hmax := toldBy_mono online (Nat.le_max_left fuel fuel') htold
    rw [toldBy_mono online (Nat.le_max_right fuel fuel') hnil] at hmax
    exact (Option.some.inj hmax).symm

-- What a broadcast is for: it ends, the lock is free and the ring as before, and every
-- entry that answers is told once, but the excluded one.
def Broadcasts (g : GatewayState) (message : CString) (type : Int32) (exc : Option DataR) : Prop :=
  ∃ fuel g', g.broadcastPeers online fuel message type exc = some g' ∧ g'.list_lock = false ∧
    g'.ring = g.ring ∧ ∃ told : List DataR, g'.sent = g.sent ++ told.map (PeerMessage.mk · message type) ∧
      told.Perm (g.registered.filter (fun K => online K && decide (some K ≠ exc)))

theorem broadcasts_of_toldBy (hring : g.ring.Holds xs) (hfree : g.list_lock = false)
    (message : CString) (type : Int32) (exc : Option DataR) (fuel : Nat) {told : List DataR}
    (htold : g.toldBy online fuel exc = some told)
    (hall : told = xs.filter (fun K => online K && decide (some K ≠ exc))) :
    g.Broadcasts online message type exc := by
  refine ⟨fuel, { g with sent := g.sent ++ told.map (PeerMessage.mk · message type) }, ?_, hfree, rfl,
    told, rfl, ?_⟩
  · rw [broadcastPeers_of_free online hfree, htold]
    rfl
  · rw [registered_eq hring, hall]

-- A broadcast does what it is for unless it excludes an entry of the ring; where that
-- is the root it tells nobody, so nobody else may be there to be told.
theorem broadcasts_iff (hring : g.ring.Holds xs) (hfree : g.list_lock = false) (message : CString)
    (type : Int32) (exc : Option DataR) :
    g.Broadcasts online message type exc ↔
      ∀ K ∈ exc, K ∉ xs ∨ (xs.head? = some K ∧ ∀ k ∈ xs, online k = true → k = K) := by
  constructor
  · rintro ⟨fuel, g', hcall, -, -, told, hsent, hperm⟩ K hexc
    obtain rfl : exc = some K := hexc
    by_cases hK : K ∈ xs
    · refine Or.inr ?_
      rw [broadcastPeers_of_free online hfree] at hcall
      obtain ⟨told', htold, rfl⟩ := Option.map_eq_some_iff.mp hcall
      have hhead : xs.head? = some K := by
        by_contra hhead
        rw [toldBy_stuck online hring hK hhead fuel] at htold
        cases htold
      obtain ⟨xs', rfl⟩ : ∃ xs', xs = K :: xs' := List.head?_eq_some_iff.mp hhead
      refine ⟨hhead, ?_⟩
      have hnone : told = [] := by
        have hlen := congrArg List.length hsent
        rw [toldBy_root_nil online hring fuel htold] at hlen
        simp only [List.map_nil, List.append_nil, List.length_append, List.length_map] at hlen
        exact List.eq_nil_of_length_eq_zero (by omega)
      rw [hnone, registered_eq hring] at hperm
      intro k hk hup
      by_contra hne
      have hmem : k ∈ (K :: xs').filter (fun k => online k && decide (some k ≠ some K)) :=
        List.mem_filter.mpr ⟨hk, by simp [hup, hne]⟩
      rw [List.perm_nil.mp hperm.symm] at hmem
      exact List.not_mem_nil hmem
    · exact Or.inl hK
  · intro hcond
    by_cases hexc : ∀ K ∈ exc, K ∉ xs
    · apply broadcasts_of_toldBy online hring hfree message type exc g.ring.heap.brk
        (toldBy_others online hring exc hexc (Nat.le_refl _))
      apply List.filter_congr
      intro k hk
      have hne : some k ≠ exc := fun he => hexc k he.symm hk
      simp [hne]
    · obtain ⟨K, hK, hmem⟩ : ∃ K, exc = some K ∧ K ∈ xs := by
        cases exc with
        | none => exact absurd (by simp) hexc
        | some K => exact ⟨K, rfl, by simpa using hexc⟩
      subst hK
      rcases hcond K rfl with hnot | ⟨hhead, honly⟩
      · exact absurd hmem hnot
      · obtain ⟨xs', rfl⟩ : ∃ xs', xs = K :: xs' := List.head?_eq_some_iff.mp hhead
        apply broadcasts_of_toldBy online hring hfree message type (some K) 1
          (toldBy_root online hring 0)
        symm
        rw [List.filter_eq_nil_iff]
        intro k hk hup
        simp only [Bool.and_eq_true, decide_eq_true_eq] at hup
        exact hup.2 (congrArg some (honly k hk hup.1))

theorem broadcasts_iff_strangerExcluded :
    ∃ ring, recvRingUdp Process.start [⟨[49], 3001⟩, ⟨[49], 3002⟩] = some ring ∧
      (⟨ring, false, []⟩ : GatewayState).Broadcasts (fun _ => true) [49] 12 (some ⟨[49], 3003⟩) := by
  obtain ⟨ring, hcall, hring⟩ := recvRingUdp_start [⟨[49], 3001⟩, ⟨[49], 3002⟩]
  refine ⟨ring, hcall, (broadcasts_iff (fun _ => true) hring rfl [49] 12 _).mpr ?_⟩
  intro K hK
  obtain rfl := Option.some.inj hK
  exact Or.inl (by decide)

-- The second of two peers reports a third one.
theorem excluded_entry_stops_broadcast :
    ∃ ring, recvRingUdp Process.start [⟨[49], 3001⟩, ⟨[49], 3002⟩] = some ring ∧
      ¬ (⟨ring, false, []⟩ : GatewayState).Broadcasts (fun _ => true) [49] 12
        (some ⟨[49], 3002⟩) := by
  obtain ⟨ring, hcall, hring⟩ := recvRingUdp_start [⟨[49], 3001⟩, ⟨[49], 3002⟩]
  refine ⟨ring, hcall, ?_⟩
  rintro ⟨fuel, g', hbroadcast, -⟩
  rw [broadcastPeers_of_free _ rfl, toldBy_stuck _ hring (by decide) (by decide) fuel] at hbroadcast
  cases hbroadcast

end Broadcast

end GatewayState

end Gallery
