import Gallery.Gateway
import Gallery.Membership.Rings
import Gallery.Peer

namespace Gallery

-- What a broadcasting peer sends: to another peer, or to the gateway about one.
inductive Transmission
  | message (peer : DataR) (message : CString) (type : Int32)
  | photo (peer : DataR) (photo : Data)
  | report (m : MessageGw)
  deriving DecidableEq

-- The ring of a peer and whether `peer_lock` is held.
structure PeerRing where
  ring : Process
  peer_lock : Bool

-- The variables of the loop of `broadcastPeersAndNotify`.
structure BroadcastState where
  ring : Process
  sent : List Transmission
  offline_peers : Int32

section Model

-- `p` is the broadcasting peer and `port` its own, with which it signs its reports.
variable (online : DataR → Bool) (p : Peer) (port : Int32) (message : CString) (type : Int32)
  (photo : Option Data)

-- To a peer that is reachable. The text has to fit the message, and the photo what `send_photo` needs.
def tellPeer (K : DataR) : Option (List Transmission) :=
  if message.length < MAX_SIZE ∧ photo.all p.sends then
    some (.message K message type :: (photo.map (Transmission.photo K)).toList)
  else none

-- To the gateway, about one that is not; its identity has to fit `peer_id`.
def reportPeer (K : DataR) : Option (List Transmission) :=
  if (peerIdText K).length < MESSAGE_SIZE then some [.report ⟨-2, peerIdText K, port⟩] else none

def broadcastAndNotifyLoop : Nat → BroadcastState → Addr → Option BroadcastState
  | 0, _, _ => none
  | fuel + 1, s, aux =>
      if some aux = s.ring.peer_list then some s
      else do
        let K ← s.ring.heap.key aux
        if online K then
          let sent ← tellPeer p message type photo K
          let next ← s.ring.heap.next aux
          broadcastAndNotifyLoop fuel { s with sent := s.sent ++ sent } next
        else
          let sent ← reportPeer port K
          let next ← s.ring.heap.next aux
          let dead ← s.ring.heap.prev next
          let K ← s.ring.heap.key dead
          let ring ← s.ring.remove K
          broadcastAndNotifyLoop fuel ⟨ring, s.sent ++ sent, s.offline_peers + 1⟩ next

-- The ring afterwards, what was sent and the number of peers that did not answer.
def broadcastPeersAndNotify (fuel : Nat) (s : PeerRing) :
    Option (PeerRing × List Transmission × Int32) :=
  if s.peer_lock then none
  else do
    let r ← s.ring.peer_list
    let aux ← s.ring.heap.next r
    let t ← broadcastAndNotifyLoop online p port message type photo fuel ⟨s.ring, [], 0⟩ aux
    some (⟨t.ring, false⟩, t.sent, t.offline_peers)

end Model

section Walk

variable (online : DataR → Bool) (p : Peer) (port : Int32) (message : CString) (type : Int32)
  (photo : Option Data)

-- What goes out because of one entry.
def outgoing (K : DataR) : List Transmission :=
  if online K then .message K message type :: (photo.map (Transmission.photo K)).toList
  else [.report ⟨-2, peerIdText K, port⟩]

-- What goes out because of it fits the buffers it goes through.
def Fits (K : DataR) : Prop :=
  if online K then message.length < MAX_SIZE ∧ photo.all p.sends
  else (peerIdText K).length < MESSAGE_SIZE

variable {us vs : List (Addr × DataR)} {n : Addr × DataR} {s : BroadcastState}

-- The loop has passed `us`, where everybody answered, and is at `n`; `vs` is still ahead of it.
theorem broadcastAndNotifyLoop_step (fuel : Nat)
    (hc : Circle s.ring.heap s.ring.peer_list (us ++ n :: vs)) (hus : us ≠ [])
    (hup : ∀ k ∈ entries us, online k = true) (hfits : Fits online p message photo n.2) :
    ∃ s' us' next, broadcastAndNotifyLoop online p port message type photo (fuel + 1) s n.1 =
        broadcastAndNotifyLoop online p port message type photo fuel s' next ∧
      Circle s'.ring.heap s'.ring.peer_list (us' ++ vs) ∧ us' ≠ [] ∧
      entries us' = entries us ++ [n.2].filter online ∧ after s'.ring.peer_list vs = some next ∧
      s'.sent = s.sent ++ outgoing online port message type photo n.2 ∧
      s'.offline_peers = s.offline_peers + Int32.ofNat ([n.2].filter (fun k => !online k)).length := by
  obtain ⟨u, us, rfl⟩ := List.exists_cons_of_ne_nil hus
  have hroot : s.ring.peer_list = some u.1 := hc.root_eq
  have hkey := hc.key n (by simp)
  rw [hroot] at hc
  have hne : n.1 ≠ u.1 := hc.ne_root (by simp)
  obtain ⟨next, hafter, hnext, hprev⟩ := hc.prev_after
  by_cases hn : online n.2 = true
  · have hsent : tellPeer p message type photo n.2 = some (outgoing online port message type photo n.2) := by
      rw [tellPeer, if_pos (by simpa [Fits, hn] using hfits), outgoing, if_pos hn]
    refine ⟨{ s with sent := s.sent ++ outgoing online port message type photo n.2 },
      (u :: us) ++ [n], next, ?_, ?_, by simp, ?_, hroot.symm ▸ hafter, rfl, by simp [hn]⟩
    · simp [broadcastAndNotifyLoop, hroot, hne, hkey, hn, hsent, hnext]
    · rw [List.append_assoc, hroot]
      exact hc
    · rw [entries_append]
      simp [entries, hn]
  · have hsent : reportPeer port n.2 = some (outgoing online port message type photo n.2) := by
      rw [reportPeer, if_pos (by simpa [Fits, hn] using hfits), outgoing, if_neg hn]
    have hfirst : n.2 ∉ entries (u :: us) := fun hk => hn (hup n.2 hk)
    obtain ⟨h', root', hremove, hc', -⟩ := ringRemove_first hc hfirst
    obtain rfl : root' = some u.1 := hc'.root_eq
    refine ⟨⟨⟨h', some u.1⟩, s.sent ++ outgoing online port message type photo n.2,
      s.offline_peers + 1⟩, u :: us, next, ?_, hc', by simp, by simp [hn], hafter, rfl, ?_⟩
    · simp [broadcastAndNotifyLoop, hroot, hne, hkey, hn, hsent, hnext, hprev, Process.remove, hremove]
    · simp [hn]

-- The loop does not get past an entry for which something overflows.
theorem broadcastAndNotifyLoop_stop (fuel : Nat)
    (hc : Circle s.ring.heap s.ring.peer_list (us ++ n :: vs)) (hus : us ≠ [])
    (hover : ¬Fits online p message photo n.2) :
    broadcastAndNotifyLoop online p port message type photo fuel s n.1 = none := by
  obtain ⟨u, us, rfl⟩ := List.exists_cons_of_ne_nil hus
  have hroot : s.ring.peer_list = some u.1 := hc.root_eq
  have hkey := hc.key n (by simp)
  rw [hroot] at hc
  have hne : n.1 ≠ u.1 := hc.ne_root (by simp)
  cases fuel with
  | zero => rfl
  | succ fuel =>
      by_cases hn : online n.2 = true
      · have hnone : tellPeer p message type photo n.2 = none :=
          if_neg (by simpa [Fits, hn] using hover)
        simp [broadcastAndNotifyLoop, hroot, hne, hkey, hn, hnone]
      · have hnone : reportPeer port n.2 = none := if_neg (by simpa [Fits, hn] using hover)
        simp [broadcastAndNotifyLoop, hroot, hne, hkey, hn, hnone]

theorem online_entries {us' : List (Addr × DataR)} (hup : ∀ k ∈ entries us, online k = true)
    (hus' : entries us' = entries us ++ [n.2].filter online) : ∀ k ∈ entries us', online k = true := by
  intro k hk
  rw [hus'] at hk
  rcases List.mem_append.mp hk with hk | hk
  · exact hup k hk
  · exact List.of_mem_filter hk

theorem broadcastAndNotifyLoop_eq (fuel : Nat) (us vs : List (Addr × DataR)) (s : BroadcastState)
    (aux : Addr) (hc : Circle s.ring.heap s.ring.peer_list (us ++ vs)) (hus : us ≠ [])
    (hup : ∀ k ∈ entries us, online k = true) (haux : after s.ring.peer_list vs = some aux)
    (hfits : ∀ k ∈ entries vs, Fits online p message photo k) (hfuel : vs.length < fuel) :
    ∃ ring, broadcastAndNotifyLoop online p port message type photo fuel s aux =
        some ⟨ring, s.sent ++ (entries vs).flatMap (outgoing online port message type photo),
          s.offline_peers + Int32.ofNat ((entries vs).filter (fun k => !online k)).length⟩ ∧
      ring.Holds (entries us ++ (entries vs).filter online) := by
  induction vs generalizing us s aux fuel with
  | nil =>
      obtain ⟨fuel, rfl⟩ := Nat.exists_eq_add_one_of_ne_zero (Nat.ne_of_gt hfuel)
      have hback : some aux = s.ring.peer_list := haux.symm
      refine ⟨s.ring, ?_, _, hc, by simp⟩
      rw [broadcastAndNotifyLoop, if_pos hback]
      simp
  | cons n vs ih =>
      obtain ⟨fuel, rfl⟩ := Nat.exists_eq_add_one_of_ne_zero (Nat.ne_of_gt (Nat.zero_lt_of_lt hfuel))
      obtain rfl := Option.some.inj haux
      obtain ⟨s', us', next, hstep, hc', hus', hentries, hafter, hsent, hcount⟩ :=
        broadcastAndNotifyLoop_step online p port message type photo fuel hc hus hup
          (hfits n.2 List.mem_cons_self)
      obtain ⟨ring, hloop, hring⟩ := ih fuel us' s' next hc' hus' (online_entries online hup hentries)
        hafter (fun k hk => hfits k (List.mem_cons_of_mem _ hk)) (by simpa using hfuel)
      have hcut : ((entries (n :: vs)).filter (fun k => !online k)).length =
          ([n.2].filter (fun k => !online k)).length +
            ((entries vs).filter (fun k => !online k)).length := by
        rw [← List.length_append, ← List.filter_append]
        rfl
      refine ⟨ring, ?_, ?_⟩
      · rw [hstep, hloop, hsent, hcount, hcut, Int32.ofNat_add, Int32.add_assoc, List.append_assoc]
        rfl
      · rw [hentries, List.append_assoc, ← List.filter_append] at hring
        exact hring

theorem broadcastAndNotifyLoop_overflow (fuel : Nat) (us vs : List (Addr × DataR)) (s : BroadcastState)
    (aux : Addr) (hc : Circle s.ring.heap s.ring.peer_list (us ++ vs)) (hus : us ≠ [])
    (hup : ∀ k ∈ entries us, online k = true) (haux : after s.ring.peer_list vs = some aux)
    (hover : ∃ k ∈ entries vs, ¬Fits online p message photo k) :
    broadcastAndNotifyLoop online p port message type photo fuel s aux = none := by
  induction vs generalizing us s aux fuel with
  | nil => simp at hover
  | cons n vs ih =>
      obtain rfl := Option.some.inj haux
      by_cases hfits : Fits online p message photo n.2
      · cases fuel with
        | zero => rfl
        | succ fuel =>
            obtain ⟨s', us', next, hstep, hc', hus', hentries, hafter, -⟩ :=
              broadcastAndNotifyLoop_step online p port message type photo fuel hc hus hup hfits
            rw [hstep]
            refine ih fuel us' s' next hc' hus' (online_entries online hup hentries) hafter ?_
            obtain ⟨k, hk, hbad⟩ := hover
            rcases List.mem_cons.mp hk with rfl | hk
            · exact absurd hfits hbad
            · exact ⟨k, hk, hbad⟩
      · exact broadcastAndNotifyLoop_stop online p port message type photo fuel hc hus hfits

end Walk

section Broadcast

variable (online : DataR → Bool) (p : Peer) (port : Int32) (message : CString) (type : Int32)
  (photo : Option Data) {s : PeerRing} {K : DataR} {xs : List DataR}

-- Every other entry gets the message and the photo if it answers, and is reported and
-- taken out of the ring if it does not.
theorem broadcastPeersAndNotify_eq (hring : s.ring.Holds (K :: xs)) (hself : online K = true)
    (hfree : s.peer_lock = false) (hfits : ∀ k ∈ xs, Fits online p message photo k) :
    ∃ fuel s' offline_peers, broadcastPeersAndNotify online p port message type photo fuel s =
        some (s', xs.flatMap (fun k =>
            if online k then .message k message type :: (photo.map (Transmission.photo k)).toList
            else [.report ⟨-2, peerIdText k, port⟩]), offline_peers) ∧
      (offline_peers.toInt = (xs.filter (fun k => !online k)).length ↔
        (xs.filter (fun k => !online k)).length < 2 ^ 31) ∧
      s'.peer_lock = false ∧ s'.ring.Holds (K :: xs.filter online) := by
  obtain ⟨ns, hc, hns⟩ := hring
  cases ns with
  | nil => simp at hns
  | cons n ns =>
      obtain ⟨rfl, rfl⟩ := List.cons.inj hns
      have hroot : s.ring.peer_list = some n.1 := hc.root_eq
      obtain ⟨t, ht, hnext, -⟩ := @Circle.prev_after _ _ [] ns _ n (hroot ▸ hc)
      obtain ⟨ring, hloop, hring⟩ := broadcastAndNotifyLoop_eq online p port message type photo
        (ns.length + 1) [n] ns ⟨s.ring, [], 0⟩ t hc (by simp) (by simpa using hself) (hroot.symm ▸ ht)
        hfits (by simp)
      refine ⟨ns.length + 1, ⟨ring, false⟩, _, ?_, toInt_ofNat_eq_iff _, rfl, hring⟩
      simp only [broadcastPeersAndNotify, hfree, hroot, hnext, hloop, Option.bind_eq_bind,
        Option.bind_some, List.nil_append, Int32.zero_add]
      rfl

-- It is not done when one of them does not fit.
theorem broadcastPeersAndNotify_overflow (hring : s.ring.Holds (K :: xs)) (hself : online K = true)
    (hfits : ∃ k ∈ xs, ¬Fits online p message photo k) (fuel : Nat) :
    broadcastPeersAndNotify online p port message type photo fuel s = none := by
  obtain ⟨ns, hc, hns⟩ := hring
  cases ns with
  | nil => simp at hns
  | cons n ns =>
      obtain ⟨rfl, rfl⟩ := List.cons.inj hns
      have hroot : s.ring.peer_list = some n.1 := hc.root_eq
      obtain ⟨t, ht, hnext, -⟩ := @Circle.prev_after _ _ [] ns _ n (hroot ▸ hc)
      have hloop := broadcastAndNotifyLoop_overflow online p port message type photo fuel [n] ns
        ⟨s.ring, [], 0⟩ t hc (by simp) (by simpa using hself) (hroot.symm ▸ ht) hfits
      unfold broadcastPeersAndNotify
      split
      · rfl
      · simp only [hroot, hnext, hloop, Option.bind_eq_bind, Option.bind_some, Option.bind_none]

theorem broadcastPeersAndNotify_eq_twoOffline :
    ∃ ring s', recvRingUdp Process.start [⟨[49], 3001⟩, ⟨[49], 3002⟩, ⟨[49], 3003⟩, ⟨[49], 3002⟩] =
        some ring ∧
      (∃ fuel offline_peers, broadcastPeersAndNotify (fun K => K.port != 3002) ⟨[], fun _ => none⟩ 3001
          [49] 11 none fuel ⟨ring, false⟩ =
        some (s', [.report ⟨-2, [49, 44, 51, 48, 48, 50], 3001⟩, .message ⟨[49], 3003⟩ [49] 11,
          .report ⟨-2, [49, 44, 51, 48, 48, 50], 3001⟩], offline_peers) ∧ offline_peers.toInt = 2) ∧
      s'.ring.Holds [⟨[49], 3001⟩, ⟨[49], 3003⟩] := by
  obtain ⟨ring, hcall, hring⟩ :=
    recvRingUdp_start [⟨[49], 3001⟩, ⟨[49], 3002⟩, ⟨[49], 3003⟩, ⟨[49], 3002⟩]
  have hfits : ∀ k ∈ ([⟨[49], 3002⟩, ⟨[49], 3003⟩, ⟨[49], 3002⟩] : List DataR),
      Fits (fun K => K.port != 3002) ⟨[], fun _ => none⟩ [49] none k := by
    unfold Fits
    decide +kernel
  obtain ⟨fuel, s', offline_peers, hbroadcast, hcount, -, hs'⟩ := broadcastPeersAndNotify_eq
    (fun K => K.port != 3002) ⟨[], fun _ => none⟩ 3001 [49] 11 none (s := ⟨ring, false⟩) hring
    (by decide) rfl hfits
  refine ⟨ring, s', hcall, ⟨fuel, offline_peers, hbroadcast.trans ?_, hcount.mpr (by decide)⟩, hs'⟩
  have hsent : [⟨[49], 3002⟩, ⟨[49], 3003⟩, ⟨[49], 3002⟩].flatMap (fun k : DataR =>
      if k.port != 3002 then .message k [49] 11 :: ((none : Option Data).map (Transmission.photo k)).toList
      else [.report ⟨-2, peerIdText k, 3001⟩]) =
      [.report ⟨-2, [49, 44, 51, 48, 48, 50], 3001⟩, .message ⟨[49], 3003⟩ [49] 11,
        .report ⟨-2, [49, 44, 51, 48, 48, 50], 3001⟩] := by decide
  rw [hsent]

-- Port -1 is printed as 4294967295, with which 19 bytes of an address do not fit `peer_id`.
theorem peer_id_overflows :
    ∃ ring, recvRingUdp Process.start [⟨[49], 3001⟩, ⟨List.replicate 19 49, -1⟩] = some ring ∧
      ∀ fuel, broadcastPeersAndNotify (fun K => K.port == 3001) ⟨[], fun _ => none⟩ 3001 [49] 11 none fuel
        ⟨ring, false⟩ = none := by
  obtain ⟨ring, hcall, hring⟩ := recvRingUdp_start [⟨[49], 3001⟩, ⟨List.replicate 19 49, -1⟩]
  refine ⟨ring, hcall, fun fuel => broadcastPeersAndNotify_overflow _ _ _ _ _ _ hring (by decide)
    ⟨⟨List.replicate 19 49, -1⟩, by simp, ?_⟩ fuel⟩
  unfold Fits
  decide +kernel

end Broadcast

end Gallery
