import Gallery.Peer.Theorems
import Gallery.Transition

namespace Gallery

-- The uploads of all peers at once and the datagrams between them and the gateway.
-- Requests and replies carry no number: a reply goes to the socket of a peer, which
-- all its connection threads share. `processed` counts the type 1 requests.
structure IdService (P : Type) where
  photo_id : UInt32
  processed : Nat
  requests : List P
  replies : List (P × UInt32)
  waiting : List P
  replied : List (P × GatewayReply)
  accepted : List (P × UInt32)

def IdService.start (P : Type) : IdService P := ⟨0, 0, [], [], [], [], []⟩

-- The id with which `add_photo` inserts the photo, once the send to the client
-- returned.
def acceptedId (gateway : GatewayReply) (sent : Bool) : Option UInt32 :=
  match gateway with
  | .notSent => none
  | .timeout => none
  | .id n => if sent && n != 0 then some n else none

inductive IdAction (P : Type)
  -- A thread of a peer sends a request and waits.
  | ask (p : P)
  -- The gateway handles a datagram, or the network loses one.
  | handle (i : Nat)
  | loseRequest (i : Nat)
  | loseReply (i : Nat)
  -- A waiting thread takes a datagram of its socket, or its time is up.
  | take (t i : Nat)
  | timeOut (t : Nat)
  -- The id is sent to the client.
  | tell (t : Nat) (sent : Bool)

variable {P : Type}

def IdService.step [DecidableEq P] (s : IdService P) : IdAction P → Option (IdService P)
  | .ask p => some { s with requests := s.requests ++ [p], waiting := s.waiting ++ [p] }
  | .handle i => do
      let (p, requests) ← pick s.requests i
      some { s with
        photo_id := s.photo_id + 1
        processed := s.processed + 1
        requests := requests
        replies := s.replies ++ [(p, s.photo_id + 1)] }
  | .loseRequest i => do
      let (_, requests) ← pick s.requests i
      some { s with requests := requests }
  | .loseReply i => do
      let (_, replies) ← pick s.replies i
      some { s with replies := replies }
  | .take t i => do
      let (p, waiting) ← pick s.waiting t
      let ((q, n), replies) ← pick s.replies i
      if p = q then
        some { s with waiting := waiting, replies := replies, replied := s.replied ++ [(p, .id n)] }
      else none
  | .timeOut t => do
      let (p, waiting) ← pick s.waiting t
      some { s with waiting := waiting, replied := s.replied ++ [(p, .timeout)] }
  | .tell t sent => do
      let ((p, gateway), replied) ← pick s.replied t
      some { s with
        replied := replied
        accepted := s.accepted ++ ((acceptedId gateway sent).map (fun n => (p, n))).toList }

section Unique

def replyId (r : P × GatewayReply) : Option UInt32 :=
  match r.2 with
  | .id n => some n
  | _ => none

-- Every id that is on its way, taken or accepted.
def IdService.ids (s : IdService P) : List UInt32 :=
  s.replies.map Prod.snd ++ s.replied.filterMap replyId ++ s.accepted.map Prod.snd

-- While the counter has not wrapped, an id the gateway sent is in one place at most.
structure IdService.Unique (s : IdService P) : Prop where
  counter : s.photo_id.toNat = s.processed
  nodup : s.ids.Nodup
  issued : ∀ n ∈ s.ids, 0 < n.toNat ∧ n.toNat ≤ s.processed

theorem count_ids (s : IdService P) (n : UInt32) :
    s.ids.count n = (s.replies.map Prod.snd).count n + (s.replied.filterMap replyId).count n +
      (s.accepted.map Prod.snd).count n := by
  simp [IdService.ids, Nat.add_assoc]

theorem count_replyId_cons (r : P × GatewayReply) (l : List (P × GatewayReply)) (n : UInt32) :
    ((r :: l).filterMap replyId).count n =
      (replyId r).toList.count n + (l.filterMap replyId).count n := by
  cases h : replyId r <;> simp [h, List.count_cons, Nat.add_comm]

theorem count_acceptedId_le (p : P) (g : GatewayReply) (sent : Bool) (n : UInt32) :
    (((acceptedId g sent).map (fun n => (p, n))).toList.map Prod.snd).count n ≤
      (replyId (p, g)).toList.count n := by
  cases g with
  | notSent => simp [acceptedId]
  | timeout => simp [acceptedId]
  | id m => cases hm : sent && m != 0 <;> simp [acceptedId, replyId, hm]

-- What a step does to the ids: only the gateway makes one, the others move some or
-- lose them.
theorem step_ids [DecidableEq P] {s t : IdService P} {a : IdAction P} (h : s.step a = some t) :
    (t.photo_id = s.photo_id ∧ t.processed = s.processed ∧
      ∀ n, t.ids.count n ≤ s.ids.count n) ∨
    (t.photo_id = s.photo_id + 1 ∧ t.processed = s.processed + 1 ∧
      ∀ n, t.ids.count n ≤ ((s.photo_id + 1) :: s.ids).count n) := by
  cases a with
  | ask p =>
      obtain rfl := Option.some.inj h
      exact .inl ⟨rfl, rfl, fun n => le_refl _⟩
  | handle i =>
      obtain ⟨⟨p, requests⟩, -, h⟩ := Option.bind_eq_some_iff.mp h
      obtain rfl := Option.some.inj h
      refine .inr ⟨rfl, rfl, fun n => ?_⟩
      simp only [List.count_cons, count_ids, List.map_append, List.map_cons, List.map_nil,
        List.count_append, List.count_nil]
      omega
  | loseRequest i =>
      obtain ⟨⟨p, requests⟩, -, h⟩ := Option.bind_eq_some_iff.mp h
      obtain rfl := Option.some.inj h
      exact .inl ⟨rfl, rfl, fun n => le_refl _⟩
  | loseReply i =>
      obtain ⟨⟨r, replies⟩, hpick, h⟩ := Option.bind_eq_some_iff.mp h
      obtain rfl := Option.some.inj h
      refine .inl ⟨rfl, rfl, fun n => ?_⟩
      have hgone := ((pick_perm hpick).map Prod.snd).count_eq n
      rw [List.map_cons, List.count_cons] at hgone
      simp only [count_ids]
      omega
  | take k i =>
      obtain ⟨⟨p, waiting⟩, -, h⟩ := Option.bind_eq_some_iff.mp h
      obtain ⟨⟨⟨q, m⟩, replies⟩, hpick, h⟩ := Option.bind_eq_some_iff.mp h
      dsimp only at h
      split at h
      · obtain rfl := Option.some.inj h
        refine .inl ⟨rfl, rfl, fun n => ?_⟩
        have hgone := ((pick_perm hpick).map Prod.snd).count_eq n
        have htaken : ([(p, GatewayReply.id m)].filterMap replyId) = [m] := rfl
        rw [List.map_cons, List.count_cons] at hgone
        simp only [count_ids, List.filterMap_append, htaken, List.count_append,
          List.count_singleton]
        dsimp only at hgone
        omega
      · cases h
  | timeOut k =>
      obtain ⟨⟨p, waiting⟩, -, h⟩ := Option.bind_eq_some_iff.mp h
      dsimp only at h
      obtain rfl := Option.some.inj h
      refine .inl ⟨rfl, rfl, fun n => ?_⟩
      have hnone : ([(p, GatewayReply.timeout)].filterMap replyId) = [] := rfl
      simp only [count_ids, List.filterMap_append, hnone, List.append_nil, le_refl]
  | tell k sent =>
      obtain ⟨⟨⟨p, g⟩, replied⟩, hpick, h⟩ := Option.bind_eq_some_iff.mp h
      dsimp only at h
      obtain rfl := Option.some.inj h
      refine .inl ⟨rfl, rfl, fun n => ?_⟩
      have hgone := ((pick_perm hpick).filterMap replyId).count_eq n
      have haccepted := count_acceptedId_le p g sent n
      rw [count_replyId_cons] at hgone
      simp only [count_ids, List.map_append, List.count_append]
      omega

theorem unique_step [DecidableEq P] {s t : IdService P} {a : IdAction P} (h : s.step a = some t)
    (hs : s.processed < 2 ^ 32 → s.Unique) : t.processed < 2 ^ 32 → t.Unique := by
  intro hbound
  obtain ⟨hcounter, hprocessed, hids⟩ | ⟨hcounter, hprocessed, hids⟩ := step_ids h
  · have hu := hs (by omega)
    refine ⟨by rw [hcounter, hprocessed, hu.counter], ?_, fun n hn => ?_⟩
    · exact List.nodup_iff_count.mpr (fun n =>
        (hids n).trans (List.nodup_iff_count.mp hu.nodup n))
    · have hold := List.count_pos_iff.mp ((List.count_pos_iff.mpr hn).trans_le (hids n))
      exact hprocessed ▸ hu.issued n hold
  · have hu := hs (by omega)
    have hnext : (s.photo_id + 1).toNat = s.processed + 1 := by
      rw [UInt32.toNat_add, hu.counter]
      exact Nat.mod_eq_of_lt (by rw [UInt32.toNat_one]; omega)
    have hfresh : s.photo_id + 1 ∉ s.ids := by
      intro hmem
      have := (hu.issued _ hmem).2
      omega
    have hnodup := List.nodup_cons.mpr ⟨hfresh, hu.nodup⟩
    refine ⟨by rw [hcounter, hprocessed, hnext], ?_, fun n hn => ?_⟩
    · exact List.nodup_iff_count.mpr (fun n =>
        (hids n).trans (List.nodup_iff_count.mp hnodup n))
    · have hmem := List.count_pos_iff.mp ((List.count_pos_iff.mpr hn).trans_le (hids n))
      rcases List.mem_cons.mp hmem with rfl | hold
      · omega
      · have := hu.issued n hold
        omega

-- No two uploads that are accepted get the same id and none gets 0, as long as the
-- gateway has counted up fewer than 2^32 times.
theorem accepted_ids_unique [DecidableEq P] (s : IdService P)
    (hrun : Reaches IdService.step (fun _ _ => True) (IdService.start P) s)
    (hbound : s.processed < 2 ^ 32) :
    (s.accepted.map Prod.snd).Nodup ∧ 0 ∉ s.accepted.map Prod.snd := by
  have hu : s.processed < 2 ^ 32 → s.Unique := by
    refine hrun.invariant (I := fun s => s.processed < 2 ^ 32 → s.Unique)
      (fun _ => ⟨rfl, List.nodup_nil, fun n hn => nomatch hn⟩) ?_
    intro s a t hs _ ht
    exact unique_step ht hs
  obtain ⟨-, hnodup, hissued⟩ := hu hbound
  refine ⟨(List.nodup_append.mp hnodup).2.1, fun hzero => ?_⟩
  have := (hissued 0 (List.mem_append_right _ hzero)).1
  simp at this

-- Two uploads at one peer and one at another. The first thread waits too long, and
-- its id is taken by the second one of its peer.
def threeUploads : List (IdAction Bool) :=
  [.ask true, .handle 0, .timeOut 0, .tell 0 true, .ask true, .ask false, .handle 1, .take 1 1,
    .handle 0, .take 0 0, .loseReply 0, .tell 1 true, .tell 0 true]

theorem accepted_ids_unique_threeUploads :
    ∃ s, execute IdService.step (fun _ _ => True) (IdService.start Bool) threeUploads = some s ∧
      s.accepted = [(true, 1), (false, 2)] ∧
      (s.accepted.map Prod.snd).Nodup ∧ 0 ∉ s.accepted.map Prod.snd :=
  ⟨_, rfl, rfl, accepted_ids_unique _ (reaches_of_execute threeUploads rfl) (by decide)⟩

end Unique

section Uploads

-- What the handler does to the list of its own peer is what `tell` records.
theorem addPhotoClient_accepts {p : Peer} {s : Sock} {gateway : GatewayReply} {buffer : CString}
    {h : Handled} {ret : Int32} (hadd : addPhotoClient p s gateway buffer = some (h, ret)) :
    ∃ sent, match acceptedId gateway sent with
      | none => ret = -1 ∧ h.peer = p
      | some n => ret = n.toInt32 ∧
          ∃ name, h.peer.photo_list = listInsert p.photo_list (setData name n) := by
  obtain ⟨name, -, hadd⟩ := Option.bind_eq_some_iff.mp hadd
  cases gateway with
  | notSent =>
      obtain ⟨rfl, rfl⟩ := Prod.mk.inj (Option.some.inj hadd)
      exact ⟨true, rfl, rfl⟩
  | timeout =>
      refine ⟨true, ?_⟩
      dsimp only at hadd
      split at hadd
      · obtain ⟨rfl, rfl⟩ := Prod.mk.inj (Option.some.inj hadd)
        exact ⟨rfl, rfl⟩
      · obtain ⟨rfl, rfl⟩ := Prod.mk.inj (Option.some.inj hadd)
        exact ⟨rfl, rfl⟩
  | id n =>
      dsimp only at hadd
      split at hadd
      · obtain ⟨rfl, rfl⟩ := Prod.mk.inj (Option.some.inj hadd)
        exact ⟨false, rfl, rfl⟩
      · refine ⟨true, ?_⟩
        by_cases hn : n = 0
        · rw [if_pos hn] at hadd
          obtain ⟨rfl, rfl⟩ := Prod.mk.inj (Option.some.inj hadd)
          simp [acceptedId, hn]
        · rw [if_neg hn] at hadd
          obtain ⟨⟨q, s'⟩, hstore, hadd⟩ := Option.bind_eq_some_iff.mp hadd
          obtain ⟨rfl, rfl⟩ := Prod.mk.inj (Option.some.inj hadd)
          have hlist := storePhoto_photo_list hstore
          simpa [acceptedId, hn] using ⟨name, hlist⟩

end Uploads

end Gallery
