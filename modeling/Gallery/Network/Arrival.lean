import Gallery.Cluster.Convergence
import Gallery.Network.Joining

namespace Gallery

section Counts

variable (x : UInt32) (N : DataR)

-- The uploads of the photo `x` whose peers have not taken their list of peers yet,
-- and the copies of it on their way to the new peer since one has.
def Cluster.undecided (s : Cluster) : Nat := s.pending (photoWeight x) (fun _ => 0) N

def Cluster.bound (s : Cluster) : Nat := s.pending (fun _ => 0) (photoWeight x) N

-- How often the photo is among those the first peer has sent.
def Cluster.mailed (s : Cluster) : Nat :=
  total (fun a => if a.1 = N then (a.2.map (fun b => b.1.id)).count x else 0) s.mail

-- What the new peer has stored or got with the list of the first peer.
def Cluster.received (s : Cluster) : Nat := s.held x N + s.mailed x N

def Joiner.hasPhotos : Joiner → Bool
  | .notify _ has_photos => has_photos
  | _ => false

-- The first peer has sent its photos.
def Network.served (s : Network) : Bool :=
  s.cluster.listening N || s.joiners.any (fun a => a.1 == N && a.2.hasPhotos) ||
    s.cluster.mail.any (fun a => a.1 == N)

-- The photos whose list of peers was taken are on their way to the new peer exactly
-- if they are on their way to the first one.
def Cluster.InStep (f : DataR) (s : Cluster) : Prop :=
  ∀ x, s.undecided x N = 0 → s.bound x N = s.adds x f

def Task.sendsPhotos : Task → Bool
  | .sendAllPhotos _ => true
  | _ => false

def Task.takesList : Task → Option Data
  | .lockPeers (.photo K) => some K
  | _ => none

-- Each photo comes to the new peer one way: the first peer inserts it before it sends
-- its photos if and only if the peer of the upload takes its list of peers without the
-- new one. Whichever comes later decides.
def Network.OneWay (s : Network) : NetworkAction → Prop
  | .cluster (.run i) => ∀ a ∈ s.cluster.threads[i]?,
      (a.2.sendsPhotos = true → s.cluster.InStep N a.1) ∧
      ∀ K ∈ a.2.takesList, s.served N = true →
        (N ∈ (s.cluster.replica a.1).peer_list ↔ s.cluster.received K.id N = 0)
  | _ => True

-- No id in use is given out again.
def Network.NewId (s : Network) : NetworkAction → Prop
  | .cluster (.run i) => ∀ a ∈ s.cluster.threads[i]?, a.2.asksId = true →
      s.cluster.held (s.cluster.photo_id + 1) a.1 = 0 ∧ s.cluster.adds (s.cluster.photo_id + 1) a.1 = 0
  | _ => True

structure Network.CleanJoin (s : Network) (a : NetworkAction) : Prop where
  oneJoin : s.OneJoin N a
  listening : s.ProbesListening a
  newId : s.NewId a
  oneWay : s.OneWay N a

-- What one step does to the photo `x`: nothing, an upload, a list taken for it, a copy
-- stored by the new peer, or the photos sent to it.
inductive Progress (old : DataR → Bool) (s t : Network) : Prop
  | same (holds : ∀ q, old q = true →
        t.cluster.held x q + t.cluster.adds x q = s.cluster.held x q + s.cluster.adds x q)
      (undecided : t.cluster.undecided x N = s.cluster.undecided x N)
      (bound : t.cluster.bound x N = s.cluster.bound x N)
      (received : t.cluster.received x N = s.cluster.received x N) (served : t.served N = s.served N)
  | issued (p : DataR) (hp : old p = true) (hnew : s.cluster.held x p + s.cluster.adds x p = 0)
      (holds : ∀ q, old q = true →
        t.cluster.held x q + t.cluster.adds x q = s.cluster.held x q + s.cluster.adds x q + 1)
      (undecided : t.cluster.undecided x N = s.cluster.undecided x N + 1)
      (bound : t.cluster.bound x N = s.cluster.bound x N)
      (received : t.cluster.received x N = s.cluster.received x N) (served : t.served N = s.served N)
  | decided (copies : Nat) (hcopies : copies ≤ 1)
      (honeWay : s.served N = true → (0 < copies ↔ s.cluster.received x N = 0))
      (holds : ∀ q, old q = true →
        t.cluster.held x q + t.cluster.adds x q = s.cluster.held x q + s.cluster.adds x q)
      (undecided : t.cluster.undecided x N + 1 = s.cluster.undecided x N)
      (bound : t.cluster.bound x N = s.cluster.bound x N + copies)
      (received : t.cluster.received x N = s.cluster.received x N) (served : t.served N = s.served N)
  | stored (hserved : s.served N = true)
      (holds : ∀ q, old q = true →
        t.cluster.held x q + t.cluster.adds x q = s.cluster.held x q + s.cluster.adds x q)
      (undecided : t.cluster.undecided x N = s.cluster.undecided x N)
      (bound : t.cluster.bound x N + 1 = s.cluster.bound x N)
      (received : t.cluster.received x N = s.cluster.received x N + 1) (served : t.served N = s.served N)
  | sent (f : DataR) (hf : old f = true) (hserved : s.served N = false)
      (honeWay : s.cluster.undecided x N = 0 → s.cluster.bound x N = s.cluster.adds x f)
      (holds : ∀ q, old q = true →
        t.cluster.held x q + t.cluster.adds x q = s.cluster.held x q + s.cluster.adds x q)
      (undecided : t.cluster.undecided x N = s.cluster.undecided x N)
      (bound : t.cluster.bound x N = s.cluster.bound x N)
      (received : t.cluster.received x N = s.cluster.received x N + s.cluster.held x f)
      (served : t.served N = true)

-- All old peers are bound for the same number of copies, at most one, and so is the
-- new peer once it is settled which way the photo comes to it.
structure Network.Accounts (old : DataR → Bool) (n : Nat) (s : Network) : Prop where
  le_one : n ≤ 1
  olds : ∀ q, old q = true → s.cluster.held x q + s.cluster.adds x q = n
  coming : s.cluster.undecided x N + s.cluster.bound x N ≤ n
  received_le : s.cluster.received x N ≤ n
  before : s.served N = false → s.cluster.received x N = 0
  after : s.served N = true → s.cluster.undecided x N = 0 →
    s.cluster.received x N + s.cluster.bound x N = n

end Counts

section Accounts

variable {old : DataR → Bool} {x : UInt32} {N : DataR} {s t : Network}

theorem accounts_progress {n : Nat} (hs : s.Accounts x N old n) (h : Progress x N old s t) :
    ∃ n, t.Accounts x N old n := by
  obtain ⟨hn, holds, hcoming, hreceived, hbefore, hafter⟩ := hs
  cases h with
  | same holds' undecided bound received served =>
      refine ⟨n, hn, fun q hq => (holds' q hq).trans (holds q hq), ?_, ?_, ?_, ?_⟩
      · omega
      · omega
      · rw [served, received]
        exact hbefore
      · rw [served, undecided, bound, received]
        exact hafter
  | issued p hp hnew holds' undecided bound received served =>
      have hzero : n = 0 := (holds p hp).symm.trans hnew
      refine ⟨1, le_refl 1, fun q hq => ?_, ?_, ?_, ?_, ?_⟩
      · have := holds' q hq
        have := holds q hq
        omega
      · omega
      · omega
      · rw [served, received]
        exact hbefore
      · omega
  | decided copies hcopies honeWay holds' undecided bound received served =>
      refine ⟨n, hn, fun q hq => (holds' q hq).trans (holds q hq), ?_, ?_, ?_, fun hserved hnone => ?_⟩
      · omega
      · omega
      · rw [served, received]
        exact hbefore
      · rw [served] at hserved
        have := honeWay hserved
        omega
  | stored hserved holds' undecided bound received served =>
      have := hafter hserved
      refine ⟨n, hn, fun q hq => (holds' q hq).trans (holds q hq), ?_, ?_, ?_, ?_⟩
      · omega
      · omega
      · rw [served, hserved]
        exact fun h => Bool.noConfusion h
      · omega
  | sent f hf hserved honeWay holds' undecided bound received served =>
      have := hbefore hserved
      have := holds f hf
      refine ⟨n, hn, fun q hq => (holds' q hq).trans (holds q hq), ?_, ?_, ?_, fun _ hnone => ?_⟩
      · omega
      · omega
      · rw [served]
        exact fun h => Bool.noConfusion h
      · have := honeWay (undecided ▸ hnone)
        omega

variable {stage stage' : JoinStage}

theorem served_eq (hs : s.Joining old N stage) :
    s.served N = (stage.hasPhotos || !s.cluster.mail.isEmpty) := by
  have hmail : s.cluster.mail.any (fun a => a.1 == N) = !s.cluster.mail.isEmpty := by
    have hall := hs.uploads.mail
    cases hlist : s.cluster.mail with
    | nil => rfl
    | cons a rest =>
        have ha := hall a (hlist ▸ List.mem_cons_self)
        simp [ha]
  rw [Network.served, hmail, hs.listening, hs.joiners, Function.update_self]
  cases stage <;>
    simp [JoinStage.listens, JoinStage.joiners, JoinStage.hasPhotos, Joiner.hasPhotos]

theorem recvPhotos_ids {p p' : Peer} {photos : List (Data × List Byte)}
    (h : p.recvPhotos photos = some p') :
    (p'.photo_list.map Data.id).count x =
      (p.photo_list.map Data.id).count x + (photos.map (fun b => b.1.id)).count x := by
  induction photos generalizing p with
  | nil =>
      obtain rfl := Option.some.inj h
      rfl
  | cons photo rest ih =>
      simp only [Peer.recvPhotos] at h
      split at h
      · cases h
      · rw [ih h]
        simp only [Peer.writeFile, listInsert, List.map_cons, List.count_cons]
        omega

-- A step after which every peer holds the same and the same is on its way.
theorem progress_same (hs : s.Joining old N stage) (ht : t.Joining old N stage')
    (hheld : ∀ q, t.cluster.held x q = s.cluster.held x q)
    (hpending : ∀ u w q, t.cluster.pending u w q = s.cluster.pending u w q)
    (hmail : t.cluster.mail = s.cluster.mail) (hphotos : stage'.hasPhotos = stage.hasPhotos) :
    Progress x N old s t := by
  refine .same (fun q _ => ?_) (hpending _ _ _) (hpending _ _ _) ?_ ?_
  · rw [hheld, Cluster.adds, hpending, Cluster.adds]
  · rw [Cluster.received, Cluster.received, hheld, Cluster.mailed, hmail, Cluster.mailed]
  · rw [served_eq hs, served_eq ht, hphotos, hmail]

theorem pending_newPeer (c : Cluster) (k K : DataR) (asker : Option DataR) (u w : News → Nat) (q : DataR) :
    (c.send [(k, .newPeer K asker)]).pending u w q = c.pending u w q := by
  simp [Cluster.pending, Cluster.send, packetPending, Packet.weight]

theorem progress_photos {rest : List DataR} {j : Nat} {K : DataR} {photos : List (Data × List Byte)}
    {mail : List (DataR × List (Data × List Byte))} {peer : Peer} (hN : old N = false)
    (hs : s.Joining old N (.waiting rest)) (ht : t.Joining old N (.told rest))
    (hpick : pick s.cluster.mail j = some ((K, photos), mail))
    (hpeer : (s.cluster.replica N).peer.recvPhotos photos = some peer)
    (hcluster : t.cluster =
      { s.cluster.setReplica N ((s.cluster.replica N).setPeer peer) with mail := mail }) :
    Progress x N old s t := by
  have hpending : ∀ u w q, t.cluster.pending u w q = s.cluster.pending u w q := fun u w q => by
    rw [hcluster]
    rfl
  have hK : K = N := hs.uploads.mail _ (pick_mem hpick)
  refine .same (fun q hq => ?_) (hpending _ _ _) (hpending _ _ _) ?_ ?_
  · have hne : q ≠ N := fun h => by
      rw [h, hN] at hq
      cases hq
    rw [Cluster.adds, hpending, Cluster.adds, hcluster, Cluster.held, Cluster.held]
    simp [Cluster.setReplica, Function.update_of_ne hne]
  · have hmailed := total_pick (fun a => if a.1 = N then (a.2.map (fun b => b.1.id)).count x else 0) hpick
    have hheld := recvPhotos_ids (x := x) hpeer
    simp only [hK, if_true] at hmailed
    rw [Cluster.received, Cluster.received, Cluster.mailed, Cluster.mailed, hmailed, hcluster,
      Cluster.held, Cluster.held]
    simp only [Cluster.setReplica, Function.update_self, Replica.ids, Replica.setPeer]
    omega
  · rw [served_eq hs, served_eq ht]
    have hmem := pick_mem hpick
    cases hlist : s.cluster.mail with
    | nil =>
        rw [hlist] at hmem
        cases hmem
    | cons a more => rfl

theorem photoWeight_setData (x : UInt32) (name : CString) (id : UInt32) :
    photoWeight x (.photo (setData name id)) = if id = x then 1 else 0 := rfl

theorem photoWeight_photo (x : UInt32) (K : Data) :
    photoWeight x (.photo K) = 0 ∨ K.id = x ∧ photoWeight x (.photo K) = 1 := by
  by_cases hid : K.id = x
  · exact .inr ⟨hid, if_pos hid⟩
  · exact .inl (if_neg hid)

section Run

variable {i : Nat} {p : DataR} {task : Task} {threads : List (DataR × Task)} {e : Effect}

-- A part of a handler that sends no list of photos, at an old peer.
theorem received_apply (hpN : p ≠ N) (hcluster : t.cluster = s.cluster.apply p threads e)
    (hmail : e.mail = []) :
    t.cluster.mail = s.cluster.mail ∧ t.cluster.received x N = s.cluster.received x N := by
  have hsame : t.cluster.mail = s.cluster.mail := by
    rw [hcluster, Cluster.apply, hmail, List.append_nil]
  refine ⟨hsame, ?_⟩
  rw [Cluster.received, Cluster.received, Cluster.mailed, Cluster.mailed, hsame, hcluster,
    held_apply_of_ne x hpN.symm]

theorem progress_move (hp : old p = true) (hpN : p ≠ N) (hs : s.Joining old N stage)
    (ht : t.Joining old N stage) (hpick : pick s.cluster.threads i = some ((p, task), threads))
    (hcluster : t.cluster = s.cluster.apply p threads e) (htask : task.Uploads old N)
    (hlock : ∀ news, task ≠ .lockPeers news) (hmail : e.mail = [])
    (hnew : task.asksId = true → s.cluster.held (s.cluster.photo_id + 1) p = 0 ∧
      s.cluster.adds (s.cluster.photo_id + 1) p = 0)
    (hmove : Move s.cluster.photo_id p (s.cluster.replica p) task e) : Progress x N old s t := by
  obtain ⟨hmails, hreceived⟩ := received_apply (x := x) hpN hcluster hmail
  have hserved : t.served N = s.served N := by rw [served_eq hs, served_eq ht, hmails]
  have hpending : ∀ u w q, t.cluster.pending u w q + task.pending u w q p =
      s.cluster.pending u w q + e.pending u w q p := fun u w q => by
    rw [hcluster]
    exact pending_apply u w q e hpick
  have hheld : e.replica.ids = (s.cluster.replica p).ids →
      ∀ q, t.cluster.held x q = s.cluster.held x q := fun hids q => by
    rw [hcluster]
    exact held_apply_same x hids q
  cases hmove with
  | pass hphotos hid hpass =>
      refine progress_same hs ht (hheld (congrArg (List.map Data.id) hphotos)) (fun u w q => ?_) hmails rfl
      have := hpending u w q
      rw [hpass u w q (fun news h => absurd h (hlock news))] at this
      omega
  | refuse name size bytes htask hphotos hzero hid hnext hsent =>
      refine progress_same hs ht (hheld (congrArg (List.map Data.id) hphotos)) (fun u w q => ?_) hmails rfl
      have := hpending u w q
      simpa only [htask, Task.pending, Effect.pending, hsent, hnext, total_nil, Option.elim,
        Nat.add_zero] using this
  | issue name size bytes htask hphotos hne hid hsent hnext =>
      have hsame := hheld (congrArg (List.map Data.id) hphotos)
      simp only [htask, Task.pending, Effect.pending, hsent, hnext, total_nil, Option.elim,
        Bool.false_eq_true, if_false, Nat.add_zero, Nat.zero_add] at hpending
      have hadds : ∀ q, t.cluster.adds x q =
          s.cluster.adds x q + if s.cluster.photo_id + 1 = x then 1 else 0 := fun q => by
        simpa only [Cluster.adds, ite_self, photoWeight_setData] using
          hpending (photoWeight x) (photoWeight x) q
      have hundecided : t.cluster.undecided x N =
          s.cluster.undecided x N + if s.cluster.photo_id + 1 = x then 1 else 0 := by
        simpa only [Cluster.undecided, if_neg hpN.symm, photoWeight_setData] using
          hpending (photoWeight x) (fun _ => 0) N
      have hbound : t.cluster.bound x N = s.cluster.bound x N := by
        simpa only [Cluster.bound, if_neg hpN.symm, Nat.add_zero] using
          hpending (fun _ => 0) (photoWeight x) N
      by_cases hx : s.cluster.photo_id + 1 = x
      · obtain ⟨hheld0, hadds0⟩ := hnew (by rw [htask]; rfl)
        rw [hx] at hheld0 hadds0
        rw [if_pos hx] at hundecided
        refine .issued p hp (by omega) (fun q _ => ?_) hundecided hbound hreceived hserved
        rw [hsame, hadds, if_pos hx, Nat.add_assoc]
      · rw [if_neg hx] at hundecided
        refine .same (fun q _ => ?_) hundecided hbound hreceived hserved
        rw [hsame, hadds, if_neg hx, Nat.add_zero]
  | insert K size bytes isPeer htask hphotos hid hsent hnext =>
      have hids : e.replica.ids = K.id :: (s.cluster.replica p).ids := congrArg (List.map Data.id) hphotos
      simp only [htask, Task.pending, Effect.pending, hsent, hnext, total_nil, Option.elim,
        Nat.zero_add] at hpending
      have hself := hpending (photoWeight x) (photoWeight x)
      have hundecided := hpending (photoWeight x) (fun _ => 0) N
      have hbound := hpending (fun _ => 0) (photoWeight x) N
      simp only [hpN.symm, if_false, false_or, ite_self, Nat.add_zero] at hundecided hbound
      refine .same (fun q _ => ?_) (Nat.add_right_cancel hundecided) hbound hreceived hserved
      have hadds := hself q
      rw [Cluster.adds, Cluster.adds, hcluster]
      rw [hcluster] at hadds
      rcases eq_or_ne q p with rfl | hqp
      · rw [held_apply_self, hids, List.count_cons, Cluster.held]
        simp only [if_true, true_or, photoWeight, beq_iff_eq] at hadds ⊢
        omega
      · rw [held_apply_of_ne x hqp]
        simp only [hqp, if_false, false_or] at hadds
        omega
  | remove message isPeer id htask' hscan hphotos hid hsent hnext =>
      rw [htask'] at htask
      exact htask.elim
  | insertKeyword message isPeer id keyword htask' hscan hphotos hid hsent hnext =>
      rw [htask'] at htask
      exact htask.elim
  | overrun message isPeer htask' hpast hid hsent hnext =>
      rw [htask'] at htask
      exact htask.elim
  | dropKeyword message id keyword hscan htask' hphotos hid hsent hnext =>
      rcases htask' with ⟨rfl | rfl | rfl, -⟩ | ⟨aux, -, ⟨rfl, -⟩ | ⟨rfl, -⟩⟩ <;> exact htask.elim

-- The new peer stores a copy that was sent to it.
theorem progress_store (hN : old N = false) (hs : s.Joining old N stage) (ht : t.Joining old N stage)
    (hpick : pick s.cluster.threads i = some ((N, task), threads))
    (hcluster : t.cluster = s.cluster.apply N threads e) (htask : task.Replicates)
    (hon : s.cluster.listening N = true) (hmail : e.mail = [])
    (hmove : Move s.cluster.photo_id N (s.cluster.replica N) task e) : Progress x N old s t := by
  have hmails : t.cluster.mail = s.cluster.mail := by
    rw [hcluster, Cluster.apply, hmail, List.append_nil]
  have hserved : t.served N = s.served N := by rw [served_eq hs, served_eq ht, hmails]
  have hpending : ∀ u w q, t.cluster.pending u w q + task.pending u w q N =
      s.cluster.pending u w q + e.pending u w q N := fun u w q => by
    rw [hcluster]
    exact pending_apply u w q e hpick
  cases hmove with
  | pass hphotos hid hpass =>
      refine progress_same hs ht (fun q => ?_) (fun u w q => ?_) hmails rfl
      · rw [hcluster]
        exact held_apply_same x (congrArg (List.map Data.id) hphotos) q
      · have := hpending u w q
        rw [hpass u w q (fun news h => by rw [h] at htask; exact htask.elim)] at this
        omega
  | insert K size bytes isPeer htask' hphotos hid hsent hnext =>
      have hpeer : isPeer = true := by
        rw [htask'] at htask
        exact htask
      have hids : e.replica.ids = K.id :: (s.cluster.replica N).ids := congrArg (List.map Data.id) hphotos
      simp only [htask', Task.pending, Effect.pending, hsent, hnext, hpeer, total_nil, Option.elim,
        or_true, if_true, Nat.add_zero] at hpending
      have hundecided : t.cluster.undecided x N = s.cluster.undecided x N := by
        simpa only [Cluster.undecided, ite_self, Nat.add_zero] using
          hpending (photoWeight x) (fun _ => 0) N
      have hbound : t.cluster.bound x N + photoWeight x (.photo K) = s.cluster.bound x N := by
        simpa only [Cluster.bound, if_true] using hpending (fun _ => 0) (photoWeight x) N
      have hholds : ∀ q, old q = true → t.cluster.held x q + t.cluster.adds x q =
          s.cluster.held x q + s.cluster.adds x q := fun q hq => by
        have hne : q ≠ N := fun h => by
          rw [h, hN] at hq
          cases hq
        have hadds : t.cluster.adds x q = s.cluster.adds x q := by
          simpa only [Cluster.adds, if_neg hne, Nat.add_zero] using
            hpending (photoWeight x) (photoWeight x) q
        rw [hadds, hcluster, held_apply_of_ne x hne]
      have hreceived : t.cluster.received x N = s.cluster.received x N + photoWeight x (.photo K) := by
        rw [Cluster.received, Cluster.received, Cluster.mailed, Cluster.mailed, hmails, hcluster,
          held_apply_self, hids, List.count_cons, Cluster.held]
        simp only [photoWeight, beq_iff_eq]
        omega
      rcases photoWeight_photo x K with hzero | ⟨-, hone⟩
      · rw [hzero] at hbound hreceived
        exact .same hholds hundecided hbound hreceived hserved
      · rw [hone] at hbound hreceived
        refine .stored ?_ hholds hundecided hbound hreceived hserved
        rw [Network.served, hon, Bool.true_or, Bool.true_or]
  | refuse name size bytes htask' =>
      rw [htask'] at htask
      exact htask.elim
  | issue name size bytes htask' =>
      rw [htask'] at htask
      exact htask.elim
  | remove message isPeer id htask' =>
      rw [htask'] at htask
      exact htask.elim
  | insertKeyword message isPeer id keyword htask' =>
      rw [htask'] at htask
      exact htask.elim
  | overrun message isPeer htask' =>
      rw [htask'] at htask
      exact htask.elim
  | dropKeyword message id keyword hscan htask' =>
      rcases htask' with ⟨rfl | rfl | rfl, -⟩ | ⟨aux, -, ⟨rfl, -⟩ | ⟨rfl, -⟩⟩ <;> exact htask.elim

-- A peer takes its list for the broadcast of a photo.
theorem progress_lock {K : Data} (hp : old p = true) (hpN : p ≠ N) (hs : s.Joining old N stage)
    (ht : t.Joining old N stage)
    (hpick : pick s.cluster.threads i = some ((p, .lockPeers (.photo K)), threads))
    (hcluster : t.cluster = s.cluster.apply p threads e)
    (hrun : runTask s.cluster.listening s.cluster.photo_id (s.cluster.replica p)
      (.lockPeers (.photo K)) = some e)
    (hone : s.served N = true →
      (N ∈ (s.cluster.replica p).peer_list ↔ s.cluster.received K.id N = 0)) :
    Progress x N old s t := by
  have hpending : ∀ u w q, t.cluster.pending u w q + (Task.lockPeers (.photo K)).pending u w q p =
      s.cluster.pending u w q + e.pending u w q p := fun u w q => by
    rw [hcluster]
    exact pending_apply u w q e hpick
  simp only [runTask] at hrun
  split at hrun
  · cases hrun
  case isFalse =>
    obtain rfl := Option.some.inj hrun
    obtain ⟨hmails, hreceived⟩ := received_apply (x := x) hpN hcluster rfl
    have hserved : t.served N = s.served N := by rw [served_eq hs, served_eq ht, hmails]
    obtain ⟨rest, hlist, hcount, -⟩ := hs.uploads.peer_list p hp
    simp only [hlist, List.tail_cons, Task.pending, Effect.pending, total_nil, Option.elim,
      Nat.zero_add] at hpending
    have hundecided : t.cluster.undecided x N + photoWeight x (.photo K) = s.cluster.undecided x N := by
      simpa only [Cluster.undecided, if_neg hpN.symm, Nat.mul_zero, Nat.add_zero] using
        hpending (photoWeight x) (fun _ => 0) N
    have hbound : t.cluster.bound x N =
        s.cluster.bound x N + rest.count N * photoWeight x (.photo K) := by
      simpa only [Cluster.bound, ite_self, Nat.add_zero] using hpending (fun _ => 0) (photoWeight x) N
    have hholds : ∀ q, old q = true → t.cluster.held x q + t.cluster.adds x q =
        s.cluster.held x q + s.cluster.adds x q := fun q hq => by
      have hadds := hpending (photoWeight x) (photoWeight x) q
      rw [hcount q hq] at hadds
      have hheld : t.cluster.held x q = s.cluster.held x q := by
        rw [hcluster]
        exact held_apply_same x rfl q
      rw [hheld, Cluster.adds, Cluster.adds]
      split at hadds <;> omega
    rcases photoWeight_photo x K with hzero | ⟨hid, hweight⟩
    · rw [hzero] at hundecided hbound
      exact .same hholds hundecided hbound hreceived hserved
    · rw [hweight, Nat.mul_one] at hbound
      rw [hweight] at hundecided
      refine .decided (rest.count N) ?_ (fun h => ?_) hholds hundecided hbound hreceived hserved
      · have hregistered := hs.registered p hp
        rw [Cluster.registered, hlist, List.tail_cons] at hregistered
        have : stage.tellings ≤ 1 := by cases stage <;> simp [JoinStage.tellings]
        omega
      · rw [← hid, ← hone h, hlist, List.count_pos_iff, List.mem_cons, or_iff_right hpN.symm]

-- The first peer sends its photos, and has not done so before.
theorem progress_send (hp : old p = true) (hs : s.Joining old N stage)
    (ht : t.Joining old N stage)
    (hpick : pick s.cluster.threads i = some ((p, .sendAllPhotos N), threads))
    (hcluster : t.cluster = s.cluster.apply p threads e)
    (hrun : runTask s.cluster.listening s.cluster.photo_id (s.cluster.replica p)
      (.sendAllPhotos N) = some e)
    (hone : s.cluster.undecided x N = 0 → s.cluster.bound x N = s.cluster.adds x p) :
    Progress x N old s t := by
  have hpending : ∀ u w q, t.cluster.pending u w q + (Task.sendAllPhotos N).pending u w q p =
      s.cluster.pending u w q + e.pending u w q p := fun u w q => by
    rw [hcluster]
    exact pending_apply u w q e hpick
  obtain ⟨photos, hphotos, hrun⟩ := Option.bind_eq_some_iff.mp hrun
  obtain ⟨-, hrun⟩ := Option.ite_none_right_eq_some.mp hrun
  obtain rfl := Option.some.inj hrun
  have hids : photos.map (fun b => b.1.id) = (s.cluster.replica p).ids := by
    rw [Replica.ids, ← mapM_files hphotos, List.map_map]
    rfl
  have hheld : ∀ q, t.cluster.held x q = s.cluster.held x q := fun q => by
    rw [hcluster]
    exact held_apply_same x rfl q
  have hmails : t.cluster.mail = s.cluster.mail ++ [(N, photos)] := by
    rw [hcluster]
    rfl
  simp only [Task.pending, Effect.pending, total_nil, Option.elim, Nat.add_zero] at hpending
  refine .sent p hp ?_ hone (fun q _ => ?_) (hpending _ _ _) (hpending _ _ _) ?_ ?_
  · have hasking := hs.asking
    have htoken := total_pick (fun a : DataR × Task => a.2.asksPhotos) hpick
    have hthis : (Task.sendAllPhotos N).asksPhotos = 1 := rfl
    rw [Cluster.asking, Cluster.tokens, htoken, hthis] at hasking
    rw [served_eq hs]
    cases stage with
    | waiting rest =>
        have hnone : s.cluster.mail.length = 0 := by
          simp only [JoinStage.waits] at hasking
          omega
        rw [List.length_eq_zero_iff.mp hnone]
        rfl
    | _ =>
        simp only [JoinStage.waits] at hasking
        omega
  · rw [hheld, Cluster.adds, Cluster.adds, hpending]
  · rw [Cluster.received, Cluster.received, hheld, Cluster.mailed, Cluster.mailed, hmails, total_append,
      total_cons, total_nil, if_pos rfl, hids, Cluster.held, Cluster.held]
    omega
  · rw [served_eq ht, hmails]
    simp

theorem progress_run (hN : old N = false) (hs : s.Joining old N stage) (ht : t.Joining old N stage)
    (hclean : s.CleanJoin N (.cluster (.run i))) (h : s.cluster.step (.run i) = some t.cluster) :
    Progress x N old s t := by
  obtain ⟨⟨⟨p, task⟩, threads⟩, hpick, h⟩ := Option.bind_eq_some_iff.mp h
  obtain ⟨e, hrun, h⟩ := Option.bind_eq_some_iff.mp h
  have hcluster : t.cluster = s.cluster.apply p threads e := (Option.some.inj h).symm
  have hprobe := hclean.listening _ (pick_get hpick)
  have hmove := runTask_move s.cluster.listening s.cluster.photo_id p (s.cluster.replica p) hrun
    (fun news K rest hbroadcast => hprobe K (by rw [hbroadcast]; rfl))
  rcases hs.uploads.threads p task (pick_mem hpick) with ⟨hp, htask⟩ | ⟨rfl, hon, htask⟩
  · have hpN : p ≠ N := fun h => by
      rw [h, hN] at hp
      cases hp
    obtain ⟨rest, hlist, -, hmem⟩ := hs.uploads.peer_list p hp
    have he := runTask_uploads hrun htask (by rw [hlist]; exact hmem) hprobe
    have hone := hclean.oneWay _ (pick_get hpick)
    cases task with
    | sendAllPhotos asker =>
        obtain rfl : asker = N := htask
        exact progress_send hp hs ht hpick hcluster hrun (hone.1 rfl x)
    | lockPeers news =>
        obtain ⟨K, rfl⟩ := htask
        exact progress_lock hp hpN hs ht hpick hcluster hrun (hone.2 K rfl)
    | _ =>
        have hmail : e.mail = [] := by
          rcases he.mail with hmail | ⟨htask, -⟩
          · exact hmail
          · cases htask
        exact progress_move hp hpN hs ht hpick hcluster htask (fun _ h => by cases h) hmail
          (hclean.newId _ (pick_get hpick)) hmove
  · exact progress_store hN hs ht hpick hcluster htask hon (runTask_replicates hrun htask).1.mail hmove

end Run

theorem progress_step {a : NetworkAction} {p : DataR} (hp : old p = true) (hN : old N = false)
    (hs : s.Joining old N stage) (ht : t.Joining old N stage') (hclean : s.CleanJoin N a)
    (hmove : JoinMove N s t a stage stage') : Progress x N old s t := by
  cases hmove with
  | cluster b ha h =>
      rw [ha] at hclean
      cases b with
      | call q request =>
          obtain ⟨hreplica, hmail⟩ := call_frame h
          exact progress_same hs ht (fun q => by rw [Cluster.held, hreplica, Cluster.held])
            (fun u w q => pending_call u w q h) hmail rfl
      | run i => exact progress_run hN hs ht hclean h
      | deliver i =>
          obtain ⟨hreplica, hmail⟩ := deliver_frame h
          exact progress_same hs ht (fun q => by rw [Cluster.held, hreplica, Cluster.held])
            (fun u w q => pending_deliver u w q h) hmail rfl
  | gateway hcluster hphotos =>
      exact progress_same hs ht (fun _ => by rw [hcluster]) (fun _ _ _ => by rw [hcluster])
        (by rw [hcluster]) hphotos
  | asked l peer_list hcluster =>
      refine progress_same hs ht (fun q => ?_) (fun _ _ _ => by rw [hcluster]; rfl) (by rw [hcluster]; rfl) rfl
      rw [hcluster, Cluster.held, Cluster.held]
      rcases eq_or_ne q N with rfl | hqN
      · simp [Cluster.setReplica, Replica.setPeerList, Replica.ids]
      · simp [Cluster.setReplica, Function.update_of_ne hqN]
  | first k rest hcluster =>
      exact progress_same hs ht (fun _ => by rw [hcluster]; rfl)
        (fun u w q => by rw [hcluster, pending_newPeer]) (by rw [hcluster]; rfl) rfl
  | photos rest j K photos mail peer hpick hpeer hcluster =>
      exact progress_photos hN hs ht hpick hpeer hcluster
  | next k rest hcluster =>
      exact progress_same hs ht (fun _ => by rw [hcluster]; rfl)
        (fun u w q => by rw [hcluster, pending_newPeer]) (by rw [hcluster]; rfl) rfl
  | listen hstage hcluster =>
      rcases hstage with rfl | rfl
      · exact absurd ((hs.gateway.1.2 p).mpr hp) List.not_mem_nil
      · exact progress_same hs ht (fun _ => by rw [hcluster]; rfl) (fun _ _ _ => by rw [hcluster]; rfl)
          (by rw [hcluster]; rfl) rfl

end Accounts

section Arrival

-- Peers that have joined, hold the same photos and are at rest, and a new process.
structure Network.Ready (N : DataR) (s : Network) : Prop where
  synced : s.cluster.Synced
  distinct : ∀ p, s.cluster.listening p = true → (s.cluster.replica p).ids.Nodup
  mail : s.cluster.mail = []
  reports : s.cluster.reports = []
  gateway : s.gateway.task = .idle
  roster : JoinStage.Roster s.cluster.listening s.gateway.peer_list
  newPeers : s.newPeers = []
  lists : s.lists = []
  joiners : s.joiners = []
  offline : s.cluster.listening N = false
  peer_list : (s.cluster.replica N).peer_list = []
  photo_list : (s.cluster.replica N).peer.photo_list = []

variable {N : DataR} {s t : Network}

theorem ready_joining (hs : s.Ready N) : s.Joining s.cluster.listening N .apart := by
  have hquiet := hs.synced.quiet
  refine ⟨hs.newPeers, hs.lists, hs.joiners, ⟨hs.gateway, hs.roster⟩, hs.peer_list, ?_, ⟨fun p hp => ?_,
    ?_, ?_, ?_, hs.reports⟩, ?_, fun p hp => ?_⟩
  · have hoff : JoinStage.apart.listens = s.cluster.listening N := hs.offline.symm
    rw [hoff, Function.update_eq_self]
  · obtain ⟨rest, hlist, hnodup, hmem⟩ := hs.synced.connected.peer_list p hp
    refine ⟨rest, hlist, fun q hq => ?_, fun q hq => .inl ((hmem q).mp hq).1⟩
    have hcount := hs.synced.connected.tail_count hp hq
    rwa [hlist, List.tail_cons] at hcount
  · rw [hquiet.1]
    exact fun _ _ h => absurd h List.not_mem_nil
  · rw [hquiet.2]
    exact fun _ _ h => absurd h List.not_mem_nil
  · rw [hs.mail]
    exact fun _ h => absurd h List.not_mem_nil
  · simp [Cluster.asking, Cluster.tokens, hquiet.1, hquiet.2, hs.mail, JoinStage.waits]
  · obtain ⟨rest, hlist, -, hmem⟩ := hs.synced.connected.peer_list p hp
    have hnone : N ∉ rest := fun h => by
      have hon := ((hmem N).mp h).1
      rw [hs.offline] at hon
      cases hon
    simp [Cluster.registered, Cluster.registering, Cluster.tokens, hquiet.1, hquiet.2, hlist,
      List.count_eq_zero.mpr hnone, JoinStage.rest]

theorem ready_accounts (hs : s.Ready N) {p : DataR} (hp : s.cluster.listening p = true) (x : UInt32) :
    s.Accounts x N s.cluster.listening (s.cluster.held x p) := by
  have hpending := fun u w q => quiet_pending hs.synced.quiet u w q
  have hreceived : s.cluster.received x N = 0 := by
    simp [Cluster.received, Cluster.held, Replica.ids, hs.photo_list, Cluster.mailed, hs.mail]
  have hserved : s.served N = false := by
    simp [Network.served, hs.offline, hs.joiners, hs.mail]
  refine ⟨List.nodup_iff_count_le_one.mp (hs.distinct p hp) x, fun q hq => ?_, ?_, ?_, fun _ => hreceived,
    fun h => ?_⟩
  · rw [Cluster.adds, hpending, Nat.add_zero]
    exact hs.synced.held x q p hq hp
  · rw [Cluster.undecided, Cluster.bound, hpending, hpending]
    exact Nat.zero_le _
  · rw [hreceived]
    exact Nat.zero_le _
  · rw [hserved] at h
    cases h

-- When the new peer listens and all is done it has each photo of the others once.
theorem newPeer_has_photos_once (N : DataR) (start s : Network) (hstart : start.Ready N)
    (hrun : Reaches Network.step (Network.CleanJoin N) start s) (hquiet : s.cluster.Quiet)
    (hjoined : s.cluster.listening N = true) (p : DataR) (hp : s.cluster.listening p = true)
    (hpN : p ≠ N) (x : UInt32) (hx : x ∈ (s.cluster.replica p).ids) :
    (s.cluster.replica N).ids.count x = 1 := by
  have hN : start.cluster.listening N = false := hstart.offline
  obtain ⟨stage, hs, haccounts⟩ : ∃ stage, s.Joining start.cluster.listening N stage ∧
      ∀ p, start.cluster.listening p = true → ∃ n, s.Accounts x N start.cluster.listening n := by
    refine hrun.invariant (I := fun s => ∃ stage, s.Joining start.cluster.listening N stage ∧
      ∀ p, start.cluster.listening p = true → ∃ n, s.Accounts x N start.cluster.listening n)
      ⟨.apart, ready_joining hstart, fun p hp => ⟨_, ready_accounts hstart hp x⟩⟩
      (fun s a t hs hclean h => ?_)
    obtain ⟨stage, hs, haccounts⟩ := hs
    obtain ⟨stage', hmove, ht⟩ := joining_step hN hs hclean.oneJoin hclean.listening h
    refine ⟨stage', ht, fun p hp => ?_⟩
    obtain ⟨n, hn⟩ := haccounts p hp
    exact accounts_progress hn (progress_step hp hN hs ht hclean hmove)
  have hold : start.cluster.listening p = true := by
    rwa [hs.listening, Function.update_of_ne hpN] at hp
  obtain ⟨n, hn⟩ := haccounts p hold
  have hdone : stage = .listening := by
    rw [hs.listening, Function.update_self] at hjoined
    cases stage <;> first | rfl | cases hjoined
  have hpending := fun u w q => quiet_pending hquiet u w q
  have hmailed : s.cluster.mailed x N = 0 := by
    have hasking := hs.asking
    rw [hdone, Cluster.asking] at hasking
    have hnone : s.cluster.mail.length = 0 := by
      simp only [JoinStage.waits] at hasking
      omega
    rw [Cluster.mailed, List.length_eq_zero_iff.mp hnone, total_nil]
  have hnew : s.cluster.held x N = n := by
    have hafter := hn.after (by rw [served_eq hs, hdone]; rfl) (hpending _ _ _)
    rwa [Cluster.received, hmailed, Cluster.bound, hpending] at hafter
  have hheld : s.cluster.held x p = n := by
    have holds := hn.olds p hold
    rwa [Cluster.adds, hpending] at holds
  have hpos : 0 < s.cluster.held x p := List.count_pos_iff.mpr hx
  have hle := hn.le_one
  change s.cluster.held x N = 1
  omega

-- The photos on their way, wherever to.
def Task.photoId : Task → Option UInt32
  | .insertPhoto K _ _ _ => some K.id
  | .writePhoto K _ _ _ => some K.id
  | .lockPeers (.photo K) => some K.id
  | .broadcast (.photo K) _ => some K.id
  | _ => none

def Packet.photoId : Packet → Option UInt32
  | .photo K _ => some K.id
  | _ => none

def Cluster.underWay (s : Cluster) : List UInt32 :=
  s.packets.filterMap (fun a => a.2.photoId) ++ s.threads.filterMap (fun a => a.2.photoId)

theorem pending_eq_zero {c : Cluster} {x : UInt32} {u w : News → Nat} (hx : x ∉ c.underWay)
    (hu : ∀ news, photoWeight x news = 0 → u news = 0)
    (hw : ∀ news, photoWeight x news = 0 → w news = 0) (q : DataR) : c.pending u w q = 0 := by
  have hphoto : ∀ K : Data, some K.id ≠ some x → photoWeight x (.photo K) = 0 := fun K hK =>
    if_neg (fun h => hK (congrArg some h))
  have htask : ∀ p task, Task.photoId task ≠ some x → task.pending u w q p = 0 := fun p task h => by
    cases task with
    | insertPhoto K size bytes isPeer =>
        simp [Task.pending, hu _ (hphoto K h), hw _ (hphoto K h)]
    | writePhoto K size bytes isPeer => simp [Task.pending, hu _ (hphoto K h)]
    | lockPeers news =>
        cases news with
        | photo K => simp [Task.pending, hu _ (hphoto K h)]
        | keyword message => simp [Task.pending, hu (.keyword message) rfl]
        | delete message => simp [Task.pending, hu (.delete message) rfl]
    | broadcast news rest =>
        cases news with
        | photo K => simp [Task.pending, hw _ (hphoto K h)]
        | keyword message => simp [Task.pending, hw (.keyword message) rfl]
        | delete message => simp [Task.pending, hw (.delete message) rfl]
    | answerKeyword message success => simp [Task.pending, hu (.keyword message) rfl]
    | answerDelete message found => simp [Task.pending, hu (.delete message) rfl]
    | unlinkPhoto message isPeer => simp [Task.pending, hu (.delete message) rfl]
    | removePhoto message isPeer => simp [Task.pending, hw (.delete message) rfl]
    | findPhoto message isPeer => simp [Task.pending, hw (.keyword message) rfl]
    | checkFull message isPeer => simp [Task.pending, hw (.keyword message) rfl]
    | searchKeyword message isPeer => simp [Task.pending, hw (.keyword message) rfl]
    | insertKeyword message isPeer => simp [Task.pending, hw (.keyword message) rfl]
    | _ => rfl
  have hpacket : ∀ packet, Packet.photoId packet ≠ some x → packet.weight w = 0 := fun packet h => by
    cases packet with
    | photo K bytes => exact hw _ (hphoto K h)
    | keyword message => exact hw (.keyword message) rfl
    | delete message => exact hw (.delete message) rfl
    | _ => rfl
  simp only [Cluster.underWay, List.mem_append, List.mem_filterMap, not_or, not_exists, not_and] at hx
  rw [Cluster.pending, total_eq_zero, total_eq_zero]
  · exact fun a ha => htask a.1 a.2 (hx.2 a ha)
  · intro a ha
    rw [packetPending, hpacket a.2 (hx.1 a ha), ite_self]

theorem inStep_iff {c : Cluster} {f : DataR} :
    c.InStep N f ↔ ∀ x ∈ c.underWay, c.undecided x N = 0 → c.bound x N = c.adds x f := by
  refine ⟨fun h x _ => h x, fun h x hnone => ?_⟩
  by_cases hx : x ∈ c.underWay
  · exact h x hx hnone
  · rw [Cluster.bound, Cluster.adds, pending_eq_zero hx (fun _ _ => rfl) (fun _ h => h),
      pending_eq_zero hx (fun _ h => h) (fun _ h => h)]

instance (c : Cluster) (f : DataR) : Decidable (c.InStep N f) :=
  have : Decidable (∀ x ∈ c.underWay, c.undecided x N = 0 → c.bound x N = c.adds x f) :=
    List.decidableBAll _ _
  decidable_of_iff _ inStep_iff.symm

instance (a : ClusterAction) : Decidable (a.Uploads N) :=
  match a with
  | .call p request => inferInstanceAs (Decidable (p ≠ N ∧ request.addsPhoto = true))
  | .run _ => isTrue trivial
  | .deliver _ => isTrue trivial

instance (s : Network) (a : NetworkAction) : Decidable (s.OneJoin N a) :=
  match a with
  | .cluster a => inferInstanceAs (Decidable (a.Uploads N))
  | .start K => inferInstanceAs (Decidable (K = N))
  | .assign => inferInstanceAs (Decidable (s.gateway.task.added = false))
  | .join _ _ => isTrue trivial
  | .register _ => isTrue trivial
  | .report _ => isTrue trivial
  | .gateway => isTrue trivial

instance (s : Network) (a : NetworkAction) : Decidable (s.NewId a) :=
  match a with
  | .cluster (.run i) => inferInstanceAs (Decidable (∀ a ∈ s.cluster.threads[i]?, a.2.asksId = true →
      s.cluster.held (s.cluster.photo_id + 1) a.1 = 0 ∧
        s.cluster.adds (s.cluster.photo_id + 1) a.1 = 0))
  | .cluster (.call _ _) => isTrue trivial
  | .cluster (.deliver _) => isTrue trivial
  | .start _ => isTrue trivial
  | .join _ _ => isTrue trivial
  | .register _ => isTrue trivial
  | .report _ => isTrue trivial
  | .gateway => isTrue trivial
  | .assign => isTrue trivial

instance (s : Network) (a : NetworkAction) : Decidable (s.OneWay N a) :=
  match a with
  | .cluster (.run i) => inferInstanceAs (Decidable (∀ a ∈ s.cluster.threads[i]?,
      (a.2.sendsPhotos = true → s.cluster.InStep N a.1) ∧
      ∀ K ∈ a.2.takesList, s.served N = true →
        (N ∈ (s.cluster.replica a.1).peer_list ↔ s.cluster.received K.id N = 0)))
  | .cluster (.call _ _) => isTrue trivial
  | .cluster (.deliver _) => isTrue trivial
  | .start _ => isTrue trivial
  | .join _ _ => isTrue trivial
  | .register _ => isTrue trivial
  | .report _ => isTrue trivial
  | .gateway => isTrue trivial
  | .assign => isTrue trivial

theorem cleanJoin_iff {a : NetworkAction} :
    s.CleanJoin N a ↔ s.OneJoin N a ∧ s.ProbesListening a ∧ s.NewId a ∧ s.OneWay N a :=
  ⟨fun h => ⟨h.oneJoin, h.listening, h.newId, h.oneWay⟩, fun h => ⟨h.1, h.2.1, h.2.2.1, h.2.2.2⟩⟩

instance (s : Network) (a : NetworkAction) : Decidable (s.CleanJoin N a) :=
  decidable_of_iff _ cleanJoin_iff.symm

-- Peers that have joined, with their photos, and processes that have not.
def Network.joined (peers : List DataR) (peer : Peer) (photo_id : UInt32) : Network where
  cluster :=
    { Cluster.among peers peer photo_id with
      replica := fun p =>
        if p ∈ peers then ⟨peer, p :: peers.erase p, false, untouched p⟩
        else ⟨⟨[], fun _ => none⟩, [], false, untouched p⟩ }
  gateway := ⟨peers, false, .idle⟩
  newPeers := []
  lists := []
  joiners := []

theorem joined_ready {peers : List DataR} {peer : Peer} (hpeers : peers.Nodup) (hN : N ∉ peers)
    (hids : (peer.photo_list.map Data.id).Nodup) (photo_id : UInt32) :
    (Network.joined peers peer photo_id).Ready N := by
  have hreplica : ∀ p, (Network.joined peers peer photo_id).cluster.listening p = true →
      (Network.joined peers peer photo_id).cluster.replica p =
        (Cluster.among peers peer photo_id).replica p := fun p hp => if_pos (of_decide_eq_true hp)
  have hnew : (Network.joined peers peer photo_id).cluster.replica N =
      ⟨⟨[], fun _ => none⟩, [], false, untouched N⟩ := if_neg hN
  have hamong := among_connected hpeers peer photo_id
  refine ⟨⟨⟨fun p hp => ?_, hamong.threads, hamong.packets⟩, ⟨rfl, rfl⟩, fun x p q hp hq => ?_⟩,
    fun p hp => ?_, rfl, rfl, rfl, ⟨hpeers, fun q => (decide_eq_true_iff).symm⟩, rfl, rfl, rfl,
    decide_eq_false hN, by rw [hnew], by rw [hnew]⟩
  · rw [hreplica p hp]
    exact hamong.peer_list p hp
  · rw [Cluster.held, Cluster.held, hreplica p hp, hreplica q hq]
    rfl
  · rw [hreplica p hp]
    exact hids

-- Two peers with one photo, and a third one that joins.
def twoPeers : Network :=
  .joined [localPeer 3001, localPeer 3002]
    ⟨[setData [112] 1], fun name => if name = [49] then some [7] else none⟩ 1

theorem twoPeers_ready : twoPeers.Ready (localPeer 3003) :=
  joined_ready (by decide) (by decide) (by decide) 1

-- The new peer is registered by the gateway and asks the first peer for its photos.
def request : List NetworkAction :=
  .start (localPeer 3003) :: .register 0 :: List.replicate 5 .gateway ++ [.join 0 0, .join 0 0]

-- The second peer's upload reaches the first one after it has sent its photos.
def lateUpload : List NetworkAction :=
  uploadAt (localPeer 3002) 0 6 ++ request ++
    [.cluster (.deliver 1), .cluster (.run 0), .cluster (.run 0), .join 0 0, .join 0 0,
      .cluster (.deliver 1), .cluster (.run 0), .join 0 0, .cluster (.deliver 0), .cluster (.run 0),
      .cluster (.run 0)]

-- The first peer sends a photo, and then broadcasts it.
def doubleUpload : List NetworkAction :=
  uploadAt (localPeer 3001) 0 3 ++ request ++
    [.cluster (.deliver 0), .cluster (.run 1), .cluster (.run 1), .join 0 0, .join 0 0,
      .cluster (.deliver 0), .cluster (.run 1), .join 0 0] ++ List.replicate 4 (.cluster (.run 0)) ++
    [.cluster (.deliver 0), .cluster (.run 0), .cluster (.run 0), .cluster (.deliver 0),
      .cluster (.run 0), .cluster (.run 0)]

theorem newPeer_misses_or_doubles :
    twoPeers.Ready (localPeer 3003) ∧
      (∃ s, execute Network.step
          (fun s a => s.OneJoin (localPeer 3003) a ∧ s.ProbesListening a ∧ s.NewId a)
          twoPeers lateUpload = some s ∧
        s.cluster.outcome threePorts Replica.ids =
          ⟨0, 0, [true, true, true], [[2, 1], [2, 1], [1]], [.id 2]⟩) ∧
      ∃ s, execute Network.step
          (fun s a => s.OneJoin (localPeer 3003) a ∧ s.ProbesListening a ∧ s.NewId a)
          twoPeers doubleUpload = some s ∧
        s.cluster.outcome threePorts Replica.ids =
          ⟨0, 0, [true, true, true], [[2, 1], [2, 1], [2, 1, 2]], [.id 2]⟩ :=
  ⟨twoPeers_ready, Option.map_eq_some_iff.mp (by decide +kernel),
    Option.map_eq_some_iff.mp (by decide +kernel)⟩

-- One upload ends before the join, another one waits for the new peer to listen.
def twoUploads : List NetworkAction :=
  uploadAt (localPeer 3002) 0 6 ++ [.cluster (.deliver 0), .cluster (.run 0), .cluster (.run 0)] ++
    request ++ uploadAt (localPeer 3002) 0 3 ++
    [.cluster (.deliver 0), .cluster (.run 1), .cluster (.run 1), .join 0 0, .join 0 0,
      .cluster (.deliver 0), .cluster (.run 1), .join 0 0] ++ List.replicate 4 (.cluster (.run 0)) ++
    [.cluster (.deliver 0), .cluster (.run 0), .cluster (.run 0), .cluster (.deliver 0),
      .cluster (.run 0), .cluster (.run 0)]

theorem newPeer_has_photos_once_twoUploads :
    ∃ s, execute Network.step (Network.CleanJoin (localPeer 3003)) twoPeers twoUploads = some s ∧
      s.cluster.outcome threePorts Replica.ids =
        ⟨0, 0, [true, true, true], [[3, 2, 1], [3, 2, 1], [3, 1, 2]], [.id 2, .id 3]⟩ ∧
      ∀ x ∈ (s.cluster.replica (localPeer 3001)).ids,
        (s.cluster.replica (localPeer 3003)).ids.count x = 1 := by
  obtain ⟨s, hs, hend⟩ : ∃ s,
      execute Network.step (Network.CleanJoin (localPeer 3003)) twoPeers twoUploads = some s ∧
        s.cluster.outcome threePorts Replica.ids =
          ⟨0, 0, [true, true, true], [[3, 2, 1], [3, 2, 1], [3, 1, 2]], [.id 2, .id 3]⟩ :=
    Option.map_eq_some_iff.mp (by decide +kernel)
  obtain ⟨hquiet, hlistening⟩ := outcome_quiet hend
  simp only [threePorts, List.map_cons, List.map_nil, List.cons.injEq] at hlistening
  exact ⟨s, hs, hend, newPeer_has_photos_once (localPeer 3003) twoPeers s twoPeers_ready
    (reaches_of_execute twoUploads hs) hquiet hlistening.2.2.1 (localPeer 3001) hlistening.1 (by decide)⟩

end Arrival

end Gallery
