import Gallery.Cluster.Moves

namespace Gallery

section Balance

variable (x : UInt32) (q : DataR)

def photoWeight : News → Nat
  | .photo K => if K.id = x then 1 else 0
  | _ => 0

def deleteWeight : News → Nat
  | .delete message => if sscanfId message = some x then 1 else 0
  | _ => 0

variable (s : Cluster)

-- How often the peer `q` holds the photo `x`, how often it will still insert it, and
-- how often it will still remove it because another peer did.
def Cluster.held : Nat := (s.replica q).ids.count x

def Cluster.adds : Nat := s.pending (photoWeight x) (photoWeight x) q

def Cluster.dels : Nat := s.pending (deleteWeight x) (deleteWeight x) q

-- All peers are bound for the same number of photos `x`.
def Cluster.Balanced : Prop :=
  ∃ n, ∀ q, s.listening q = true → s.held x q + s.adds x q - s.dels x q = n

end Balance

section Convergence

variable {s t : Cluster}

theorem count_listRemove (photos : List Data) (id x : UInt32) :
    ((listRemove photos (setData [] id)).2.map Data.id).count x =
      if x = id then (photos.map Data.id).count x - 1 else (photos.map Data.id).count x := by
  induction photos with
  | nil => simp [listRemove]
  | cons first rest ih =>
      rw [listRemove]
      by_cases hfirst : first.id = id
      · have heq : equalData first (setData [] id) = true := (equalData_iff _ _).mpr hfirst
        rw [if_pos heq, List.map_cons, List.count_cons]
        by_cases hx : x = id
        · simp [hx, hfirst]
        · have hne : first.id ≠ x := fun h => hx (h.symm.trans hfirst)
          simp [hx, hne]
      · have heq : ¬equalData first (setData [] id) = true := fun h => hfirst ((equalData_iff _ _).mp h)
        rw [if_neg heq]
        simp only [List.map_cons, List.count_cons, ih]
        by_cases hx : x = id
        · have hne : first.id ≠ x := fun h => hfirst (h.trans hx)
          simp [hx, hfirst]
        · simp [hx]

theorem held_apply_self (x : UInt32) {p : DataR} {threads : List (DataR × Task)} {e : Effect} :
    (s.apply p threads e).held x p = e.replica.ids.count x := by
  rw [Cluster.held, apply_replica_self]

theorem held_apply_of_ne (x : UInt32) {p q : DataR} {threads : List (DataR × Task)} {e : Effect}
    (h : q ≠ p) : (s.apply p threads e).held x q = s.held x q := by
  rw [Cluster.held, apply_replica_of_ne h, Cluster.held]

theorem held_apply_same (x : UInt32) {p : DataR} {threads : List (DataR × Task)} {e : Effect}
    (hids : e.replica.ids = (s.replica p).ids) (q : DataR) :
    (s.apply p threads e).held x q = s.held x q := by
  by_cases hq : q = p
  · rw [hq, held_apply_self, hids, Cluster.held]
  · exact held_apply_of_ne x hq

-- What one step does to the photo `x`: nothing, an upload, a client's removal, or a
-- removal that follows one at another peer.
inductive Drift (s t : Cluster) (a : ClusterAction) (x : UInt32) : Prop
  | same (h : ∀ q, s.listening q = true →
      t.held x q + t.adds x q = s.held x q + s.adds x q ∧ t.dels x q = s.dels x q)
  | issued (i : Nat) (p : DataR) (name : CString) (size : Nat) (bytes : List Byte) (ha : a = .run i)
      (hthread : s.threads[i]? = some (p, .askId name size bytes))
      (hx : s.photo_id + 1 = x) (hid : t.photo_id = x)
      (h : ∀ q, s.listening q = true →
        t.held x q = s.held x q ∧ t.adds x q = s.adds x q + 1 ∧ t.dels x q = s.dels x q)
  | removed (p : DataR) (hp : s.listening p = true) (hheld : t.held x p + 1 = s.held x p)
      (hadds : ∀ q, s.listening q = true → t.adds x q = s.adds x q) (hdels : t.dels x p = s.dels x p)
      (hothers : ∀ q, s.listening q = true → q ≠ p →
        t.held x q = s.held x q ∧ t.dels x q = s.dels x q + 1)
  | followed (i : Nat) (p : DataR) (message : CString) (ha : a = .run i)
      (hthread : s.threads[i]? = some (p, .removePhoto message true))
      (hscan : sscanfId message = some x) (hheld : t.held x p = s.held x p - 1)
      (hadds : ∀ q, s.listening q = true → t.adds x q = s.adds x q)
      (hdels : t.dels x p + 1 = s.dels x p)
      (hothers : ∀ q, s.listening q = true → q ≠ p →
        t.held x q = s.held x q ∧ t.dels x q = s.dels x q)

theorem drift_run {i : Nat} (hs : s.Connected) (hin : s.InTable (.run i))
    (h : s.step (.run i) = some t) (x : UInt32) : Drift s t (.run i) x := by
  obtain ⟨⟨⟨p, task⟩, threads⟩, hpick, h⟩ := Option.bind_eq_some_iff.mp h
  obtain ⟨e, hrun, h⟩ := Option.bind_eq_some_iff.mp h
  obtain rfl := Option.some.inj h
  obtain ⟨hp, htask⟩ := hs.threads p task (pick_mem hpick)
  have hthread : s.threads[i]? = some (p, task) := pick_get hpick
  have hadds : ∀ q, (s.apply p threads e).adds x q + task.pending (photoWeight x) (photoWeight x) q p =
      s.adds x q + e.pending (photoWeight x) (photoWeight x) q p :=
    fun q => pending_apply _ _ q e hpick
  have hdels : ∀ q, (s.apply p threads e).dels x q + task.pending (deleteWeight x) (deleteWeight x) q p =
      s.dels x q + e.pending (deleteWeight x) (deleteWeight x) q p :=
    fun q => pending_apply _ _ q e hpick
  have hmove := runTask_move s.listening s.photo_id p (s.replica p) hrun (by
    intro news K rest hbroadcast
    rw [hbroadcast] at htask
    exact htask K List.mem_cons_self)
  cases hmove with
  | pass hphotos hid hpending =>
      have hheld : ∀ q, (s.apply p threads e).held x q = s.held x q :=
        held_apply_same x (congrArg (List.map Data.id) hphotos)
      refine .same (fun q hq => ⟨?_, ?_⟩)
      · have := hadds q
        rw [hpending _ _ q (takesList hs hp hq _ task)] at this
        have := hheld q
        omega
      · have := hdels q
        rw [hpending _ _ q (takesList hs hp hq _ task)] at this
        omega
  | refuse name size bytes htask hphotos hzero hid hnext hsent =>
      have hheld : ∀ q, (s.apply p threads e).held x q = s.held x q :=
        held_apply_same x (congrArg (List.map Data.id) hphotos)
      simp only [htask, Task.pending, Effect.pending, hsent, hnext, total_nil, Option.elim,
        Nat.add_zero] at hadds hdels
      exact .same (fun q hq => ⟨by rw [hheld, hadds], hdels q⟩)
  | issue name size bytes htask hphotos hne hid hsent hnext =>
      have hheld : ∀ q, (s.apply p threads e).held x q = s.held x q :=
        held_apply_same x (congrArg (List.map Data.id) hphotos)
      simp only [htask, Task.pending, Effect.pending, hsent, hnext, total_nil, Option.elim,
        Bool.false_eq_true, if_false, ite_self, photoWeight, deleteWeight, setData,
        Nat.add_zero, Nat.zero_add] at hadds hdels
      by_cases hx : s.photo_id + 1 = x
      · rw [htask] at hthread
        refine .issued i p name size bytes rfl hthread hx (hid.trans hx) (fun q hq => ?_)
        rw [hheld, hadds, hdels, if_pos hx]
        exact ⟨rfl, rfl, rfl⟩
      · refine .same (fun q hq => ?_)
        rw [hheld, hadds, hdels, if_neg hx]
        exact ⟨rfl, rfl⟩
  | insert K size bytes isPeer htask hphotos hid hsent hnext =>
      have hids : e.replica.ids = K.id :: (s.replica p).ids := congrArg (List.map Data.id) hphotos
      simp only [htask, Task.pending, Effect.pending, hsent, hnext, total_nil, Option.elim,
        photoWeight, deleteWeight, ite_self, Nat.add_zero, Nat.zero_add] at hadds hdels
      refine .same (fun q hq => ⟨?_, hdels q⟩)
      have := hadds q
      rcases eq_or_ne q p with rfl | hqp
      · rw [held_apply_self, hids, List.count_cons, Cluster.held]
        simp only [if_true, true_or, beq_iff_eq] at this ⊢
        omega
      · rw [held_apply_of_ne x hqp]
        simp only [hqp, if_false, false_or] at this
        omega
  | remove message isPeer id htask hscan hphotos hid hsent hnext =>
      have hids : e.replica.ids.count x =
          if x = id then (s.replica p).ids.count x - 1 else (s.replica p).ids.count x := by
        rw [Replica.ids, hphotos]
        exact count_listRemove _ _ _
      have hscanx : sscanfId message = some x ↔ x = id := by
        rw [hscan]
        exact ⟨fun h => (Option.some.inj h).symm, fun h => h ▸ rfl⟩
      cases isPeer with
      | true =>
          have hdone : ∀ w q, e.pending w w q p = 0 := by
            intro w q
            by_cases hmem : id ∈ (s.replica p).ids <;>
              simp [Effect.pending, hsent, hnext, hmem, Task.pending, deleteDone]
          simp only [htask, hdone, Task.pending, photoWeight, deleteWeight, hscanx, ite_self,
            and_true, Nat.add_zero] at hadds hdels
          by_cases hx : x = id
          · rw [if_pos hx] at hids
            rw [htask] at hthread
            have hself := hdels p
            rw [if_pos rfl, if_pos hx] at hself
            refine .followed i p message rfl hthread (hscanx.mpr hx) (by rw [held_apply_self, hids]; rfl)
              (fun q _ => hadds q) hself (fun q hq hqp => ⟨held_apply_of_ne x hqp, ?_⟩)
            have := hdels q
            rwa [if_neg hqp] at this
          · rw [if_neg hx] at hids
            simp only [hx, if_false, ite_self, Nat.add_zero] at hdels
            refine .same (fun q hq => ⟨?_, hdels q⟩)
            rw [hadds]
            rcases eq_or_ne q p with rfl | hqp
            · rw [held_apply_self, hids, Cluster.held]
            · rw [held_apply_of_ne x hqp]
      | false =>
          have hdone : ∀ w q, e.pending w w q p =
              if id ∈ (s.replica p).ids ∧ q ≠ p then w (.delete message) else 0 := by
            intro w q
            by_cases hmem : id ∈ (s.replica p).ids <;> by_cases hqp : q = p <;>
              simp [Effect.pending, hsent, hnext, hmem, hqp, Task.pending, deleteDone]
          simp only [htask, hdone, Task.pending, photoWeight, deleteWeight, hscanx, ite_self,
            Bool.false_eq_true, and_false, if_false, Nat.add_zero] at hadds hdels
          by_cases hx : x = id ∧ id ∈ (s.replica p).ids
          · have hpos := List.count_pos_iff.mpr hx.2
            rw [if_pos hx.1] at hids
            have hself := hdels p
            rw [if_neg (fun h => h.2 rfl), Nat.add_zero] at hself
            refine .removed p hp ?_ (fun q _ => hadds q) hself
              (fun q hq hqp => ⟨held_apply_of_ne x hqp, ?_⟩)
            · rw [held_apply_self, hids, Cluster.held, hx.1]
              omega
            · rw [hdels, if_pos ⟨hx.2, hqp⟩, if_pos hx.1]
          · have hgone : e.replica.ids.count x = (s.replica p).ids.count x := by
              rw [hids]
              split
              case isTrue hxid =>
                have hnot : x ∉ (s.replica p).ids := fun h => hx ⟨hxid, hxid ▸ h⟩
                rw [List.count_eq_zero.mpr hnot]
              case isFalse => rfl
            refine .same (fun q hq => ⟨?_, ?_⟩)
            · rw [hadds]
              rcases eq_or_ne q p with rfl | hqp
              · rw [held_apply_self, hgone, Cluster.held]
              · rw [held_apply_of_ne x hqp]
            · rw [hdels]
              split
              case isTrue h => rw [if_neg (fun hxid => hx ⟨hxid, h.1⟩), Nat.add_zero]
              case isFalse => rfl
  | insertKeyword message isPeer id keyword htask hscan hphotos hid hsent hnext =>
      have hids : e.replica.ids = (s.replica p).ids := by
        rw [Replica.ids, hphotos]
        exact listUpdate_map_id _ _ _ (fun _ => rfl)
      have hheld : ∀ q, (s.apply p threads e).held x q = s.held x q := held_apply_same x hids
      have hdone : ∀ w q, w (.keyword message) = 0 →
          e.pending w w q p = 0 ∧ task.pending w w q p = 0 := by
        intro w q hw
        cases isPeer <;>
          simp [htask, Task.pending, Effect.pending, hsent, hnext, keywordDone, hw]
      refine .same (fun q hq => ⟨?_, ?_⟩)
      · have := hadds q
        rw [(hdone _ q rfl).1, (hdone _ q rfl).2] at this
        have := hheld q
        omega
      · have := hdels q
        rw [(hdone _ q rfl).1, (hdone _ q rfl).2] at this
        omega
  | overrun message isPeer htask hpast hid hsent hnext => exact absurd (hin _ hthread) hpast
  | dropKeyword message id keyword hscan htask hphotos hid hsent hnext =>
      have hheld : ∀ q, (s.apply p threads e).held x q = s.held x q :=
        held_apply_same x (congrArg (List.map Data.id) hphotos)
      have hnone : ∀ w q, w (.keyword message) = 0 → task.pending w w q p = 0 := by
        intro w q hw
        rcases htask with ⟨rfl | rfl | rfl, -⟩ | ⟨aux, -, ⟨rfl, -⟩ | ⟨rfl, -⟩⟩ <;> simp [Task.pending, hw]
      simp only [Effect.pending, hsent, hnext, total_nil, Option.elim, Nat.add_zero] at hadds hdels
      refine .same (fun q hq => ⟨?_, ?_⟩)
      · have := hadds q
        rw [hnone _ q rfl] at this
        have := hheld q
        omega
      · have := hdels q
        rw [hnone _ q rfl] at this
        omega

theorem drift_step {a : ClusterAction} (hs : s.Connected) (hin : s.InTable a) (h : s.step a = some t)
    (x : UInt32) : Drift s t a x := by
  cases a with
  | call p request =>
      refine .same (fun q _ => ⟨?_, pending_call _ _ q h⟩)
      rw [Cluster.held, Cluster.held, (call_frame h).1, Cluster.adds, Cluster.adds, pending_call _ _ q h]
  | run i => exact drift_run hs hin h x
  | deliver i =>
      refine .same (fun q _ => ⟨?_, pending_deliver _ _ q h⟩)
      rw [Cluster.held, Cluster.held, (deliver_frame h).1, Cluster.adds, Cluster.adds,
        pending_deliver _ _ q h]

-- How many insertions of the photo are missing when a peer removes it because
-- another one did.
def Cluster.missing (s : Cluster) (p : DataR) : Task → Nat
  | .removePhoto message true => (sscanfId message).elim 0 (fun x => s.adds x p)
  | _ => 0

-- The order in which the messages of one photo are handled: a peer removes it on a
-- type 11 only when no type 9 that brings it this photo is missing.
def Cluster.InOrder (s : Cluster) : ClusterAction → Prop
  | .run i => ∀ a ∈ s.threads[i]?, s.missing a.1 a.2 = 0
  | _ => True

-- No id is given out again while a type 11 for it is on its way.
def Cluster.FreshId (s : Cluster) : ClusterAction → Prop
  | .run i => ∀ a ∈ s.threads[i]?, a.2.asksId = true →
      ∀ q, s.listening q = true → s.dels (s.photo_id + 1) q = 0
  | _ => True

theorem balanced_step {a : ClusterAction} {x : UInt32} (hlistening : t.listening = s.listening)
    (hdrift : Drift s t a x) (horder : s.InOrder a) (hfresh : s.FreshId a) (hs : s.Balanced x) :
    t.Balanced x := by
  obtain ⟨n, hn⟩ := hs
  rw [Cluster.Balanced, hlistening]
  cases hdrift with
  | same h =>
      refine ⟨n, fun q hq => ?_⟩
      rw [(h q hq).1, (h q hq).2, hn q hq]
  | issued i p name size bytes ha hthread hx hid h =>
      refine ⟨n + 1, fun q hq => ?_⟩
      obtain ⟨hheld, hadds, hdels⟩ := h q hq
      rw [ha] at hfresh
      have hnone := hfresh _ hthread rfl q hq
      have := hn q hq
      rw [hx] at hnone
      omega
  | removed p hp hheld hadds hdels hothers =>
      refine ⟨n - 1, fun q hq => ?_⟩
      have := hn q hq
      have := hadds q hq
      rcases eq_or_ne q p with rfl | hqp
      · omega
      · obtain ⟨hheld', hdels'⟩ := hothers q hq hqp
        omega
  | followed i p message ha hthread hscan hheld hadds hdels hothers =>
      rw [ha] at horder
      have hnone : (sscanfId message).elim 0 (fun x => s.adds x p) = 0 := horder _ hthread
      rw [hscan, Option.elim_some] at hnone
      refine ⟨n, fun q hq => ?_⟩
      have := hn q hq
      have := hadds q hq
      rcases eq_or_ne q p with rfl | hqp
      · omega
      · obtain ⟨hheld', hdels'⟩ := hothers q hq hqp
        omega

-- The counter has not come round to 0.
def Cluster.Unwrapped (s : Cluster) : ClusterAction → Prop
  | .run i => ∀ a ∈ s.threads[i]?, a.2.asksId = true → s.photo_id + 1 ≠ 0
  | _ => True

-- Nobody holds or awaits a photo whose id was not given out yet.
def Cluster.Unissued (s : Cluster) : Prop :=
  ∀ x, s.photo_id < x → ∀ q, s.listening q = true →
    s.held x q = 0 ∧ s.adds x q = 0 ∧ s.dels x q = 0

theorem lt_succ_of_unwrapped {n : UInt32} (h : n + 1 ≠ 0) : n < n + 1 := by
  rw [UInt32.lt_iff_toNat_lt, UInt32.toNat_add]
  have hn := n.toNat_lt
  have : n.toNat + 1 ≠ 2 ^ 32 := by
    intro heq
    apply h
    rw [← UInt32.toNat_inj, UInt32.toNat_add, UInt32.toNat_one, heq]
    rfl
  rw [UInt32.toNat_one, Nat.mod_eq_of_lt (by omega)]
  omega

theorem unissued_step {a : ClusterAction} (hs : s.Connected) (hissued : s.Unissued)
    (hwrap : s.Unwrapped a) (hin : s.InTable a) (h : s.step a = some t) : t.Unissued := by
  obtain ⟨-, hlistening⟩ := connected_step hs h
  intro x hx q hq
  rw [hlistening] at hq
  have hold : s.photo_id < x := by
    rcases photo_id_step hs h with hid | ⟨hid, i, p, name, size, bytes, ha, hthread⟩
    · rwa [hid] at hx
    · rw [ha] at hwrap
      rw [hid] at hx
      exact UInt32.lt_trans (lt_succ_of_unwrapped (hwrap _ hthread rfl)) hx
  have hnone := hissued x hold
  cases drift_step hs hin h x with
  | same hsame =>
      have := hsame q hq
      have := hnone q hq
      omega
  | issued i p name size bytes ha hthread hxid hid hmore =>
      rw [hid] at hx
      exact absurd hx (UInt32.lt_irrefl x)
  | removed p hp hheld hadds hdels hothers =>
      have := (hnone p hp).1
      omega
  | followed i p message ha hthread hscan hheld hadds hdels hothers =>
      have hp := (hs.threads p _ (List.mem_of_getElem? hthread)).1
      have := (hnone p hp).2.2
      omega

-- Before the counter comes round every id is fresh.
theorem freshId_of_unwrapped {start : Cluster} (hstart : start.Connected) (hissued : start.Unissued)
    (hrun : Reaches Cluster.step (fun s a => s.InOrder a ∧ s.Unwrapped a ∧ s.InTable a) start s) :
    Reaches Cluster.step (fun s a => s.InOrder a ∧ s.FreshId a ∧ s.InTable a) start s := by
  have hinv : s.Connected ∧ s.Unissued ∧
      Reaches Cluster.step (fun s a => s.InOrder a ∧ s.FreshId a ∧ s.InTable a) start s := by
    induction hrun with
    | refl => exact ⟨hstart, hissued, .refl⟩
    | step a _ hok h ih =>
        obtain ⟨hconnected, hissued, hreaches⟩ := ih
        obtain ⟨horder, hwrap, hin⟩ := hok
        refine ⟨(connected_step hconnected h).1, unissued_step hconnected hissued hwrap hin h,
          hreaches.step a ⟨horder, ?_, hin⟩ h⟩
        cases a with
        | run i =>
            intro thread hthread hasks q hq
            exact (hissued _ (lt_succ_of_unwrapped (hwrap thread hthread hasks)) q hq).2.2
        | call p request => trivial
        | deliver i => trivial
  exact hinv.2.2

instance (s : Cluster) (a : ClusterAction) : Decidable (s.InOrder a) :=
  match a with
  | .run i => inferInstanceAs (Decidable (∀ a ∈ s.threads[i]?, s.missing a.1 a.2 = 0))
  | .call _ _ => isTrue trivial
  | .deliver _ => isTrue trivial

instance (s : Cluster) (a : ClusterAction) : Decidable (s.Unwrapped a) :=
  match a with
  | .run i =>
      inferInstanceAs (Decidable (∀ a ∈ s.threads[i]?, a.2.asksId = true → s.photo_id + 1 ≠ 0))
  | .call _ _ => isTrue trivial
  | .deliver _ => isTrue trivial

-- Nobody is at work, everybody knows everybody, and all hold the same photos.
structure Cluster.Synced (s : Cluster) : Prop where
  connected : s.Connected
  quiet : s.Quiet
  held : ∀ x p q, s.listening p = true → s.listening q = true → s.held x p = s.held x q

-- Whatever clients upload and delete, and wherever: when all is done all peers hold
-- the same photos.
theorem photo_sets_converge (start s : Cluster) (hstart : start.Synced)
    (hrun : Reaches Cluster.step (fun s a => s.InOrder a ∧ s.FreshId a ∧ s.InTable a) start s)
    (hquiet : s.Quiet) (p q : DataR) (hp : s.listening p = true) (hq : s.listening q = true) (x : UInt32) :
    x ∈ (s.replica p).ids ↔ x ∈ (s.replica q).ids := by
  have hinv : s.Connected ∧ s.Balanced x := by
    refine hrun.invariant (I := fun s => s.Connected ∧ s.Balanced x) ⟨hstart.connected, ?_⟩
      (fun s a t hs hok h => ?_)
    · by_cases hone : ∃ r, start.listening r = true
      · obtain ⟨r, hr⟩ := hone
        refine ⟨start.held x r, fun q hq => ?_⟩
        rw [Cluster.adds, Cluster.dels, quiet_pending hstart.quiet, quiet_pending hstart.quiet,
          hstart.held x q r hq hr]
        rfl
      · exact ⟨0, fun q hq => absurd ⟨q, hq⟩ hone⟩
    · obtain ⟨hconnected, hlistening⟩ := connected_step hs.1 h
      obtain ⟨horder, hfresh, hin⟩ := hok
      exact ⟨hconnected, balanced_step hlistening (drift_step hs.1 hin h x) horder hfresh hs.2⟩
  obtain ⟨n, hn⟩ := hinv.2
  have hheld : ∀ q, s.listening q = true → (s.replica q).ids.count x = n := by
    intro q hq
    have := hn q hq
    rwa [Cluster.adds, Cluster.dels, quiet_pending hquiet, quiet_pending hquiet] at this
  rw [← List.count_pos_iff, ← List.count_pos_iff, hheld p hp, hheld q hq]

theorem among_synced {peers : List DataR} (hpeers : peers.Nodup) (peer : Peer) (photo_id : UInt32) :
    (Cluster.among peers peer photo_id).Synced :=
  ⟨among_connected hpeers peer photo_id, ⟨rfl, rfl⟩, fun _ _ _ _ _ => rfl⟩

theorem among_unissued {peers : List DataR} {peer : Peer} {photo_id : UInt32}
    (hids : ∀ K ∈ peer.photo_list, K.id ≤ photo_id) :
    (Cluster.among peers peer photo_id).Unissued := by
  intro x hx q _
  have hquiet : (Cluster.among peers peer photo_id).Quiet := ⟨rfl, rfl⟩
  refine ⟨List.count_eq_zero.mpr fun hmem => ?_, quiet_pending hquiet _ _ q,
    quiet_pending hquiet _ _ q⟩
  obtain ⟨K, hK, rfl⟩ := List.mem_map.mp hmem
  exact UInt32.not_le.mpr hx (hids K hK)

def threePorts : List DataR := [localPeer 3001, localPeer 3002, localPeer 3003]

def threePeers : Cluster := Cluster.among threePorts ⟨[], fun _ => none⟩ 0

-- A client of the first peer uploads a photo, one of the second deletes it.
def upload : List ClusterAction :=
  .call (localPeer 3001) (.addPhoto [112, 44, 49] [7]) :: List.replicate 7 (.run 0)

def deletion : List ClusterAction :=
  .call (localPeer 3002) (.deletePhoto [49]) :: List.replicate 7 (.run 0)

-- The photo reaches the third peer after the two others have deleted it again, or
-- before.
def deletionFirst : List ClusterAction :=
  upload ++ [.deliver 0, .run 0, .run 0] ++ deletion ++
    [.deliver 2, .run 0, .deliver 1, .run 0, .run 0, .deliver 0, .run 0, .run 0]

def deletionLast : List ClusterAction :=
  upload ++ [.deliver 0, .run 0, .run 0] ++ deletion ++
    [.deliver 0, .run 0, .run 0, .deliver 1, .run 0, .run 0, .deliver 0, .run 0, .run 0] ++ upload ++
    [.deliver 1, .deliver 0, .run 1, .run 0, .run 0, .run 0]

theorem deletionFirst_diverges :
    threePeers.Synced ∧
      ∃ s, execute Cluster.step (fun _ _ => True) threePeers deletionFirst = some s ∧
        s.outcome threePorts Replica.ids =
          ⟨0, 0, [true, true, true], [[], [], [1]], [.id 1, .delete [49] 1]⟩ :=
  ⟨among_synced (by decide) _ _, Option.map_eq_some_iff.mp (by decide +kernel)⟩

theorem photo_sets_converge_deletionLast :
    ∃ s, execute Cluster.step (fun s a => s.InOrder a ∧ s.Unwrapped a ∧ s.InTable a) threePeers
        deletionLast = some s ∧
      s.outcome threePorts Replica.ids =
        ⟨0, 0, [true, true, true], [[2], [2], [2]], [.id 1, .delete [49] 1, .id 2]⟩ ∧
      ∀ x, x ∈ (s.replica (localPeer 3001)).ids ↔ x ∈ (s.replica (localPeer 3003)).ids := by
  obtain ⟨s, hs, hend⟩ : ∃ s,
      execute Cluster.step (fun s a => s.InOrder a ∧ s.Unwrapped a ∧ s.InTable a) threePeers
          deletionLast = some s ∧
        s.outcome threePorts Replica.ids =
          ⟨0, 0, [true, true, true], [[2], [2], [2]], [.id 1, .delete [49] 1, .id 2]⟩ :=
    Option.map_eq_some_iff.mp (by decide +kernel)
  refine ⟨s, hs, hend, fun x => ?_⟩
  have hstart : threePeers.Synced := among_synced (by decide) _ _
  have hrun := freshId_of_unwrapped hstart.connected (among_unissued (fun _ h => nomatch h))
    (reaches_of_execute deletionLast hs)
  obtain ⟨hquiet, hlistening⟩ := outcome_quiet hend
  simp only [threePorts, List.map_cons, List.map_nil, List.cons.injEq] at hlistening
  exact photo_sets_converge threePeers s hstart hrun hquiet _ _ hlistening.1 hlistening.2.2.1 x

end Convergence

end Gallery
