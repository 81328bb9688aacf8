import Gallery.Cluster.Uploads

namespace Gallery

section Carries

variable {x : UInt32} {name : CString} {content : List Byte} {s t : Cluster} {a : ClusterAction}

-- Whatever there is of the photo `x` has this name and these bytes, and where it is listed
-- its file is there or about to be written.
structure Cluster.Carries (x : UInt32) (name : CString) (content : List Byte) (s : Cluster) :
    Prop where
  works : ∀ p task K, (p, task) ∈ s.works → task.photo = some K → K.id = x →
    K.name = name ∧ ∀ b, task.content = some b → b = content
  written : ∀ p task K, (p, task) ∈ s.works → task.written = some K → K.id = x →
    (s.replica p).peer.files (fileName x) = some content
  titles : ∀ p other, (x, other) ∈ (s.replica p).titles → other = name
  files : ∀ p, x ∈ (s.replica p).ids →
    (s.replica p).peer.files (fileName x) = some content ∨ ∃ task, (p, task) ∈ s.works ∧ task.writes x

theorem Task.writes_iff {task : Task} :
    task.writes x ↔ ∃ K size bytes isPeer, task = .writePhoto K size bytes isPeer ∧ K.id = x := by
  cases task <;> simp [Task.writes]

-- A file with the bytes of the photo keeps them.
theorem Cluster.Carries.files_step (hc : s.Carries x name content) (hs : s.Secured)
    (hin : s.InTable a) (h : s.step a = some t) {q : DataR}
    (hfile : (s.replica q).peer.files (fileName x) = some content) :
    (t.replica q).peer.files (fileName x) = some content := by
  cases replica_step hs.toFiled hin h q with
  | same htitles hfiles => rwa [hfiles]
  | listed K size bytes isPeer hmem hnext htitles hfiles => rwa [hfiles]
  | wrote K size bytes isPeer hmem htitles hfiles =>
      rw [hfiles, Peer.writeFile_files]
      split
      case isTrue hsame =>
        have hid := fileName_injective hsame
        exact congrArg some ((hc.works q _ K hmem rfl hid.symm).2 _ rfl)
      case isFalse => exact hfile

-- Work that goes on is about the same photo as before.
theorem carries_step (hc : s.Carries x name content) (hs : s.Secured) (hkeeps : a.Keeps)
    (hin : s.InTable a) (hwrap : s.Unwrapped a) (hx : x ≤ s.photo_id) (h : s.step a = some t) :
    t.Carries x name content where
  works := by
    intro q task K hmem hK hid
    cases works_origin hs.toFiled hkeeps hin h hmem with
    | old hmem => exact hc.works q task K hmem hK hid
    | fresh hphoto hdeletes hwhole =>
        rw [hphoto] at hK
        cases hK
    | issued name' size bytes hmem hcounter htask =>
        -- An id that is given out now is none that was given out before.
        rw [htask] at hK
        obtain rfl := Option.some.inj hK
        have hnew : s.photo_id < t.photo_id := by
          rcases photo_id_step hs.connected h with hsame | ⟨-, i, p, n, sz, bs, rfl, hthread⟩
          · rw [hsame] at hcounter
            exact absurd hcounter (UInt32.ne_of_lt (by
              rw [UInt32.lt_iff_toNat_lt, UInt32.toNat_add, UInt32.toNat_one]
              have := congrArg UInt32.toNat hcounter
              rw [UInt32.toNat_add, UInt32.toNat_one] at this
              omega))
          · rw [hcounter]
            exact lt_succ_of_unwrapped (hwrap _ hthread rfl)
        have hle : t.photo_id ≤ s.photo_id := by
          rw [← hid] at hx
          exact hx
        exact absurd hnew (UInt32.not_lt.mpr hle)
    | listed K' size bytes isPeer hmem htask =>
        rw [htask] at hK ⊢
        have hcarried := hc.works q (.insertPhoto K' size bytes isPeer) K hmem hK hid
        exact hcarried
    | wrote K' size bytes isPeer hmem htask hfile =>
        rw [htask] at hK ⊢
        exact ⟨(hc.works q _ K hmem hK hid).1, fun b hb => nomatch hb⟩
    | told K' before hmem hbefore hwritten hdeletes =>
        obtain rfl := Option.some.inj ((written_photo hwritten).symm.trans hK)
        refine ⟨(hc.works q before K' hmem (written_photo hbefore) hid).1, fun b hb => ?_⟩
        rw [content_of_written hwritten] at hb
        cases hb
    | sent p K' before bytes hmem hbefore hfile htask =>
        rw [htask] at hK ⊢
        obtain rfl := Option.some.inj hK
        refine ⟨(hc.works p before K' hmem (written_photo hbefore) hid).1, fun b hb => ?_⟩
        obtain rfl := Option.some.inj hb
        have hcontent := hc.written p before K' hmem hbefore hid
        have hfile' := sendPhoto_files hfile
        rw [hid] at hfile'
        obtain rfl := Option.some.inj (hfile'.symm.trans hcontent)
        exact List.take_length
  written := by
    intro q task K hmem hK hid
    cases works_origin hs.toFiled hkeeps hin h hmem with
    | old hmem => exact hc.files_step hs hin h (hc.written q task K hmem hK hid)
    | fresh hphoto hdeletes hwhole =>
        rw [written_of_photo_none hphoto] at hK
        cases hK
    | issued name' size bytes hmem hcounter htask => simp [htask, Task.written] at hK
    | listed K' size bytes isPeer hmem htask => simp [htask, Task.written] at hK
    | wrote K' size bytes isPeer hmem htask hfile =>
        rw [htask] at hK
        obtain rfl := Option.some.inj hK
        rw [← hid, hfile, (hc.works q _ K' hmem rfl hid).2 _ rfl]
    | told K' before hmem hbefore hwritten hdeletes =>
        obtain rfl := Option.some.inj (hwritten.symm.trans hK)
        exact hc.files_step hs hin h (hc.written q before K' hmem hbefore hid)
    | sent p K' before bytes hmem hbefore hfile htask => simp [htask, Task.written] at hK
  titles := by
    intro q other hmem
    cases replica_step hs.toFiled hin h q with
    | same htitles hfiles => exact hc.titles q other (htitles ▸ hmem)
    | wrote K size bytes isPeer hmem' htitles hfiles => exact hc.titles q other (htitles ▸ hmem)
    | listed K size bytes isPeer hmem' hnext htitles hfiles =>
        rw [htitles] at hmem
        rcases List.mem_cons.mp hmem with hnew | hold
        · obtain ⟨hid, rfl⟩ := Prod.mk.inj hnew
          exact (hc.works q _ K hmem' rfl hid.symm).1
        · exact hc.titles q other hold
  files := by
    intro q hmem
    have hkept : x ∈ (s.replica q).ids →
        (t.replica q).peer.files (fileName x) = some content ∨
          ∃ task, (q, task) ∈ t.works ∧ task.writes x := by
      intro hold
      rcases hc.files q hold with hfile | ⟨task, hmem', hwrites⟩
      · exact Or.inl (hc.files_step hs hin h hfile)
      · obtain ⟨K, size, bytes, isPeer, rfl, hid⟩ := Task.writes_iff.mp hwrites
        exact works_writes h hmem' hid ((hc.works q _ K hmem' rfl hid).2 _ rfl)
    rw [← titles_ids] at hmem
    cases replica_step hs.toFiled hin h q with
    | same htitles hfiles =>
        rw [htitles, titles_ids] at hmem
        exact hkept hmem
    | wrote K size bytes isPeer hmem' htitles hfiles =>
        rw [htitles, titles_ids] at hmem
        exact hkept hmem
    | listed K size bytes isPeer hmem' hnext htitles hfiles =>
        rw [htitles, List.map_cons, titles_ids] at hmem
        rcases List.mem_cons.mp hmem with rfl | hold
        · exact Or.inr ⟨_, hnext, rfl⟩
        · exact hkept hold

end Carries

section Placed

variable {x : UInt32} {name : CString} {content : List Byte} {s t : Cluster} {a : ClusterAction}

-- Every peer that listens holds the photo `x` or is about to list it, once.
def Cluster.Placed (x : UInt32) (s : Cluster) : Prop :=
  ∀ q, s.listening q = true → s.held x q + s.adds x q = 1

theorem held_titles (x : UInt32) (q : DataR) (s : Cluster) :
    s.held x q = ((s.replica q).titles.map Prod.fst).count x := by
  rw [titles_ids, Cluster.held]

theorem held_le_step (hs : s.Secured) (hin : s.InTable a) (h : s.step a = some t) (q : DataR) :
    s.held x q ≤ t.held x q := by
  rw [held_titles, held_titles]
  cases replica_step hs.toFiled hin h q with
  | same htitles hfiles => rw [htitles]
  | listed K size bytes isPeer hmem hnext htitles hfiles =>
      rw [htitles, List.map_cons]
      exact List.count_le_count_cons
  | wrote K size bytes isPeer hmem htitles hfiles => rw [htitles]

theorem placed_step (hp : s.Placed x) (hs : s.Secured) (hin : s.InTable a)
    (hwrap : s.Unwrapped a) (hx : x ≤ s.photo_id)
    (h : s.step a = some t) : t.Placed x := by
  obtain ⟨-, hlistening⟩ := connected_step hs.connected h
  intro q hq
  rw [hlistening] at hq
  cases drift_step hs.connected hin h x with
  | same hsame =>
      rw [(hsame q hq).1]
      exact hp q hq
  | issued i p name size bytes ha hthread hnew hid hmore =>
      subst ha
      have hlt : s.photo_id < x := hnew ▸ lt_succ_of_unwrapped (hwrap _ hthread rfl)
      exact absurd hlt (UInt32.not_lt.mpr hx)
  | removed p hlisten hheld hadds hdels hothers =>
      have hle : s.held x p ≤ t.held x p := held_le_step hs hin h p
      omega
  | followed i p message ha hthread hscan hheld hadds hdels hothers =>
      have hmem := List.mem_append_left (s.packets.map (fun a => (a.1, a.2.task)))
        (List.mem_of_getElem? hthread)
      exact absurd (hs.whole p _ hmem).1 Bool.noConfusion

-- The id that a client is given is that of no photo there is, and stands for this one.
theorem issued_step {i : Nat} {p : DataR} {size : Nat} {bytes : List Byte} (hs : s.Secured)
    (hissued : s.Unissued) (hthread : s.threads[i]? = some (p, .askId name size bytes))
    (hwrap : s.photo_id + 1 ≠ 0) (h : s.step (.run i) = some t) :
    t.Carries (s.photo_id + 1) name (bytes.take size) ∧ t.Placed (s.photo_id + 1) := by
  have hnew : s.photo_id < s.photo_id + 1 := lt_succ_of_unwrapped hwrap
  have hold : ∀ {y}, y ≤ s.photo_id → y ≠ s.photo_id + 1 := by
    rintro y hy rfl
    exact UInt32.not_le.mpr hnew hy
  cases step_works h with
  | call p' request new ha htask hreplica hid hworks => cases ha
  | deliver i' ha hreplica hid hworks => cases ha
  | run i' p' ran threads rest e ha hpick hrun ht hbefore hworks =>
      obtain rfl := ClusterAction.run.inj ha
      obtain ⟨rfl, rfl⟩ := Prod.mk.inj (Option.some.inj (hthread.symm.trans (pick_get hpick)))
      have he := Option.some.inj hrun
      have hnext : e.next = some (.insertPhoto (setData name (s.photo_id + 1)) size bytes false) := by
        rw [← he]
        exact if_neg hwrap
      have hsent : e.sent = [] := by rw [← he]
      have hsame : ∀ q, t.replica q = s.replica q := by
        intro q
        rcases eq_or_ne q p with rfl | hqp
        · rw [ht, apply_replica_self, ← he]
        · rw [ht, apply_replica_of_ne hqp]
      -- All that is there besides the new photo was there before.
      have hwork : ∀ q task, (q, task) ∈ t.works →
          (q, task) ∈ s.works ∨ (q, task) = (p, .insertPhoto (setData name (s.photo_id + 1)) size bytes false) := by
        intro q task hmem
        rcases (hworks _).mp hmem with hrest | ⟨next, hnext', heq⟩ | ⟨q', packet, hpacket, -⟩
        · exact Or.inl ((hbefore _).mpr (Or.inr hrest))
        · obtain rfl := Option.some.inj (hnext.symm.trans hnext')
          exact Or.inr heq
        · rw [hsent] at hpacket
          cases hpacket
      refine ⟨⟨?_, ?_, ?_, ?_⟩, ?_⟩
      · intro q task K hmem hK hid
        rcases hwork q task hmem with hmem | heq
        · exact absurd hid (hold (hs.issued q task K hmem hK))
        · obtain ⟨rfl, rfl⟩ := Prod.mk.inj heq
          obtain rfl := Option.some.inj hK
          exact ⟨rfl, fun b hb => (Option.some.inj hb).symm⟩
      · intro q task K hmem hK hid
        rcases hwork q task hmem with hmem | heq
        · exact absurd hid (hold (hs.issued q task K hmem (written_photo hK)))
        · obtain ⟨rfl, rfl⟩ := Prod.mk.inj heq
          cases hK
      · intro q other hmem
        rw [hsame] at hmem
        exact absurd rfl (hold (hs.listed q _ (titles_ids _ ▸ List.mem_map_of_mem hmem)))
      · intro q hmem
        rw [hsame] at hmem
        exact absurd rfl (hold (hs.listed q _ hmem))
      · intro q hq
        have hlisten : s.listening q = true := (connected_step hs.connected h).2 ▸ hq
        obtain ⟨hheld, hadds, -⟩ := hissued _ hnew q hlisten
        have hmove : t.adds (s.photo_id + 1) q + 0 = s.adds (s.photo_id + 1) q +
            e.pending (photoWeight (s.photo_id + 1)) (photoWeight (s.photo_id + 1)) q p := by
          rw [ht]
          exact pending_apply _ _ q e hpick
        have hone : e.pending (photoWeight (s.photo_id + 1)) (photoWeight (s.photo_id + 1)) q p = 1 := by
          simp [Effect.pending, hsent, hnext, Task.pending, photoWeight, setData]
        have hids : t.held (s.photo_id + 1) q = s.held (s.photo_id + 1) q := by
          rw [Cluster.held, hsame, Cluster.held]
        omega

-- When all is done every peer lists the photo once, under its name and with its bytes.
theorem placed_quiet (hp : s.Placed x) (hc : s.Carries x name content) (hquiet : s.Quiet) {q : DataR}
    (hq : s.listening q = true) :
    (s.replica q).ids.count x = 1 ∧ (∀ K ∈ (s.replica q).peer.photo_list, K.id = x → K.name = name) ∧
      (s.replica q).peer.files (fileName x) = some content := by
  have hone : (s.replica q).ids.count x = 1 := by
    have := hp q hq
    rwa [Cluster.adds, quiet_pending hquiet, Nat.add_zero] at this
  refine ⟨hone, ?_, ?_⟩
  · rintro K hK rfl
    exact hc.titles q K.name (List.mem_map.mpr ⟨K, hK, rfl⟩)
  · have hmem : x ∈ (s.replica q).ids := by
      rw [← List.count_pos_iff]
      omega
    rcases hc.files q hmem with hfile | ⟨task, hwork, -⟩
    · exact hfile
    · rw [works_quiet hquiet] at hwork
      cases hwork

end Placed

namespace Recorded

section Durable

variable {start : Cluster} {s t : Recorded} {a : ClusterAction}

-- The upload a handler asks an id for, and what became of those that were given one.
def Asks (message : CString) (bytes : List Byte) : Task → Prop
  | .askId name size bytes' =>
      (sscanfNameSize message).1.name = some name ∧ (sscanfNameSize message).1.size = size ∧
        bytes' = bytes
  | _ => False

def Stored (s : Recorded) (h : Handler) : Prop :=
  ∀ x, .id x ∈ h.answers → x ≠ 0 → x ≤ s.cluster.photo_id ∧
    ∃ message bytes name, h.origin = .client (.addPhoto message bytes) ∧
      (sscanfNameSize message).1.name = some name ∧
      s.cluster.Carries x name (bytes.take (sscanfNameSize message).1.size) ∧ s.cluster.Placed x

structure Durable (s : Recorded) : Prop where
  agrees : s.Agrees
  secured : s.cluster.Secured
  unissued : s.cluster.Unissued
  asks : ∀ x ∈ s.live, x.2.asksId = true →
    ∃ message bytes, x.1.origin = .client (.addPhoto message bytes) ∧ Asks message bytes x.2
  stored : ∀ h ∈ s.handlers, s.Stored h

theorem call_task_asks {request : Call} {task : Task} (h : request.task = some task)
    (hasks : task.asksId = true) :
    ∃ message bytes, request = .addPhoto message bytes ∧ Asks message bytes task := by
  cases request with
  | addPhoto message bytes =>
      obtain ⟨name, hname, rfl⟩ := Option.map_eq_some_iff.mp h
      exact ⟨message, bytes, rfl, hname, rfl, rfl⟩
  | addKeyword message =>
      obtain rfl := Option.some.inj h
      cases hasks
  | deletePhoto message =>
      obtain rfl := Option.some.inj h
      cases hasks

-- An action that a thread takes is the action of its handler.
theorem step_run {i : Nat} (hagrees : s.Agrees) (h : s.step (.run i) = some t) :
    ∃ h' task live e, pick s.live i = some ((h', task), live) ∧
      s.cluster.threads[i]? = some (h'.peer, task) ∧
      runTask s.cluster.listening s.cluster.photo_id (s.cluster.replica h'.peer) task = some e ∧
      t.live = live ++ (e.next.map (fun task => (h'.record e, task))).toList ∧
      t.finished = s.finished ++ if e.next.isNone then [h'.record e] else [] := by
  obtain ⟨cluster, hcluster, h⟩ := Option.bind_eq_some_iff.mp h
  obtain ⟨⟨⟨h', task⟩, live⟩, hpick, h⟩ := Option.bind_eq_some_iff.mp h
  obtain ⟨e, hrun, h⟩ := Option.bind_eq_some_iff.mp h
  have hthread : s.cluster.threads[i]? = some (h'.peer, task) := by
    have hthreads : s.cluster.threads = s.live.map (fun x => (x.1.peer, x.2)) := hagrees
    rw [hthreads, List.getElem?_map, pick_get hpick]
    rfl
  refine ⟨h', task, live, e, hpick, hthread, hrun, ?_⟩
  dsimp only at h
  cases hnext : e.next with
  | none =>
      rw [hnext] at h
      obtain rfl := Option.some.inj h
      simp
  | some next =>
      rw [hnext] at h
      obtain rfl := Option.some.inj h
      simp

-- A request or a message that comes in gets a handler of its own.
theorem step_fresh (h : s.step a = some t) (hnew : ∀ i, a ≠ .run i) :
    ∃ p origin task, t.live = s.live ++ [(.fresh p origin, task)] ∧ t.finished = s.finished ∧
      (task.asksId = true →
        ∃ message bytes, origin = .client (.addPhoto message bytes) ∧ Asks message bytes task) := by
  obtain ⟨cluster, -, h⟩ := Option.bind_eq_some_iff.mp h
  cases a with
  | call p request =>
      obtain ⟨task, htask, h⟩ := Option.bind_eq_some_iff.mp h
      obtain rfl := Option.some.inj h
      refine ⟨p, .client request, task, rfl, rfl, fun hasks => ?_⟩
      obtain ⟨message, bytes, rfl, hask⟩ := call_task_asks htask hasks
      exact ⟨message, bytes, rfl, hask⟩
  | run i => exact absurd rfl (hnew i)
  | deliver i =>
      obtain ⟨⟨⟨p, packet⟩, packets⟩, -, h⟩ := Option.bind_eq_some_iff.mp h
      obtain rfl := Option.some.inj h
      refine ⟨p, .peer packet, packet.task, rfl, rfl, fun hasks => ?_⟩
      cases packet <;> cases hasks

-- What is stored stays so.
theorem stored_step (hs : s.cluster.Secured) (hkeeps : s.cluster.Keeps a)
    (hwrap : s.cluster.Unwrapped a) (h : s.cluster.step a = some t.cluster) {h' : Handler}
    (hstored : s.Stored h') : t.Stored h' := by
  intro x hx hne
  obtain ⟨hle, message, bytes, name, horigin, hname, hcarries, hplaced⟩ := hstored x hx hne
  exact ⟨UInt32.le_trans hle (photo_id_le_step hs.connected hwrap h), message, bytes, name, horigin, hname,
    carries_step hcarries hs hkeeps.1 hkeeps.2 hwrap hle h, placed_step hplaced hs hkeeps.2 hwrap hle h⟩

theorem stored_fresh (s : Recorded) (p : DataR) (origin : Origin) : s.Stored (.fresh p origin) :=
  fun _ hx => nomatch hx

-- A handler that goes on: only the part that asks for an id answers with one.
theorem stored_run {i : Nat} {h' : Handler} {task : Task} {e : Effect} (hs : s.Durable)
    (hin : s.cluster.InTable (.run i)) (hmem : (h', task) ∈ s.live)
    (hthread : s.cluster.threads[i]? = some (h'.peer, task))
    (hrun : runTask s.cluster.listening s.cluster.photo_id (s.cluster.replica h'.peer) task = some e)
    (h : s.cluster.step (.run i) = some t.cluster) (hold : t.Stored h') : t.Stored (h'.record e) := by
  have hphoto := hs.secured.photoStep (List.mem_of_getElem? hthread) (hin _ hthread) hrun
  intro x hx hne
  rcases List.mem_append.mp hx with hbefore | hnew
  · exact hold x hbefore hne
  · cases hphoto with
    | ask name size bytes htask hreplica hid hsent hanswers hnext =>
        subst htask
        rw [hanswers] at hnew
        obtain rfl := Answer.id.inj (List.mem_singleton.mp hnew)
        obtain ⟨message, bytes', horigin, hname, hsize, rfl⟩ := hs.asks _ hmem rfl
        obtain ⟨hcarries, hplaced⟩ := issued_step hs.secured hs.unissued hthread hne h
        have hcounter : t.cluster.photo_id = s.cluster.photo_id + 1 := by
          obtain ⟨⟨⟨p, ran⟩, threads⟩, hpick, h⟩ := Option.bind_eq_some_iff.mp h
          obtain ⟨rfl, rfl⟩ := Prod.mk.inj (Option.some.inj (hthread.symm.trans (pick_get hpick)))
          obtain ⟨e', hrun', h⟩ := Option.bind_eq_some_iff.mp h
          obtain rfl := Option.some.inj (hrun.symm.trans hrun')
          rw [← Option.some.inj h]
          exact hid
        refine ⟨hcounter ▸ UInt32.le_refl _, message, bytes, name, horigin, hname, ?_, hplaced⟩
        rw [hsize]
        exact hcarries
    | insert K size bytes isPeer htask hreplica hid hsent hanswers hnext => simp [hanswers] at hnew
    | write K size bytes isPeer htask hreplica hid hsent hanswers hnext => simp [hanswers] at hnew
    | tell K htask hpeer hid hanswers hnext hsent => simp [hanswers] at hnew
    | other hphoto hasks htitles hfiles hid hanswers hnext hsent => exact absurd hnew (hanswers x)

theorem durable_start (hstart : start.Connected) (hquiet : start.Quiet)
    (hlisted : ∀ p x, x ∈ (start.replica p).ids → x ≤ start.photo_id) :
    (Recorded.start start).Durable where
  agrees := hquiet.1
  secured := ⟨filed_quiet hstart hquiet, fun p task _ h => absurd h (works_quiet_not_mem hquiet),
    hlisted⟩
  unissued := by
    intro x hx q _
    refine ⟨List.count_eq_zero.mpr (fun hmem => ?_), quiet_pending hquiet _ _ q,
      quiet_pending hquiet _ _ q⟩
    exact UInt32.not_le.mpr hx (hlisted q x hmem)
  asks := fun _ hx => nomatch hx
  stored := fun _ hh => nomatch hh

theorem durable_step (hs : s.Durable) (hok : s.cluster.Keeps a) (hwrap : s.cluster.Unwrapped a)
    (h : s.step a = some t) : t.Durable := by
  obtain ⟨hkeeps, hin⟩ := hok
  obtain ⟨hcluster, -, hagrees⟩ := step_cases hs.agrees h
  have hold : ∀ h' ∈ s.handlers, t.Stored h' :=
    fun h' hmem => stored_step hs.secured ⟨hkeeps, hin⟩ hwrap hcluster (hs.stored h' hmem)
  have hrecords : (∀ x ∈ t.live, x.2.asksId = true →
      ∃ message bytes, x.1.origin = .client (.addPhoto message bytes) ∧ Asks message bytes x.2) ∧
      ∀ h' ∈ t.handlers, t.Stored h' := by
    by_cases hnew : ∀ i, a ≠ .run i
    · obtain ⟨p, origin, task, hlive, hfinished, hasks⟩ := step_fresh h hnew
      rw [handlers, hlive, hfinished]
      constructor
      · intro x hx
        rcases List.mem_append.mp hx with hx | hx
        · exact hs.asks x hx
        · obtain rfl := List.mem_singleton.mp hx
          exact hasks
      · intro h' hmem
        rw [List.map_append, List.append_assoc] at hmem
        rcases List.mem_append.mp hmem with hmem | hmem
        · exact hold h' (List.mem_append_left _ hmem)
        · rcases List.mem_cons.mp hmem with rfl | hmem
          · exact stored_fresh t p origin
          · exact hold h' (List.mem_append_right _ hmem)
    · simp only [not_forall, not_not] at hnew
      obtain ⟨i, rfl⟩ := hnew
      obtain ⟨h', task, live, e, hpick, hthread, hrun, hlive, hfinished⟩ := step_run hs.agrees h
      have hmem := pick_mem hpick
      have hphoto := hs.secured.photoStep (List.mem_of_getElem? hthread) (hin _ hthread) hrun
      have hran : t.Stored (h'.record e) :=
        stored_run hs hin hmem hthread hrun hcluster
          (hold h' (List.mem_append_left _ (List.mem_map_of_mem hmem)))
      rw [handlers, hlive, hfinished]
      constructor
      · intro x hx
        rcases List.mem_append.mp hx with hx | hx
        · exact hs.asks x (pick_rest_subset hpick hx)
        · obtain ⟨next, hnext, rfl⟩ := Option.map_eq_some_iff.mp (Option.mem_toList.mp hx)
          intro hasks
          rw [runTask_asks hphoto hnext] at hasks
          cases hasks
      · intro h'' hmem''
        rcases List.mem_append.mp hmem'' with hmem'' | hmem''
        · rw [List.map_append] at hmem''
          rcases List.mem_append.mp hmem'' with hmem'' | hmem''
          · obtain ⟨x, hx, rfl⟩ := List.mem_map.mp hmem''
            exact hold x.1 (List.mem_append_left _ (List.mem_map_of_mem (pick_rest_subset hpick hx)))
          · obtain ⟨x, hx, rfl⟩ := List.mem_map.mp hmem''
            obtain ⟨next, hnext, rfl⟩ := Option.map_eq_some_iff.mp (Option.mem_toList.mp hx)
            exact hran
        · rcases List.mem_append.mp hmem'' with hmem'' | hmem''
          · exact hold h'' (List.mem_append_right _ hmem'')
          · split at hmem''
            · obtain rfl := List.mem_singleton.mp hmem''
              exact hran
            · cases hmem''
  exact ⟨hagrees, secured_step hs.secured hkeeps hin hwrap hcluster,
    unissued_step hs.secured.connected hs.unissued hwrap hin hcluster, hrecords.1, hrecords.2⟩

-- Clients upload and add keywords wherever they like: when all is done, every photo that one
-- of them was given an id for is at every peer, once, with its name and the bytes sent.
theorem uploads_durable (hstart : start.Connected) (hquiet : start.Quiet)
    (hlisted : ∀ p x, x ∈ (start.replica p).ids → x ≤ start.photo_id)
    (hrun : Reaches step (fun s a => s.cluster.Keeps a ∧ s.cluster.Unwrapped a) (.start start) s)
    (hdone : s.cluster.Quiet) {h : Handler} {x : UInt32} (hmem : h ∈ s.handlers)
    (hid : .id x ∈ h.answers) (hne : x ≠ 0) :
    ∃ message bytes name, h.origin = .client (.addPhoto message bytes) ∧
      (sscanfNameSize message).1.name = some name ∧
      ∀ q, start.listening q = true →
        (s.cluster.replica q).ids.count x = 1 ∧
        (∀ K ∈ (s.cluster.replica q).peer.photo_list, K.id = x → K.name = name) ∧
        (s.cluster.replica q).peer.files (fileName x) =
          some (bytes.take (sscanfNameSize message).1.size) := by
  have hinv : s.Durable ∧ s.cluster.listening = start.listening := by
    refine hrun.invariant (I := fun s => s.Durable ∧ s.cluster.listening = start.listening)
      ⟨durable_start hstart hquiet hlisted, rfl⟩ ?_
    rintro s a t ⟨hs, hlistening⟩ hok hstep
    have hcluster := (step_cases hs.agrees hstep).1
    exact ⟨durable_step hs hok.1 hok.2 hstep,
      (connected_step hs.secured.connected hcluster).2.trans hlistening⟩
  obtain ⟨hdurable, hlistening⟩ := hinv
  obtain ⟨-, message, bytes, name, horigin, hname, hcarries, hplaced⟩ :=
    hdurable.stored h hmem x hid hne
  refine ⟨message, bytes, name, horigin, hname, fun q hq => ?_⟩
  rw [← hlistening] at hq
  exact placed_quiet hplaced hcarries hdone hq

-- Two peers take a photo each at the same time, and the messages cross.
def uploadsCrossing : List ClusterAction :=
  [.call (localPeer 3001) (.addPhoto [97, 44, 49] [5]),
    .call (localPeer 3002) (.addPhoto [98, 44, 50] [6, 7])] ++ List.replicate 14 (.run 0) ++
    [.deliver 3, .deliver 0, .run 1, .run 0, .run 0, .run 0, .deliver 0, .deliver 0] ++
    List.replicate 4 (.run 0)

theorem uploads_durable_uploadsCrossing :
    ∃ s, execute step (fun s a => s.cluster.Keeps a ∧ s.cluster.Unwrapped a) (.start idlePeers) uploadsCrossing =
        some s ∧
      s.finished.map Handler.answers = [[.id 1], [.id 2], [], [], [], []] ∧
      ∀ h ∈ s.handlers, ∀ x, .id x ∈ h.answers → x ≠ 0 →
        ∃ message bytes name, h.origin = .client (.addPhoto message bytes) ∧
          (sscanfNameSize message).1.name = some name ∧
          ∀ q, idlePeers.listening q = true →
            (s.cluster.replica q).ids.count x = 1 ∧
            (∀ K ∈ (s.cluster.replica q).peer.photo_list, K.id = x → K.name = name) ∧
            (s.cluster.replica q).peer.files (fileName x) =
              some (bytes.take (sscanfNameSize message).1.size) := by
  have hruns : (execute step (fun s a => s.cluster.Keeps a ∧ s.cluster.Unwrapped a) (.start idlePeers)
      uploadsCrossing).map (fun s =>
        (s.cluster.threads.length, s.cluster.packets.length, s.finished.map Handler.answers)) =
        some (0, 0, [[.id 1], [.id 2], [], [], [], []]) := by decide +kernel
  obtain ⟨s, hs, hend⟩ := Option.map_eq_some_iff.mp hruns
  obtain ⟨hthreads, hend⟩ := Prod.mk.inj hend
  obtain ⟨hpackets, hanswers⟩ := Prod.mk.inj hend
  have hdone : s.cluster.Quiet :=
    ⟨List.length_eq_zero_iff.mp hthreads, List.length_eq_zero_iff.mp hpackets⟩
  exact ⟨s, hs, hanswers, fun h hmem x hid hne => uploads_durable (among_connected (by decide) _ _)
    ⟨rfl, rfl⟩ (fun _ _ hx => absurd hx List.not_mem_nil) (reaches_of_execute _ hs) hdone hmem hid hne⟩

end Durable

end Recorded

end Gallery
