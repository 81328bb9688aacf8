import Gallery.Cluster.Moves

namespace Gallery

section Awaits

variable (X : UInt32)

-- The keywords of the photo `X` as a search finds them.
def Replica.keywords (r : Replica) : List CString :=
  (listSearch r.peer.photo_list (setData [] X)).elim [] Data.keyword

def keywordWeight (k : CString) : News → Nat
  | .keyword message => if sscanfKeyword message = some (X, k) then 1 else 0
  | _ => 0

-- How often the keyword `k` is on its way to the photo `X` of the peer `q`.
def Cluster.awaits (s : Cluster) (k : CString) (q : DataR) : Nat :=
  s.pending (keywordWeight X k) (keywordWeight X k) q

-- Clients add keywords and do nothing else.
def Cluster.OnlyKeywords (_ : Cluster) : ClusterAction → Prop
  | .call _ (.addKeyword _) => True
  | .call _ _ => False
  | _ => True

def Task.checksFull : Task → Option (UInt32 × CString)
  | .checkFull message true => sscanfKeyword message
  | _ => none

-- A type 10 message for `X` does not find the table full, unless it holds the keyword.
def Cluster.HasRoom (s : Cluster) : ClusterAction → Prop
  | .run i => ∀ a ∈ s.threads[i]?, ∀ k ∈ a.2.checksFull, k.1 = X →
      ∀ aux ∈ listSearch (s.replica a.1).peer.photo_list (setData [] X),
        aux.n_keywords < MAX_KEYWORDS ∨ k.2 ∈ aux.keyword
  | _ => True

end Awaits

section OnKeywords

def Task.OnKeywords : Task → Prop
  | .findPhoto _ _ => True
  | .checkFull _ _ => True
  | .searchKeyword _ _ => True
  | .insertKeyword _ _ => True
  | .answerKeyword _ _ => True
  | .lockPeers (.keyword _) => True
  | .broadcast (.keyword _) _ => True
  | _ => False

def Packet.OnKeywords : Packet → Prop
  | .keyword _ => True
  | _ => False

-- The effect of a part of `add_keyword`: a client gets a 1 only for a keyword that
-- was inserted.
structure KeywordEffect (task : Task) (e : Effect) : Prop where
  next : ∀ task, e.next = some task → task.OnKeywords
  sent : ∀ p packet, (p, packet) ∈ e.sent → packet.OnKeywords
  accepted : ∀ message, e.next = some (.answerKeyword message 1) → task = .insertKeyword message false
  answers : ∀ message, .keyword message 1 ∈ e.answers → task = .answerKeyword message 1

theorem keywordDone_eq_some {message : CString} {isPeer : Bool} {success : Int32} {task : Task}
    (h : keywordDone message isPeer success = some task) :
    isPeer = false ∧ task = .answerKeyword message success := by
  cases isPeer with
  | true => cases h
  | false => exact ⟨rfl, (Option.some.inj h).symm⟩

theorem KeywordEffect.done {task : Task} {e : Effect} {message : CString} {isPeer : Bool}
    {success : Int32} (hnext : e.next = keywordDone message isPeer success) (hsent : e.sent = [])
    (hanswers : e.answers = [])
    (hsuccess : success = 1 → isPeer = false → task = .insertKeyword message false) :
    KeywordEffect task e := by
  refine ⟨fun next h => ?_, fun p packet h => ?_, fun m h => ?_, fun m h => ?_⟩
  · obtain ⟨-, rfl⟩ := keywordDone_eq_some (hnext.symm.trans h)
    trivial
  · rw [hsent] at h
    cases h
  · obtain ⟨hclient, hanswer⟩ := keywordDone_eq_some (hnext.symm.trans h)
    obtain ⟨rfl, hone⟩ := Task.answerKeyword.inj hanswer
    exact hsuccess hone.symm hclient
  · rw [hanswers] at h
    cases h

theorem KeywordEffect.goOn {task next : Task} {e : Effect} (hnext : e.next = some next)
    (hkeywords : next.OnKeywords) (hanswer : ∀ message, next ≠ .answerKeyword message 1)
    (hsent : ∀ p packet, (p, packet) ∈ e.sent → packet.OnKeywords) (hanswers : e.answers = []) :
    KeywordEffect task e := by
  refine ⟨fun other h => ?_, hsent, fun m h => ?_, fun m h => ?_⟩
  · obtain rfl := Option.some.inj (hnext.symm.trans h)
    exact hkeywords
  · exact absurd (Option.some.inj (hnext.symm.trans h)) (hanswer m)
  · rw [hanswers] at h
    cases h

theorem runTask_keywords {online : DataR → Bool} {photo_id : UInt32} {r : Replica} {task : Task}
    {e : Effect} (h : runTask online photo_id r task = some e) (htask : task.OnKeywords) :
    KeywordEffect task e := by
  cases task with
  | findPhoto message isPeer =>
      obtain ⟨⟨id, keyword⟩, -, h⟩ := Option.bind_eq_some_iff.mp h
      obtain rfl := Option.some.inj h
      cases listSearch r.peer.photo_list (setData [] id) with
      | none => exact .done rfl rfl rfl (fun hone => absurd hone (by decide))
      | some aux =>
          exact .goOn rfl trivial (fun _ => Task.noConfusion) (fun _ _ h => (List.not_mem_nil h).elim) rfl
  | checkFull message isPeer =>
      obtain ⟨⟨id, keyword⟩, -, h⟩ := Option.bind_eq_some_iff.mp h
      obtain rfl := Option.some.inj h
      by_cases hroom : (r.item id).n_keywords < MAX_KEYWORDS
      · exact .goOn (if_pos hroom) trivial (fun _ => Task.noConfusion) (fun _ _ h => (List.not_mem_nil h).elim) rfl
      · exact .done (if_neg hroom) rfl rfl (fun hone => absurd hone (by decide))
  | searchKeyword message isPeer =>
      obtain ⟨⟨id, keyword⟩, -, h⟩ := Option.bind_eq_some_iff.mp h
      obtain rfl := Option.some.inj h
      by_cases hfound : searchKeyword (r.item id) keyword = true
      · exact .done (if_pos hfound) rfl rfl (fun hone => absurd hone (by decide))
      · exact .goOn (if_neg hfound) trivial (fun _ => Task.noConfusion) (fun _ _ h => (List.not_mem_nil h).elim) rfl
  | insertKeyword message isPeer =>
      obtain ⟨⟨id, keyword⟩, -, h⟩ := Option.bind_eq_some_iff.mp h
      obtain rfl := Option.some.inj h
      exact .done rfl rfl rfl (fun _ hclient => by rw [hclient])
  | answerKeyword message success =>
      obtain rfl := Option.some.inj h
      refine ⟨fun next h => ?_, fun p packet h => (List.not_mem_nil h).elim, fun m h => ?_, fun m h => ?_⟩
      · dsimp only at h
        split at h
        · obtain rfl := Option.some.inj h
          trivial
        · cases h
      · dsimp only at h
        split at h
        · cases h
        · cases h
      · obtain ⟨rfl, rfl⟩ := Answer.keyword.inj (List.mem_singleton.mp h)
        rfl
  | lockPeers news =>
      simp only [runTask] at h
      split at h
      · cases h
      · obtain rfl := Option.some.inj h
        cases news with
        | keyword message =>
            exact .goOn rfl trivial (fun _ => Task.noConfusion) (fun _ _ h => (List.not_mem_nil h).elim) rfl
        | photo K => exact htask.elim
        | delete message => exact htask.elim
  | broadcast news rest =>
      cases news with
      | photo K => exact htask.elim
      | delete message => exact htask.elim
      | keyword message =>
          cases rest with
          | nil =>
              obtain rfl := Option.some.inj h
              exact ⟨fun _ h => (Option.some_ne_none _ h.symm).elim,
                fun _ _ h => (List.not_mem_nil h).elim,
                fun _ h => (Option.some_ne_none _ h.symm).elim, fun _ h => (List.not_mem_nil h).elim⟩
          | cons K rest =>
              simp only [runTask] at h
              split at h
              · obtain ⟨packet, hpacket, h⟩ := Option.bind_eq_some_iff.mp h
                obtain rfl := Option.some.inj hpacket
                obtain rfl := Option.some.inj h
                refine .goOn rfl trivial (fun _ => Task.noConfusion) (fun p packet h => ?_) rfl
                obtain ⟨-, rfl⟩ := Prod.mk.inj (List.mem_singleton.mp h)
                trivial
              · obtain rfl := Option.some.inj h
                exact .goOn rfl trivial (fun _ => Task.noConfusion) (fun _ _ h => (List.not_mem_nil h).elim) rfl
  | askId name size bytes => exact htask.elim
  | insertPhoto K size bytes isPeer => exact htask.elim
  | writePhoto K size bytes isPeer => exact htask.elim
  | removePhoto message isPeer => exact htask.elim
  | unlinkPhoto message isPeer => exact htask.elim
  | answerDelete message found => exact htask.elim
  | registerPeer K asker => exact htask.elim
  | sendAllPhotos asker => exact htask.elim
  | deletePeer K => exact htask.elim

end OnKeywords

section Spread

variable {X : UInt32} {s t : Cluster}

theorem keywordWeight_message {message : CString} {id : UInt32} {keyword : CString}
    (hscan : sscanfKeyword message = some (id, keyword)) (k : CString) :
    keywordWeight X k (.keyword message) = if id = X ∧ keyword = k then 1 else 0 := by
  simp [keywordWeight, hscan]

-- What a part of `add_keyword` does to the photo `X` and to what its peers await.
inductive KeywordDrift (X : UInt32) (s t : Cluster) (p : DataR) (task : Task) : Prop
  | same (hphotos : ∀ q, (t.replica q).peer.photo_list = (s.replica q).peer.photo_list)
      (hawaits : ∀ k q, s.listening q = true → t.awaits X k q = s.awaits X k q)
  | inserted (message : CString) (isPeer : Bool) (id : UInt32) (keyword : CString)
      (htask : task = .insertKeyword message isPeer)
      (hscan : sscanfKeyword message = some (id, keyword))
      (hself : (t.replica p).peer.photo_list = listUpdate (s.replica p).peer.photo_list (setData [] id)
        (fun aux => { aux with keyword := aux.keyword ++ [keyword] }))
      (hothers : ∀ q, q ≠ p → (t.replica q).peer.photo_list = (s.replica q).peer.photo_list)
      (hawaits : ∀ k q, if isPeer = true
        then t.awaits X k q + (if q = p ∧ id = X ∧ keyword = k then 1 else 0) = s.awaits X k q
        else t.awaits X k q = s.awaits X k q + (if q ≠ p ∧ id = X ∧ keyword = k then 1 else 0))
  | dropped (id : UInt32) (keyword : CString)
      (hphotos : ∀ q, (t.replica q).peer.photo_list = (s.replica q).peer.photo_list)
      (hheld : id = X → keyword ∈ (s.replica p).keywords X)
      (hawaits : ∀ k q,
        t.awaits X k q + (if q = p ∧ id = X ∧ keyword = k then 1 else 0) = s.awaits X k q)

theorem keywordDrift_run {i : Nat} {p : DataR} {task : Task} {threads : List (DataR × Task)}
    {e : Effect} (hs : s.Connected) (hroom : s.HasRoom X (.run i)) (hin : s.InTable (.run i))
    (hfound : ∃ K, listSearch (s.replica p).peer.photo_list (setData [] X) = some K)
    (hpick : pick s.threads i = some ((p, task), threads))
    (hrun : runTask s.listening s.photo_id (s.replica p) task = some e) (hkeywords : task.OnKeywords) :
    KeywordDrift X s (s.apply p threads e) p task := by
  obtain ⟨hp, htask⟩ := hs.threads p task (pick_mem hpick)
  have hpending : ∀ k q, (s.apply p threads e).awaits X k q +
      task.pending (keywordWeight X k) (keywordWeight X k) q p =
        s.awaits X k q + e.pending (keywordWeight X k) (keywordWeight X k) q p :=
    fun k q => pending_apply _ _ q e hpick
  have hsame : e.replica.peer.photo_list = (s.replica p).peer.photo_list →
      ∀ q, ((s.apply p threads e).replica q).peer.photo_list = (s.replica q).peer.photo_list := by
    intro hphotos q
    rcases eq_or_ne q p with rfl | hqp
    · rw [apply_replica_self, hphotos]
    · rw [apply_replica_of_ne hqp]
  have hmove := runTask_move s.listening s.photo_id p (s.replica p) hrun (by
    intro news K rest hbroadcast
    rw [hbroadcast] at htask
    exact htask K List.mem_cons_self)
  cases hmove with
  | pass hphotos hid hpass =>
      refine .same (hsame hphotos) (fun k q hq => ?_)
      have := hpending k q
      rw [hpass _ _ q (takesList hs hp hq _ task)] at this
      omega
  | refuse name size bytes htask => exact (htask ▸ hkeywords).elim
  | issue name size bytes htask => exact (htask ▸ hkeywords).elim
  | insert K size bytes isPeer htask => exact (htask ▸ hkeywords).elim
  | remove message isPeer id htask => exact (htask ▸ hkeywords).elim
  | insertKeyword message isPeer id keyword htask hscan hphotos hid hsent hnext =>
      refine .inserted message isPeer id keyword htask hscan (by rw [apply_replica_self, hphotos])
        (fun q hqp => by rw [apply_replica_of_ne hqp]) (fun k q => ?_)
      have := hpending k q
      cases isPeer with
      | true =>
          have htask : task.pending (keywordWeight X k) (keywordWeight X k) q p =
              if q = p ∧ id = X ∧ keyword = k then 1 else 0 := by
            simp only [htask, Task.pending, and_true, keywordWeight_message hscan]
            by_cases hq : q = p <;> simp [hq]
          have he : e.pending (keywordWeight X k) (keywordWeight X k) q p = 0 := by
            simp [Effect.pending, hsent, hnext, keywordDone]
          rwa [htask, he] at this
      | false =>
          have htask : task.pending (keywordWeight X k) (keywordWeight X k) q p = 0 := by
            simp [htask, Task.pending]
          have he : e.pending (keywordWeight X k) (keywordWeight X k) q p =
              if q ≠ p ∧ id = X ∧ keyword = k then 1 else 0 := by
            by_cases hq : q = p <;>
              simp [Effect.pending, hsent, hnext, keywordDone, Task.pending, hq,
                keywordWeight_message hscan]
          rwa [htask, he] at this
  | overrun message isPeer htask hpast hid hsent hnext => exact absurd (hin _ (pick_get hpick)) hpast
  | dropKeyword message id keyword hscan hwhy hphotos hid hsent hnext =>
      refine .dropped id keyword (hsame hphotos) (fun hidX => ?_) (fun k q => ?_)
      · obtain ⟨K, hK⟩ := hfound
        rw [Replica.keywords, hK]
        subst hidX
        rcases hwhy with ⟨-, hnone⟩ | ⟨aux, haux, ⟨hfull, hmany⟩ | ⟨-, hmem⟩⟩
        · rw [hK] at hnone
          cases hnone
        · obtain rfl := Option.some.inj (hK.symm.trans haux)
          have hchecks : (id, keyword) ∈ task.checksFull := by
            rw [hfull]
            exact hscan
          rcases hroom (p, task) (pick_get hpick) _ hchecks rfl K hK with hlt | hmem
          · exact absurd hlt (Nat.not_lt.mpr hmany)
          · exact hmem
        · obtain rfl := Option.some.inj (hK.symm.trans haux)
          exact hmem
      · have := hpending k q
        have htask : task.pending (keywordWeight X k) (keywordWeight X k) q p =
            if q = p ∧ id = X ∧ keyword = k then 1 else 0 := by
          rcases hwhy with ⟨rfl | rfl | rfl, -⟩ | ⟨aux, -, ⟨rfl, -⟩ | ⟨rfl, -⟩⟩ <;>
            simp only [Task.pending, and_true, keywordWeight_message hscan] <;>
            by_cases hq : q = p <;> simp [hq]
        rw [htask] at this
        simpa [Effect.pending, hsent, hnext] using this

theorem keywords_of_photos {r r' : Replica} (h : r'.peer.photo_list = r.peer.photo_list) :
    r'.keywords X = r.keywords X := by
  rw [Replica.keywords, h, Replica.keywords]

theorem keywords_of_update {r r' : Replica} {id : UInt32} {keyword : CString} {K : Data}
    (hK : listSearch r.peer.photo_list (setData [] X) = some K)
    (h : r'.peer.photo_list = listUpdate r.peer.photo_list (setData [] id)
      (fun aux => { aux with keyword := aux.keyword ++ [keyword] })) :
    (∃ K, listSearch r'.peer.photo_list (setData [] X) = some K) ∧
      r'.keywords X = if id = X then r.keywords X ++ [keyword] else r.keywords X := by
  have hsearch := listSearch_listUpdate r.peer.photo_list (setData [] id) (setData [] X)
    (fun aux => { aux with keyword := aux.keyword ++ [keyword] }) (fun _ => rfl)
  rw [← h, hK] at hsearch
  rw [Replica.keywords, Replica.keywords, hK]
  by_cases hid : id = X
  · have hset : (setData [] id).id = (setData [] X).id := hid
    rw [if_pos hset] at hsearch
    rw [hsearch, if_pos hid]
    exact ⟨⟨_, rfl⟩, rfl⟩
  · have hset : (setData [] id).id ≠ (setData [] X).id := hid
    rw [if_neg hset] at hsearch
    rw [hsearch, if_neg hid]
    exact ⟨⟨_, rfl⟩, rfl⟩

-- Some peer holds the keyword.
def Cluster.Known (X : UInt32) (s : Cluster) (k : CString) : Prop :=
  ∃ p, s.listening p = true ∧ k ∈ (s.replica p).keywords X

-- Handlers add keywords only.
structure Cluster.AddsKeywords (s : Cluster) : Prop where
  connected : s.Connected
  threads : ∀ p task, (p, task) ∈ s.threads → task.OnKeywords
  packets : ∀ p packet, (p, packet) ∈ s.packets → packet.OnKeywords

-- What one peer holds the others hold or await, what is awaited is held somewhere,
-- and so is what a client was told to be in.
structure Cluster.Spread (X : UInt32) (s : Cluster) : Prop where
  found : ∀ p, s.listening p = true →
    ∃ K, listSearch (s.replica p).peer.photo_list (setData [] X) = some K
  spread : ∀ k, s.Known X k → ∀ q, s.listening q = true →
    k ∈ (s.replica q).keywords X ∨ 0 < s.awaits X k q
  sound : ∀ k q, s.listening q = true → 0 < s.awaits X k q → s.Known X k
  accepted : ∀ p message k, (p, .answerKeyword message 1) ∈ s.threads →
    sscanfKeyword message = some (X, k) → s.Known X k
  answered : ∀ message k, .keyword message 1 ∈ s.answers → sscanfKeyword message = some (X, k) →
    s.Known X k

-- The keywords after a part of a handler, and what is left to come.
structure Spreads (X : UInt32) (s t : Cluster) : Prop where
  found : ∀ q, s.listening q = true →
    ∃ K, listSearch (t.replica q).peer.photo_list (setData [] X) = some K
  kept : ∀ k, s.Known X k → t.Known X k
  spread : ∀ k, t.Known X k → ∀ q, s.listening q = true →
    k ∈ (t.replica q).keywords X ∨ 0 < t.awaits X k q
  sound : ∀ k q, s.listening q = true → 0 < t.awaits X k q → t.Known X k

theorem spreads_of_keywords (hs : s.Spread X) (hlistening : t.listening = s.listening)
    (hphotos : ∀ q, (t.replica q).peer.photo_list = (s.replica q).peer.photo_list)
    (hless : ∀ k q, s.listening q = true → t.awaits X k q ≤ s.awaits X k q)
    (hgone : ∀ k q, s.listening q = true → t.awaits X k q = s.awaits X k q ∨ k ∈ (s.replica q).keywords X) :
    Spreads X s t := by
  have hkeywords : ∀ q, (t.replica q).keywords X = (s.replica q).keywords X :=
    fun q => keywords_of_photos (hphotos q)
  have hknown : ∀ k, t.Known X k ↔ s.Known X k := by
    intro k
    simp only [Cluster.Known, hkeywords, hlistening]
  refine ⟨fun q hq => by rw [hphotos]; exact hs.found q hq, fun k => (hknown k).mpr, fun k hk q hq => ?_,
    fun k q hq hpos => (hknown k).mpr (hs.sound k q hq (hpos.trans_le (hless k q hq)))⟩
  rw [hkeywords]
  rcases hs.spread k ((hknown k).mp hk) q hq with hmem | hpos
  · exact .inl hmem
  · rcases hgone k q hq with hsame | hmem
    · exact .inr (hsame ▸ hpos)
    · exact .inl hmem

theorem spreads_of_drift {p : DataR} {task : Task} (hs : s.Spread X)
    (hlistening : t.listening = s.listening) (hp : s.listening p = true)
    (hdrift : KeywordDrift X s t p task) : Spreads X s t := by
  cases hdrift with
  | same hphotos hawaits =>
      exact spreads_of_keywords hs hlistening hphotos (fun k q hq => (hawaits k q hq).le)
        (fun k q hq => .inl (hawaits k q hq))
  | dropped id keyword hphotos hheld hawaits =>
      refine spreads_of_keywords hs hlistening hphotos (fun k q _ => ?_) (fun k q _ => ?_)
      · have := hawaits k q
        omega
      · have := hawaits k q
        by_cases hit : q = p ∧ id = X ∧ keyword = k
        · obtain ⟨rfl, hid, rfl⟩ := hit
          exact .inr (hheld hid)
        · rw [if_neg hit] at this
          exact .inl this
  | inserted message isPeer id keyword htask hscan hself hothers hawaits =>
      obtain ⟨K, hK⟩ := hs.found p hp
      obtain ⟨hfound, hkeywords⟩ := keywords_of_update hK hself
      have hkept : ∀ k q, k ∈ (s.replica q).keywords X → k ∈ (t.replica q).keywords X := by
        intro k q hk
        rcases eq_or_ne q p with rfl | hqp
        · rw [hkeywords]
          split
          · exact List.mem_append_left _ hk
          · exact hk
        · rwa [keywords_of_photos (hothers q hqp)]
      have hknown : ∀ k, s.Known X k → t.Known X k := by
        rintro k ⟨q, hq, hk⟩
        exact ⟨q, hlistening ▸ hq, hkept k q hk⟩
      have hnew : id = X → keyword ∈ (t.replica p).keywords X := by
        intro hid
        rw [hkeywords, if_pos hid]
        exact List.mem_append_right _ List.mem_cons_self
      have hnewKnown : id = X → t.Known X keyword := fun hid => ⟨p, hlistening ▸ hp, hnew hid⟩
      have hcases : ∀ k, t.Known X k → s.Known X k ∨ id = X ∧ keyword = k := by
        rintro k ⟨q, hq, hk⟩
        rw [hlistening] at hq
        rcases eq_or_ne q p with rfl | hqp
        · rw [hkeywords] at hk
          split at hk
          case isTrue hid =>
            rcases List.mem_append.mp hk with hold | hone
            · exact .inl ⟨q, hq, hold⟩
            · exact .inr ⟨hid, (List.mem_singleton.mp hone).symm⟩
          case isFalse => exact .inl ⟨q, hq, hk⟩
        · rw [keywords_of_photos (hothers q hqp)] at hk
          exact .inl ⟨q, hq, hk⟩
      refine ⟨fun q hq => ?_, hknown, fun k hk q hq => ?_, fun k q hq hpos => ?_⟩
      · rcases eq_or_ne q p with rfl | hqp
        · exact hfound
        · rw [hothers q hqp]
          exact hs.found q hq
      · cases isPeer with
        | true =>
            have hself := hawaits k p
            have := hawaits k q
            simp only [if_true] at hself this
            have hold : s.Known X k := by
              rcases hcases k hk with hold | ⟨hid, hkeyword⟩
              · exact hold
              · rw [if_pos ⟨trivial, hid, hkeyword⟩] at hself
                exact hs.sound k p hp (by omega)
            rcases hs.spread k hold q hq with hmem | hpos
            · exact .inl (hkept k q hmem)
            · by_cases hit : q = p ∧ id = X ∧ keyword = k
              · obtain ⟨rfl, hid, rfl⟩ := hit
                exact .inl (hnew hid)
              · rw [if_neg hit] at this
                exact .inr (by omega)
        | false =>
            have := hawaits k q
            simp only [Bool.false_eq_true, if_false] at this
            rcases hcases k hk with hold | ⟨hid, rfl⟩
            · rcases hs.spread k hold q hq with hmem | hpos
              · exact .inl (hkept k q hmem)
              · exact .inr (by omega)
            · rcases eq_or_ne q p with rfl | hqp
              · exact .inl (hnew hid)
              · rw [if_pos ⟨hqp, hid, rfl⟩] at this
                exact .inr (by omega)
      · have := hawaits k q
        cases isPeer with
        | true =>
            simp only [if_true] at this
            exact hknown k (hs.sound k q hq (by omega))
        | false =>
            simp only [Bool.false_eq_true, if_false] at this
            by_cases hit : q ≠ p ∧ id = X ∧ keyword = k
            · obtain ⟨-, hid, rfl⟩ := hit
              exact hnewKnown hid
            · rw [if_neg hit] at this
              exact hknown k (hs.sound k q hq (by omega))

-- A client is told 1 for a keyword that its peer holds.
theorem known_of_accepted {online : DataR → Bool} {photo_id : UInt32} {r : Replica} {e : Effect}
    {message : CString} {k : CString}
    (h : runTask online photo_id r (.insertKeyword message false) = some e)
    (hin : Task.InTable r (.insertKeyword message false))
    (hscan : sscanfKeyword message = some (X, k)) : k ∈ e.replica.keywords X := by
  obtain ⟨⟨id, keyword⟩, hscan', h⟩ := Option.bind_eq_some_iff.mp h
  obtain ⟨rfl, rfl⟩ := Prod.mk.inj (Option.some.inj (hscan.symm.trans hscan'))
  obtain ⟨aux, haux, -⟩ := roomFor_iff.mp (hin _ hscan)
  have hphotos := congrArg (fun e : Effect => e.replica.peer.photo_list) (Option.some.inj h)
  dsimp only at hphotos
  rw [if_pos (hin _ hscan)] at hphotos
  rw [(keywords_of_update haux hphotos.symm).2, if_pos rfl]
  exact List.mem_append_right _ List.mem_cons_self

theorem Spreads.next (h : Spreads X s t) (hs : s.Spread X) (hlistening : t.listening = s.listening)
    (haccepted : ∀ p message k, (p, .answerKeyword message 1) ∈ t.threads →
      sscanfKeyword message = some (X, k) → (p, .answerKeyword message 1) ∈ s.threads ∨ t.Known X k)
    (hanswered : ∀ message k, .keyword message 1 ∈ t.answers → sscanfKeyword message = some (X, k) →
      .keyword message 1 ∈ s.answers ∨ s.Known X k) : t.Spread X := by
  refine ⟨fun q hq => h.found q (hlistening ▸ hq), fun k hk q hq => h.spread k hk q (hlistening ▸ hq),
    fun k q hq => h.sound k q (hlistening ▸ hq), fun p message k hthread hscan => ?_,
    fun message k hanswer hscan => ?_⟩
  · rcases haccepted p message k hthread hscan with hold | hknown
    · exact h.kept k (hs.accepted p message k hold hscan)
    · exact hknown
  · rcases hanswered message k hanswer hscan with hold | hknown
    · exact h.kept k (hs.answered message k hold hscan)
    · exact h.kept k hknown

theorem spread_step {a : ClusterAction} (hadds : s.AddsKeywords) (hs : s.Spread X)
    (honly : s.OnlyKeywords a) (hroom : s.HasRoom X a) (hin : s.InTable a) (h : s.step a = some t) :
    t.AddsKeywords ∧ t.Spread X := by
  obtain ⟨hconnected, hlistening⟩ := connected_step hadds.connected h
  cases a with
  | call p request =>
      have hawaits : ∀ k q, t.awaits X k q = s.awaits X k q := fun k q => pending_call _ _ q h
      cases request with
      | addPhoto message bytes => exact honly.elim
      | deletePhoto message => exact honly.elim
      | addKeyword message =>
          simp only [Cluster.step, Call.task, Option.map_some] at h
          split at h
          case isFalse => cases h
          case isTrue hp =>
            obtain rfl := Option.some.inj h
            refine ⟨⟨hconnected, fun q task hmem => ?_, hadds.packets⟩, ?_⟩
            · rcases List.mem_append.mp hmem with hold | hnew
              · exact hadds.threads q task hold
              · obtain ⟨-, rfl⟩ := Prod.mk.inj (List.mem_singleton.mp hnew)
                trivial
            · have hspreads := spreads_of_keywords hs hlistening (fun _ => rfl)
                (fun k q _ => (hawaits k q).le) (fun k q _ => .inl (hawaits k q))
              refine hspreads.next hs hlistening (fun q m k hmem _ => ?_) (fun m k hmem _ => .inl hmem)
              rcases List.mem_append.mp hmem with hold | hnew
              · exact .inl hold
              · cases (Prod.mk.inj (List.mem_singleton.mp hnew)).2
  | deliver i =>
      have hawaits : ∀ k q, t.awaits X k q = s.awaits X k q := fun k q => pending_deliver _ _ q h
      obtain ⟨⟨⟨p, packet⟩, packets⟩, hpick, h⟩ := Option.bind_eq_some_iff.mp h
      obtain rfl := Option.some.inj h
      have hpacket := hadds.packets p packet (pick_mem hpick)
      cases packet with
      | keyword message =>
          refine ⟨⟨hconnected, fun q task hmem => ?_, fun q packet hmem => ?_⟩, ?_⟩
          · rcases List.mem_append.mp hmem with hold | hnew
            · exact hadds.threads q task hold
            · obtain ⟨-, rfl⟩ := Prod.mk.inj (List.mem_singleton.mp hnew)
              trivial
          · exact hadds.packets q packet (pick_rest_subset hpick hmem)
          · have hspreads := spreads_of_keywords hs hlistening (fun _ => rfl)
              (fun k q _ => (hawaits k q).le) (fun k q _ => .inl (hawaits k q))
            refine hspreads.next hs hlistening (fun q m k hmem _ => ?_) (fun m k hmem _ => .inl hmem)
            rcases List.mem_append.mp hmem with hold | hnew
            · exact .inl hold
            · cases (Prod.mk.inj (List.mem_singleton.mp hnew)).2
      | newPeer K asker => exact hpacket.elim
      | photo K bytes => exact hpacket.elim
      | delete message => exact hpacket.elim
      | deletePeer K => exact hpacket.elim
  | run i =>
      obtain ⟨⟨⟨p, task⟩, threads⟩, hpick, h⟩ := Option.bind_eq_some_iff.mp h
      obtain ⟨e, hrun, h⟩ := Option.bind_eq_some_iff.mp h
      obtain rfl := Option.some.inj h
      have hthread := pick_mem hpick
      obtain ⟨hp, -⟩ := hadds.connected.threads p task hthread
      have htask := hadds.threads p task hthread
      have heffect := runTask_keywords hrun htask
      have hdrift := keywordDrift_run hadds.connected hroom hin (hs.found p hp) hpick hrun htask
      refine ⟨⟨hconnected, fun q other hmem => ?_, fun q packet hmem => ?_⟩,
        (spreads_of_drift (t := s.apply p threads e) hs rfl hp hdrift).next hs rfl
          (fun q message k hmem hscan => ?_) (fun message k hmem hscan => ?_)⟩
      · rcases List.mem_append.mp hmem with hold | hnew
        · exact hadds.threads q other (pick_rest_subset hpick hold)
        · obtain ⟨next, hnext, heq⟩ := Option.map_eq_some_iff.mp (Option.mem_toList.mp hnew)
          obtain ⟨rfl, rfl⟩ := Prod.mk.inj heq
          exact heffect.next next hnext
      · rcases List.mem_append.mp hmem with hold | hnew
        · exact hadds.packets q packet hold
        · exact heffect.sent q packet hnew
      · rcases List.mem_append.mp hmem with hold | hnew
        · exact .inl (pick_rest_subset hpick hold)
        · obtain ⟨next, hnext, heq⟩ := Option.map_eq_some_iff.mp (Option.mem_toList.mp hnew)
          obtain ⟨rfl, rfl⟩ := Prod.mk.inj heq
          have hinserts := heffect.accepted message hnext
          rw [hinserts] at hrun
          have hheld := known_of_accepted hrun (hinserts ▸ hin _ (pick_get hpick)) hscan
          exact .inr ⟨p, hp, by rwa [apply_replica_self]⟩
      · rcases List.mem_append.mp hmem with hold | hnew
        · exact .inl hold
        · rw [heffect.answers message hnew] at hthread
          exact .inr (hs.accepted p message k hthread hscan)

-- Nobody is at work, and all peers hold the photo with the same keywords.
structure Cluster.Shares (X : UInt32) (s : Cluster) : Prop where
  connected : s.Connected
  quiet : s.Quiet
  unanswered : s.answers = []
  found : ∀ p, s.listening p = true →
    ∃ K, listSearch (s.replica p).peer.photo_list (setData [] X) = some K
  keywords : ∀ p q k, s.listening p = true → s.listening q = true →
    k ∈ (s.replica p).keywords X → k ∈ (s.replica q).keywords X

-- When all is done all peers hold the same keywords of the photo, and each one a
-- client was told to be in.
theorem keywords_converge (X : UInt32) (start s : Cluster) (hstart : start.Shares X)
    (hrun : Reaches Cluster.step (fun s a => s.OnlyKeywords a ∧ s.HasRoom X a ∧ s.InTable a) start s)
    (hquiet : s.Quiet) :
    (∀ p q k, s.listening p = true → s.listening q = true →
      (k ∈ (s.replica p).keywords X ↔ k ∈ (s.replica q).keywords X)) ∧
    (∀ message k p, .keyword message 1 ∈ s.answers → sscanfKeyword message = some (X, k) →
      s.listening p = true → k ∈ (s.replica p).keywords X) := by
  have hinv : s.AddsKeywords ∧ s.Spread X := by
    refine hrun.invariant (I := fun s => s.AddsKeywords ∧ s.Spread X) ⟨?_, ?_⟩
      (fun s a t hs hok h => spread_step hs.1 hs.2 hok.1 hok.2.1 hok.2.2 h)
    · refine ⟨hstart.connected, fun p task h => ?_, fun p packet h => ?_⟩
      · rw [hstart.quiet.1] at h
        cases h
      · rw [hstart.quiet.2] at h
        cases h
    · have hnone : ∀ k q, start.awaits X k q = 0 := fun k q => quiet_pending hstart.quiet _ _ q
      refine ⟨hstart.found, fun k hk q hq => ?_, fun k q _ hpos => ?_, fun p message k h => ?_,
        fun message k h => ?_⟩
      · obtain ⟨p, hp, hmem⟩ := hk
        exact .inl (hstart.keywords p q k hp hq hmem)
      · rw [hnone] at hpos
        cases hpos
      · rw [hstart.quiet.1] at h
        cases h
      · rw [hstart.unanswered] at h
        cases h
  obtain ⟨-, hspread⟩ := hinv
  have hall : ∀ k, s.Known X k → ∀ q, s.listening q = true → k ∈ (s.replica q).keywords X := by
    intro k hk q hq
    rcases hspread.spread k hk q hq with hmem | hpos
    · exact hmem
    · have hnone : s.awaits X k q = 0 := quiet_pending hquiet _ _ q
      rw [hnone] at hpos
      cases hpos
  exact ⟨fun p q k hp hq => ⟨fun hk => hall k ⟨p, hp, hk⟩ q hq, fun hk => hall k ⟨q, hq, hk⟩ p hp⟩,
    fun message k p hanswer hscan hp => hall k (hspread.answered message k hanswer hscan) p hp⟩

theorem among_shares {peers : List DataR} (hpeers : peers.Nodup) {peer : Peer} (photo_id : UInt32)
    {K : Data} (hK : listSearch peer.photo_list (setData [] X) = some K) :
    (Cluster.among peers peer photo_id).Shares X :=
  ⟨among_connected hpeers peer photo_id, ⟨rfl, rfl⟩, rfl, fun _ _ => ⟨K, hK⟩, fun _ _ _ _ _ h => h⟩

instance (s : Cluster) (a : ClusterAction) : Decidable (s.OnlyKeywords a) :=
  match a with
  | .call _ (.addKeyword _) => isTrue trivial
  | .call _ (.addPhoto _ _) => isFalse id
  | .call _ (.deletePhoto _) => isFalse id
  | .run _ => isTrue trivial
  | .deliver _ => isTrue trivial

instance (s : Cluster) (a : ClusterAction) : Decidable (s.HasRoom X a) :=
  match a with
  | .run i => inferInstanceAs (Decidable (∀ a ∈ s.threads[i]?, ∀ k ∈ a.2.checksFull, k.1 = X →
      ∀ aux ∈ listSearch (s.replica a.1).peer.photo_list (setData [] X),
        aux.n_keywords < MAX_KEYWORDS ∨ k.2 ∈ aux.keyword))
  | .call _ _ => isTrue trivial
  | .deliver _ => isTrue trivial

def twoPorts : List DataR := [localPeer 3001, localPeer 3002]

-- Two peers that hold a photo with some one-letter keywords.
def tagged (n : Nat) : Cluster :=
  Cluster.among twoPorts ⟨[⟨[112], 1, (List.range n).map (fun i => [UInt8.ofNat (97 + i)])⟩], fun _ => none⟩ 1

-- One client each adds a keyword, the two handlers taking turns.
def bothAdd : List ClusterAction :=
  .call (localPeer 3001) (.addKeyword [49, 46, 120]) ::
    .call (localPeer 3002) (.addKeyword [49, 46, 121]) ::
    List.replicate 16 (.run 0) ++ [.deliver 0, .deliver 0]

def lastTags (r : Replica) : List CString := (r.keywords 1).drop 18

theorem lastPlace_diverges :
    (tagged 19).Shares 1 ∧
      ∃ s, execute Cluster.step Cluster.OnlyKeywords (tagged 19) (bothAdd ++ List.replicate 4 (.run 0)) =
          some s ∧
        s.outcome twoPorts lastTags = ⟨0, 0, [true, true], [[[115], [120]], [[115], [121]]],
          [.keyword [49, 46, 120] 1, .keyword [49, 46, 121] 1]⟩ :=
  ⟨among_shares (by decide) 1 rfl, Option.map_eq_some_iff.mp (by decide +kernel)⟩

theorem keywords_converge_twoPlaces :
    ∃ s, execute Cluster.step (fun s a => s.OnlyKeywords a ∧ s.HasRoom 1 a ∧ s.InTable a) (tagged 18)
        (bothAdd ++ List.replicate 8 (.run 0)) = some s ∧
      s.outcome twoPorts lastTags = ⟨0, 0, [true, true], [[[120], [121]], [[121], [120]]],
        [.keyword [49, 46, 120] 1, .keyword [49, 46, 121] 1]⟩ ∧
      ∀ k, k ∈ (s.replica (localPeer 3001)).keywords 1 ↔ k ∈ (s.replica (localPeer 3002)).keywords 1 := by
  obtain ⟨s, hs, hend⟩ : ∃ s,
      execute Cluster.step (fun s a => s.OnlyKeywords a ∧ s.HasRoom 1 a ∧ s.InTable a) (tagged 18)
          (bothAdd ++ List.replicate 8 (.run 0)) = some s ∧
        s.outcome twoPorts lastTags = ⟨0, 0, [true, true], [[[120], [121]], [[121], [120]]],
          [.keyword [49, 46, 120] 1, .keyword [49, 46, 121] 1]⟩ :=
    Option.map_eq_some_iff.mp (by decide +kernel)
  refine ⟨s, hs, hend, fun k => ?_⟩
  obtain ⟨hquiet, hlistening⟩ := outcome_quiet hend
  simp only [twoPorts, List.map_cons, List.map_nil, List.cons.injEq] at hlistening
  exact (keywords_converge 1 (tagged 18) s (among_shares (by decide) 1 rfl)
    (reaches_of_execute _ hs) hquiet).1 _ _ k hlistening.1 hlistening.2.1

end Spread

end Gallery
