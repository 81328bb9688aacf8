import Gallery.Membership.Rings
import Mathlib.Data.List.Perm.Basic

namespace Gallery

open Text

-- The identities peers have: a dotted address and a port.
structure Identity (K : DataR) : Prop where
  nonempty : K.addr ≠ []
  noComma : 44 ∉ K.addr
  noNul : 0 ∉ K.addr
  length : K.addr.length ≤ 15
  port_nonneg : 0 ≤ K.port.toInt
  port_lt : K.port.toInt < 65536

section Texts

variable {K : DataR} (hK : Identity K)

include hK

theorem Identity.toNat_port : K.port.toUInt32.toNat = K.port.toInt.toNat :=
  Int32.toNat_toUInt32_of_le (Int32.le_iff_toInt_le.mpr (by simpa using hK.port_nonneg))

-- Both formats print a port alike.
theorem identityText_eq : identityText K = peerIdText K := by
  have habs : K.port.toInt.natAbs = K.port.toInt.toNat := by
    have := hK.port_nonneg
    omega
  rw [identityText, peerIdText, decimalInt, if_neg (Int.not_lt.mpr hK.port_nonneg), hK.toNat_port,
    habs]

theorem length_peerIdText : (peerIdText K).length < MESSAGE_SIZE := by
  have hport : (decimal K.port.toUInt32.toNat).length ≤ 5 := by
    apply length_decimal_le (by decide)
    have := hK.port_lt
    rw [hK.toNat_port]
    omega
  have haddr := hK.length
  simp only [peerIdText, MESSAGE_SIZE, List.length_append, List.length_cons]
  omega

theorem nul_notMem_peerIdText : 0 ∉ peerIdText K := by
  simp [peerIdText, hK.noNul, nul_notMem_decimal]

theorem fill_peerIdText (buff : MessagePhoto) (type : Int32) :
    ∃ m, MessagePhoto.fill buff (peerIdText K) type = some m ∧ m.text = peerIdText K ∧
      m.type = type := by
  have hfits : (peerIdText K).length < MAX_SIZE :=
    Nat.lt_trans (length_peerIdText hK) (by decide)
  obtain ⟨m, hm⟩ := MessagePhoto.exists_fill hfits buff type
  exact ⟨m, hm, MessagePhoto.text_of_fill (nul_notMem_peerIdText hK) hm⟩

-- Both decoders give back the identity that was written.
theorem introducedPeer_text : introducedPeer (identityText K) = some K := by
  have hlt : K.port.toUInt32.toNat < 2 ^ 31 := by
    have := hK.port_lt
    rw [hK.toNat_port]
    omega
  have hscan := scanInt_decimal K.port.toUInt32.toNat [] hlt (stops_nil _)
  have hport : Int32.ofNat K.port.toUInt32.toNat = K.port :=
    congrArg UInt32.toInt32 (UInt32.ofNat_toNat (x := K.port.toUInt32))
  have haddr : K.addr.length < ADDR_SIZE := Nat.lt_of_le_of_lt hK.length (by decide)
  rw [List.append_nil, hport] at hscan
  rw [identityText_eq hK]
  simp only [introducedPeer, peerIdText, scanUntil_append 44 K.addr _ hK.nonempty hK.noComma,
    Option.bind_eq_bind, Option.bind_some, scanLiteral_cons, hscan, if_pos haddr]
  rfl

theorem namedPeer_text (held : DataR) : namedPeer held (peerIdText K) = some K := by
  have hscan := scanUInt_decimal K.port.toUInt32 [] (stops_nil _)
  have haddr : K.addr.length < ADDR_SIZE := Nat.lt_of_le_of_lt hK.length (by decide)
  rw [List.append_nil] at hscan
  simp only [namedPeer, peerIdText, scanUntil_append 44 K.addr _ hK.nonempty hK.noComma,
    Option.bind_some, scanLiteral_cons, hscan, if_pos haddr]
  rfl

theorem registerPeer_text (p : Process) : registerPeer p (peerIdText K) = p.append K := by
  rw [← identityText_eq hK, registerPeer, introducedPeer_text hK, Option.bind_eq_bind,
    Option.bind_some]

theorem deletePeer_text (held : DataR) (p : Process) :
    deletePeer held p (peerIdText K) = p.remove K := by
  rw [deletePeer, namedPeer_text hK, Option.bind_eq_bind, Option.bind_some]

end Texts

section Delivery

variable {held : DataR} {peers : DataR → Option Process}

theorem deliverAll_eq (messages : List (DataR × MessagePhoto))
    (hnodup : (messages.map Prod.fst).Nodup)
    (hok : ∀ km ∈ messages, ∃ p p', peers km.1 = some p ∧ connectionPeers held p km.2 = some p') :
    ∃ peers', deliverAll held peers messages = some peers' ∧
      (∀ K, K ∉ messages.map Prod.fst → peers' K = peers K) ∧
      ∀ km ∈ messages, ∃ p p', peers km.1 = some p ∧ connectionPeers held p km.2 = some p' ∧
        peers' km.1 = some p' := by
  induction messages generalizing peers with
  | nil => exact ⟨peers, rfl, by simp, by simp⟩
  | cons km rest ih =>
      obtain ⟨K, m⟩ := km
      obtain ⟨hnotmem, hnodup'⟩ := List.nodup_cons.mp hnodup
      obtain ⟨p, p', hp, hp'⟩ := hok (K, m) (by simp)
      have hother : ∀ km ∈ rest, Function.update peers K (some p') km.1 = peers km.1 := by
        intro km hkm
        have hne : km.1 ≠ K := fun he => hnotmem (List.mem_map.mpr ⟨km, hkm, he⟩)
        rw [Function.update_of_ne hne]
      have hok' : ∀ km ∈ rest, ∃ p1 p1', Function.update peers K (some p') km.1 = some p1 ∧
          connectionPeers held p1 km.2 = some p1' := by
        intro km hkm
        rw [hother km hkm]
        exact hok km (List.mem_cons_of_mem _ hkm)
      obtain ⟨peers', hcall, hsame, hdone⟩ := ih hnodup' hok'
      refine ⟨peers', by simp [deliverAll, hp, hp', hcall], ?_, ?_⟩
      · intro K' hK'
        rw [List.map_cons, List.mem_cons, not_or] at hK'
        rw [hsame K' hK'.2, Function.update_of_ne hK'.1]
      · intro km hkm
        rcases List.mem_cons.mp hkm with rfl | hkm
        · exact ⟨p, p', hp, hp', by rw [hsame K hnotmem, Function.update_self]⟩
        · obtain ⟨p1, p1', h1, h2, h3⟩ := hdone km hkm
          exact ⟨p1, p1', (hother km hkm) ▸ h1, h2, h3⟩

end Delivery

-- A peer's list: its own identity first, then the other members in any order.
def Process.AgreesWith (p : Process) (K : DataR) (members : List DataR) : Prop :=
  ∃ xs, p.Holds (K :: xs) ∧ (K :: xs).Perm members

-- What all the lists of peers have in common: the gateway's has no duplicates and
-- names the peers that listen; theirs hold the same entries.
structure Agreement (s : System) (members : List DataR) : Prop where
  gateway : s.gateway.Holds members
  nodup : members.Nodup
  identity : ∀ K ∈ members, Identity K
  online : ∀ K, (s.peers K).isSome = true ↔ K ∈ members
  peers : ∀ K p, s.peers K = some p → p.AgreesWith K members

theorem agreement_start : Agreement System.start [] :=
  ⟨holds_start, List.nodup_nil, by simp, by simp [System.start], by simp [System.start]⟩

-- A broadcast whose messages all do the same at whoever gets them.
theorem deliverAll_agree (held : DataR) (peers : DataR → Option Process) {members : List DataR}
    (members' : List DataR) (messages : List (DataR × MessagePhoto)) (op : Process → Option Process)
    (hnodup : (messages.map Prod.fst).Nodup)
    (hop : ∀ km ∈ messages, ∀ q, connectionPeers held q km.2 = op q)
    (hpeers : ∀ km ∈ messages, ∃ q, peers km.1 = some q ∧ q.AgreesWith km.1 members)
    (hstep : ∀ km ∈ messages, ∀ q, q.AgreesWith km.1 members →
      ∃ q', op q = some q' ∧ q'.AgreesWith km.1 members') :
    ∃ peers', deliverAll held peers messages = some peers' ∧
      (∀ K, K ∉ messages.map Prod.fst → peers' K = peers K) ∧
      ∀ K ∈ messages.map Prod.fst, ∃ q, peers' K = some q ∧ q.AgreesWith K members' := by
  obtain ⟨peers', hdeliver, hother, htold⟩ := deliverAll_eq messages hnodup (by
    intro km hkm
    obtain ⟨q, hq, hagree⟩ := hpeers km hkm
    obtain ⟨q', hq', -⟩ := hstep km hkm q hagree
    exact ⟨q, q', hq, (hop km hkm q).trans hq'⟩)
  refine ⟨peers', hdeliver, hother, ?_⟩
  intro K hK
  obtain ⟨km, hkm, rfl⟩ := List.mem_map.mp hK
  obtain ⟨q, q', hq, hcall, hq'⟩ := htold km hkm
  obtain ⟨q1, hq1, hagree⟩ := hpeers km hkm
  obtain rfl := Option.some.inj (hq.symm.trans hq1)
  obtain ⟨q2, hq2, hagree'⟩ := hstep km hkm q hagree
  obtain rfl := Option.some.inj ((hcall.symm.trans (hop km hkm q)).trans hq2)
  exact ⟨q', hq', hagree'⟩

section Messages

variable {members : List DataR} (buff : MessagePhoto) (held : DataR) {K : DataR}

-- Both types introduce the new peer in the same way.
theorem fillCalls_eq (hK : Identity K) (calls : List (DataR × Int32))
    (htypes : ∀ call ∈ calls, call.2 = 7 ∨ call.2 = 8) :
    ∃ messages, calls.mapM (fun (k, type) =>
        (MessagePhoto.fill buff (identityText K) type).map (fun m => (k, m))) = some messages ∧
      messages.map Prod.fst = calls.map Prod.fst ∧
      ∀ km ∈ messages, ∀ q : Process, connectionPeers held q km.2 = q.append K := by
  induction calls with
  | nil => exact ⟨[], rfl, rfl, by simp⟩
  | cons call calls ih =>
      obtain ⟨k, type⟩ := call
      obtain ⟨messages, hcalls, hkeys, hsame⟩ := ih (fun call h => htypes call (by simp [h]))
      obtain ⟨m, hfill, htext, htype⟩ := fill_peerIdText hK buff type
      have hm : ∀ q : Process, connectionPeers held q m = q.append K := by
        intro q
        rw [← registerPeer_text hK q, ← htext, connectionPeers, htype]
        rcases htypes (k, type) (by simp) with h | h
        all_goals
          obtain rfl : type = _ := h
          rfl
      refine ⟨(k, m) :: messages, ?_, ?_, ?_⟩
      · rw [← identityText_eq hK] at hfill
        simp [hfill, hcalls]
      · simp [hkeys]
      · intro km hkm q
        rcases List.mem_cons.mp hkm with rfl | hkm
        · exact hm q
        · exact hsame km hkm q

theorem notifyPeers_eq {p : Process} {xs : List DataR} (hK : Identity K) (hp : p.Holds (K :: xs))
    (hlen : xs.length + 1 < 2 ^ 31) :
    ∃ messages, notifyPeers buff p = some messages ∧ messages.map Prod.fst = xs ∧
      ∀ km ∈ messages, ∀ q : Process, connectionPeers held q km.2 = q.append K := by
  obtain ⟨ns, hc, hns⟩ := hp
  have hcount := ringCount_circle hc
  cases ns with
  | nil => simp at hns
  | cons n ns =>
      obtain ⟨rfl, rfl⟩ := List.cons.inj hns
      have hroot : p.peer_list = some n.1 := hc.root_eq
      have hkey := hc.key n (by simp)
      rw [hroot] at hcount hc
      have hone : Int32.ofNat (n :: ns).length = 1 ↔ (n :: ns).length = 1 :=
        ofNat_inj (by simpa [entries] using hlen) (by decide)
      simp only [notifyPeers, hroot, hcount, hone, Option.bind_eq_bind, Option.bind_some]
      cases ns with
      | nil => exact ⟨[], by simp, rfl, by simp⟩
      | cons v ns =>
          have hnext : p.heap.next n.1 = some v.1 := (@Circle.next_cons _ _ [] _ _ _ _ _ _ hc).1
          have hlen := hc.length_le
          obtain ⟨calls, hcalls, hkeys, htypes⟩ := notifyLoop_eq hc p.heap.brk [n] ns v rfl false
            hlen (by simp)
          obtain ⟨messages, hfill, hsame, hall⟩ := fillCalls_eq buff held hK calls htypes
          refine ⟨messages, ?_, hsame.trans hkeys, hall⟩
          rw [if_neg (by simp), hkey, Option.bind_some, hnext, Option.bind_some, hcalls,
            Option.bind_some]
          exact hfill

end Messages

section Events

variable {s : System} {members : List DataR} (hs : Agreement s members) (buff : MessagePhoto)
  (held : DataR) {K : DataR}

include hs

theorem Agreement.find {k : DataR} (hk : k ∈ members) :
    ∃ q, s.peers k = some q ∧ q.AgreesWith k members := by
  obtain ⟨q, hq⟩ := Option.isSome_iff_exists.mp ((hs.online k).mpr hk)
  exact ⟨q, hq, hs.peers k q hq⟩

theorem Agreement.absent {k : DataR} (hk : k ∉ members) : s.peers k = none := by
  rw [← Option.not_isSome_iff_eq_none, hs.online]
  exact hk

-- The new peer ends up last everywhere but in its own list.
theorem join_agreement (hK : Identity K) (hnew : K ∉ members) (hfew : members.length < MAX_MEMBERS) :
    ∃ s', s.join buff held K = some s' ∧ Agreement s' (members ++ [K]) := by
  have hlisten : members.filter s.online = members :=
    List.filter_eq_self.mpr (fun k hk => (hs.online k).mpr hk)
  obtain ⟨g', hregister, hg'⟩ := gatewayRegister_holds hs.gateway s.online K
  rw [hlisten] at hregister hg'
  obtain ⟨p, hrecv, hp⟩ := recvRingUdp_start (members ++ [K])
  obtain ⟨p', hreroot, hp'⟩ := reroot_holds hp
  have hlen : (members ++ [K]).length ≤ MAX_MEMBERS := by
    rw [List.length_append]
    exact hfew
  have hsend := (sendRingUdp_of_length hg' (Nat.lt_of_le_of_lt hlen (by decide))).trans (if_pos hlen)
  obtain ⟨messages, hnotify, hkeys, hsame⟩ := notifyPeers_eq buff held hK hp'
    (Nat.lt_of_le_of_lt hfew (by decide))
  have hmem : ∀ km ∈ messages, km.1 ∈ members := fun km hkm => hkeys ▸ List.mem_map_of_mem hkm
  obtain ⟨peers', hdeliver, hother, htold⟩ := deliverAll_agree held s.peers (members ++ [K]) messages
    (fun q => q.append K) (hkeys ▸ hs.nodup) hsame (fun km hkm => hs.find (hmem km hkm)) (by
      rintro km - q ⟨xs, hholds, hperm⟩
      obtain ⟨q', hq', hholds'⟩ := append_holds hholds K
      exact ⟨q', hq', xs ++ [K], hholds', hperm.append_right [K]⟩)
  rw [hkeys] at hother htold
  refine ⟨⟨g', Function.update peers' K (some p')⟩, ?_, hg', ?_, ?_, ?_, ?_⟩
  · simp only [System.join, hregister, hsend, hrecv, hreroot, hnotify, hdeliver, Option.bind_eq_bind,
      Option.bind_some]
  · refine List.nodup_append.mpr ⟨hs.nodup, by simp, ?_⟩
    intro a ha b hb
    obtain rfl := List.mem_singleton.mp hb
    exact fun hab => hnew (hab ▸ ha)
  · intro k hk
    rcases List.mem_append.mp hk with hk | hk
    · exact hs.identity k hk
    · obtain rfl := List.mem_singleton.mp hk
      exact hK
  · intro k
    by_cases hkK : k = K
    · simp [hkK]
    · change (Function.update peers' K (some p') k).isSome = true ↔ _
      rw [Function.update_of_ne hkK, List.mem_append, List.mem_singleton, or_iff_left hkK]
      by_cases hk : k ∈ members
      · obtain ⟨q, hq, -⟩ := htold k hk
        simp [hq, hk]
      · simp [hother k hk, hs.absent hk, hk]
  · intro k q hq
    change Function.update peers' K (some p') k = some q at hq
    by_cases hkK : k = K
    · subst hkK
      rw [Function.update_self, Option.some.injEq] at hq
      subst hq
      exact ⟨members, hp', (List.perm_append_singleton k members).symm⟩
    · rw [Function.update_of_ne hkK] at hq
      by_cases hk : k ∈ members
      · obtain ⟨q', hq', hagree⟩ := htold k hk
        obtain rfl := Option.some.inj (hq.symm.trans hq')
        exact hagree
      · rw [hother k hk, hs.absent hk] at hq
        cases hq

-- The gateway stops at a list that it cannot send.
theorem join_too_many (held : DataR) (hfull : members.length = MAX_MEMBERS) :
    s.join buff held K = none := by
  have hlisten : members.filter s.online = members :=
    List.filter_eq_self.mpr (fun k hk => (hs.online k).mpr hk)
  obtain ⟨g', hregister, hg'⟩ := gatewayRegister_holds hs.gateway s.online K
  rw [hlisten] at hg'
  have hlen : (members ++ [K]).length = MAX_MEMBERS + 1 := by simp [hfull]
  have hsend : sendRingUdp g' = none := by
    rw [sendRingUdp_of_length hg' (by rw [hlen]; decide), if_neg (by omega)]
  simp [System.join, hregister, hsend]

-- A peer that leaves is never the root of another one's list.
theorem leave_agreement (hK : K ∈ members) :
    ∃ s', s.leave buff held K = some s' ∧ Agreement s' (members.erase K) := by
  obtain ⟨g', hremove, hg'⟩ := remove_holds hs.gateway K
  have hident := hs.identity K hK
  have hnodup := hs.nodup.erase K
  have hstay : ∀ k, k ∈ members.erase K ↔ k ≠ K ∧ k ∈ members :=
    fun k => hs.nodup.mem_erase_iff
  let rest : DataR → Option Process := Function.update s.peers K none
  have hrest : ∀ k ∈ members.erase K, rest k = s.peers k :=
    fun k hk => Function.update_of_ne ((hstay k).mp hk).1 _ _
  have hgone : ∀ k, k ∉ members.erase K → rest k = none := by
    intro k hk
    by_cases hkK : k = K
    · rw [hkK]
      exact Function.update_self _ _ _
    · have hk' : k ∉ members := fun h => hk ((hstay k).mpr ⟨hkK, h⟩)
      exact (Function.update_of_ne hkK _ _).trans (hs.absent hk')
  have hlisten : (members.erase K).filter (System.online ⟨g', rest⟩) = members.erase K := by
    apply List.filter_eq_self.mpr
    intro k hk
    change (rest k).isSome = true
    rw [hrest k hk]
    exact (hs.online k).mpr ((hstay k).mp hk).2
  have htold := broadcastPeers_holds hg' (System.online ⟨g', rest⟩)
  rw [hlisten] at htold
  obtain ⟨m, hfill, htext, htype⟩ := fill_peerIdText hident buff 12
  let messages := (members.erase K).map (fun k => (k, m))
  have hkeys : messages.map Prod.fst = members.erase K := by
    simp [messages, Function.comp_def]
  have hmem : ∀ km ∈ messages, km.1 ∈ members.erase K := fun km hkm => hkeys ▸ List.mem_map_of_mem hkm
  obtain ⟨peers', hdeliver, hother, hagree⟩ := deliverAll_agree held rest (members.erase K) messages
    (fun q => q.remove K) (hkeys ▸ hnodup) (by
      intro km hkm q
      obtain ⟨k, -, rfl⟩ := List.mem_map.mp hkm
      rw [← deletePeer_text hident held q, ← htext, connectionPeers, htype]
      rfl) (by
      intro km hkm
      rw [hrest km.1 (hmem km hkm)]
      exact hs.find ((hstay km.1).mp (hmem km hkm)).2) (by
      rintro km hkm q ⟨xs, hholds, hperm⟩
      obtain ⟨q', hq', hholds'⟩ := remove_holds hholds K
      have hne := ((hstay km.1).mp (hmem km hkm)).1
      have herase : (km.1 :: xs).erase K = km.1 :: xs.erase K :=
        List.erase_cons_tail (by simpa using hne)
      rw [herase] at hholds'
      exact ⟨q', hq', xs.erase K, hholds', herase ▸ hperm.erase K⟩)
  rw [hkeys] at hother hagree
  refine ⟨⟨g', peers'⟩, ?_, hg', hnodup, ?_, ?_, ?_⟩
  · simp only [System.leave, hremove, Option.bind_eq_bind, Option.bind_some,
      if_pos (length_peerIdText hident), hfill]
    rw [htold, Option.bind_some]
    change (deliverAll held rest messages).bind _ = _
    rw [hdeliver, Option.bind_some]
  · exact fun k hk => hs.identity k ((hstay k).mp hk).2
  · intro k
    by_cases hk : k ∈ members.erase K
    · obtain ⟨q, hq, -⟩ := hagree k hk
      simp [hq, hk]
    · simp [hother k hk, hgone k hk, hk]
  · intro k q hq
    by_cases hk : k ∈ members.erase K
    · obtain ⟨q', hq', hag⟩ := hagree k hk
      obtain rfl := Option.some.inj (hq.symm.trans hq')
      exact hag
    · cases (hgone k hk).symm.trans ((hother k hk).symm.trans hq)

end Events

section Runs

def membersAfter (members : List DataR) : Membership → List DataR
  | .join K => members ++ [K]
  | .leave K => members.erase K

-- A peer joins with an identity no registered peer has; only registered peers leave.
def ValidEvents : List DataR → List Membership → Prop
  | _, [] => True
  | members, .join K :: rest =>
      Identity K ∧ K ∉ members ∧ ValidEvents (membersAfter members (.join K)) rest
  | members, .leave K :: rest => K ∈ members ∧ ValidEvents (membersAfter members (.leave K)) rest

-- Never more members than a new peer can be told of.
def FewMembers (members : List DataR) (events : List Membership) : Prop :=
  ∀ before, before <+: events → (before.foldl membersAfter members).length ≤ MAX_MEMBERS

theorem FewMembers.tail {members : List DataR} {e : Membership} {rest : List Membership}
    (h : FewMembers members (e :: rest)) : FewMembers (membersAfter members e) rest :=
  fun before hbefore => h (e :: before) ((List.prefix_cons_inj e).mpr hbefore)

variable (buff : MessagePhoto) (held : DataR)

theorem run_agreement {s : System} {members : List DataR} (hs : Agreement s members)
    (events : List Membership) (hevents : ValidEvents members events)
    (hfew : FewMembers members events) :
    ∃ s', s.run buff held events = some s' ∧ Agreement s' (events.foldl membersAfter members) := by
  induction events generalizing s members with
  | nil => exact ⟨s, rfl, hs⟩
  | cons e rest ih =>
      obtain ⟨s1, hstep, hs1, hrest⟩ : ∃ s1, s.event buff held e = some s1 ∧
          Agreement s1 (membersAfter members e) ∧ ValidEvents (membersAfter members e) rest := by
        cases e with
        | join K =>
            obtain ⟨hK, hnew, hrest⟩ := hevents
            have hlen := hfew [.join K] (by simp)
            obtain ⟨s1, hstep, hs1⟩ := join_agreement hs buff held hK hnew
              (by simpa [membersAfter, Nat.succ_le_iff] using hlen)
            exact ⟨s1, hstep, hs1, hrest⟩
        | leave K =>
            obtain ⟨hK, hrest⟩ := hevents
            obtain ⟨s1, hstep, hs1⟩ := leave_agreement hs buff held hK
            exact ⟨s1, hstep, hs1, hrest⟩
      obtain ⟨s', hrun, hs'⟩ := ih hs1 hrest hfew.tail
      exact ⟨s', by simp [System.run, hstep, hrun], hs'⟩

-- Every event of a run is carried out, and all lists agree after each of them.
theorem membership_agreement (events : List Membership) (hevents : ValidEvents [] events)
    (hfew : FewMembers [] events) :
    ∃ s, System.start.run buff held events = some s ∧
      Agreement s (events.foldl membersAfter []) :=
  run_agreement buff held agreement_start events hevents hfew

theorem length_membersAfter_le (members : List DataR) (e : Membership) :
    (membersAfter members e).length ≤ members.length + 1 := by
  cases e with
  | join K => simp [membersAfter]
  | leave K => exact Nat.le_succ_of_le List.length_erase_le

theorem length_foldl_membersAfter_le (members : List DataR) (events : List Membership) :
    (events.foldl membersAfter members).length ≤ members.length + events.length := by
  induction events generalizing members with
  | nil => exact Nat.le_refl _
  | cons e rest ih =>
      have hrest := ih (membersAfter members e)
      have hone := length_membersAfter_le members e
      rw [List.foldl_cons, List.length_cons]
      omega

theorem fewMembers_of_length {events : List Membership} (h : events.length ≤ MAX_MEMBERS) :
    FewMembers [] events := by
  intro before hbefore
  have hle := length_foldl_membersAfter_le [] before
  have hprefix := hbefore.length_le
  rw [List.length_nil] at hle
  omega

-- The second of three peers leaves, and another one joins after that.
theorem membership_agreement_fourPeers :
    let peer (port : Int32) : DataR := ⟨[49], port⟩
    ∃ s, System.start.run ⟨List.replicate MAX_SIZE 0, 0, rfl⟩ ⟨[], 0⟩ [.join (peer 3001), .join (peer 3002),
        .join (peer 3003), .leave (peer 3002), .join (peer 3004)] = some s ∧
      Agreement s [peer 3001, peer 3003, peer 3004] := by
  have hidentity : ∀ port ∈ ([3001, 3002, 3003, 3004] : List Int32), Identity ⟨[49], port⟩ := by
    intro port hport
    simp only [List.mem_cons, List.not_mem_nil, or_false] at hport
    rcases hport with rfl | rfl | rfl | rfl
    all_goals exact ⟨by decide, by decide, by decide, by decide, by decide, by decide⟩
  exact membership_agreement _ _ [.join ⟨[49], 3001⟩, .join ⟨[49], 3002⟩, .join ⟨[49], 3003⟩,
      .leave ⟨[49], 3002⟩, .join ⟨[49], 3004⟩]
    ⟨hidentity 3001 (by simp), by decide, hidentity 3002 (by simp), by decide,
      hidentity 3003 (by simp), by decide, by decide, hidentity 3004 (by simp), by decide, trivial⟩
    (fewMembers_of_length (by decide))

end Runs

section Crowds

theorem validEvents_joins {members ks : List DataR} (hident : ∀ K ∈ ks, Identity K)
    (hnodup : (members ++ ks).Nodup) : ValidEvents members (ks.map .join) := by
  induction ks generalizing members with
  | nil => trivial
  | cons K ks ih =>
      refine ⟨hident K (by simp), ?_, ih (fun k hk => hident k (by simp [hk])) ?_⟩
      · intro hmem
        exact List.disjoint_of_nodup_append hnodup hmem (by simp)
      · rwa [membersAfter, List.append_assoc]

theorem foldl_membersAfter_joins (members ks : List DataR) :
    (ks.map Membership.join).foldl membersAfter members = members ++ ks := by
  induction ks generalizing members with
  | nil => simp
  | cons K ks ih => simp [ih, membersAfter]

theorem run_append (buff : MessagePhoto) (held : DataR) (s : System) (before after : List Membership) :
    s.run buff held (before ++ after) =
      (s.run buff held before).bind (fun t => t.run buff held after) := by
  induction before generalizing s with
  | nil => rfl
  | cons e rest ih =>
      rw [List.cons_append, System.run, System.run]
      cases s.event buff held e with
      | none => rfl
      | some t => exact ih t

-- Peers of one host on the ports from 0 on.
def peersOf (n : Nat) : List DataR := (List.range n).map (fun i => ⟨[49], Int32.ofNat i⟩)

@[simp] theorem length_peersOf (n : Nat) : (peersOf n).length = n := by
  simp [peersOf]

theorem peersOf_succ (n : Nat) : peersOf (n + 1) = peersOf n ++ [⟨[49], Int32.ofNat n⟩] := by
  simp [peersOf, List.range_succ]

theorem toInt_peersOf {i n : Nat} (hi : i < n) (hn : n ≤ 65536) : (Int32.ofNat i).toInt = i :=
  Int32.toInt_ofNat_of_lt (by omega)

theorem identity_peersOf {n : Nat} (hn : n ≤ 65536) : ∀ K ∈ peersOf n, Identity K := by
  intro K hK
  obtain ⟨i, hi, rfl⟩ := List.mem_map.mp hK
  have hport := toInt_peersOf (List.mem_range.mp hi) hn
  have hlt := List.mem_range.mp hi
  refine ⟨by simp, by simp, by simp, by simp, ?_, ?_⟩
  · rw [hport]
    omega
  · rw [hport]
    omega

theorem nodup_peersOf {n : Nat} (hn : n ≤ 65536) : (peersOf n).Nodup := by
  refine List.Nodup.map_on ?_ List.nodup_range
  intro i hi j hj hij
  have hport := congrArg (fun K : DataR => K.port.toInt) hij
  simp only [toInt_peersOf (List.mem_range.mp hi) hn, toInt_peersOf (List.mem_range.mp hj) hn] at hport
  omega

-- Of as many peers and one more the last one cannot join.
theorem run_too_many (buff : MessagePhoto) (held : DataR) {ks : List DataR} (K : DataR)
    (hident : ∀ k ∈ ks, Identity k) (hnodup : ks.Nodup) (hfull : ks.length = MAX_MEMBERS) :
    System.start.run buff held ((ks ++ [K]).map .join) = none := by
  obtain ⟨s, hrun, hs⟩ := run_agreement buff held agreement_start (ks.map .join)
    (validEvents_joins hident hnodup) (fewMembers_of_length (by rw [List.length_map, hfull]))
  rw [foldl_membersAfter_joins, List.nil_append] at hs
  rw [List.map_append, run_append, hrun]
  simp [System.run, System.event, join_too_many hs buff held hfull]

theorem peersOf_too_many (buff : MessagePhoto) (held : DataR) {n : Nat} (hn : n = MAX_MEMBERS) :
    ValidEvents [] ((peersOf (n + 1)).map .join) ∧
      System.start.run buff held ((peersOf (n + 1)).map .join) = none := by
  have hmax : MAX_MEMBERS + 1 ≤ 65536 := by decide
  refine ⟨validEvents_joins (identity_peersOf (by omega)) (nodup_peersOf (by omega)), ?_⟩
  rw [peersOf_succ]
  exact run_too_many buff held _ (identity_peersOf (by omega)) (nodup_peersOf (by omega))
    ((length_peersOf n).trans hn)

theorem too_many_peers :
    ValidEvents [] ((peersOf 2730).map .join) ∧
      System.start.run ⟨List.replicate MAX_SIZE 0, 0, rfl⟩ ⟨[], 0⟩ ((peersOf 2730).map .join) =
        none :=
  peersOf_too_many _ _ (by decide)

end Crowds

end Gallery
