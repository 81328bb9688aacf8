import Gallery.Membership

namespace Gallery

-- A process whose ring holds these entries, from its root on.
def Process.Holds (p : Process) (xs : List DataR) : Prop :=
  ∃ ns, Circle p.heap p.peer_list ns ∧ entries ns = xs

section Processes

variable {p : Process} {xs : List DataR}

theorem holds_start : Process.start.Holds [] := ⟨[], circle_nil _, rfl⟩

theorem root_of_holds {x : DataR} (hp : p.Holds (x :: xs)) :
    ∃ r, p.peer_list = some r ∧ p.heap.key r = some x := by
  obtain ⟨ns, hc, hns⟩ := hp
  cases ns with
  | nil => simp at hns
  | cons n ns =>
      obtain ⟨rfl, -⟩ := List.cons.inj hns
      exact ⟨n.1, hc.root_eq, hc.key n (by simp)⟩

theorem root_eq_none_iff (hp : p.Holds xs) : p.peer_list = none ↔ xs = [] := by
  cases xs with
  | nil =>
      obtain ⟨ns, hc, hns⟩ := hp
      obtain rfl : ns = [] := List.map_eq_nil_iff.mp hns
      exact iff_of_true hc.root_eq rfl
  | cons x xs =>
      obtain ⟨r, hroot, -⟩ := root_of_holds hp
      simp [hroot]

theorem append_holds (hp : p.Holds xs) (K : DataR) :
    ∃ p', p.append K = some p' ∧ p'.Holds (xs ++ [K]) := by
  obtain ⟨ns, hc, rfl⟩ := hp
  obtain ⟨h', root', hcall, hc', -⟩ := ringAppend_circle hc K
  exact ⟨⟨h', root'⟩, by simp [Process.append, hcall], _, hc', by simp⟩

theorem remove_holds (hp : p.Holds xs) (K : DataR) :
    ∃ p', p.remove K = some p' ∧ p'.Holds (xs.erase K) := by
  obtain ⟨ns, hc, rfl⟩ := hp
  rcases ringRemove_circle hc K with ⟨-, h', root', ns', hcall, hc', hentries, -⟩ | ⟨hK, hcall⟩
  · exact ⟨⟨h', root'⟩, by simp [Process.remove, hcall], ns', hc', hentries⟩
  · exact ⟨p, by simp [Process.remove, hcall], ns, hc, (List.erase_of_not_mem hK).symm⟩

theorem remove_absent (hp : p.Holds xs) {K : DataR} (hK : K ∉ xs) : p.remove K = some p := by
  obtain ⟨ns, hc, rfl⟩ := hp
  simp [Process.remove, ringRemove_absent hc hK]

theorem recvRingUdp_holds (hp : p.Holds xs) (ys : List DataR) :
    ∃ p', recvRingUdp p ys = some p' ∧ p'.Holds (xs ++ ys) := by
  induction ys generalizing p xs with
  | nil => exact ⟨p, rfl, by simpa using hp⟩
  | cons K ys ih =>
      obtain ⟨p1, hcall, hp1⟩ := append_holds hp K
      obtain ⟨p2, hrest, hp2⟩ := ih hp1
      exact ⟨p2, by simp [recvRingUdp, hcall, hrest], by simpa using hp2⟩

theorem recvRingUdp_start (ys : List DataR) :
    ∃ p', recvRingUdp Process.start ys = some p' ∧ p'.Holds ys := by
  obtain ⟨p', hcall, hp'⟩ := recvRingUdp_holds holds_start ys
  exact ⟨p', hcall, hp'⟩

-- The list the gateway sends ends with the new peer, which makes itself the root.
theorem reroot_holds {K : DataR} (hp : p.Holds (xs ++ [K])) :
    ∃ p', reroot p = some p' ∧ p'.Holds (K :: xs) := by
  obtain ⟨ns, hc, hns⟩ := hp
  obtain ⟨us, last, rfl⟩ : ∃ us last, ns = us ++ [last] := by
    rcases List.eq_nil_or_concat' ns with rfl | ⟨us, last, h⟩
    · simp at hns
    · exact ⟨us, last, h⟩
  rw [entries_append] at hns
  obtain ⟨hus, hlast⟩ := List.append_inj' hns rfl
  obtain ⟨r, hr⟩ : ∃ r, ((us ++ [last]).map Prod.fst).head? = some r := by
    cases us with
    | nil => exact ⟨_, rfl⟩
    | cons u us => exact ⟨_, rfl⟩
  have hl : ((us ++ [last]).map Prod.fst).getLast? = some last.1 := by
    rw [List.map_append]
    exact List.getLast?_concat
  have hprev : p.heap.prev r = some last.1 := (hc.closed last.1 hl r hr).2
  have hroot : p.peer_list = some r := hc.root_eq.trans hr
  refine ⟨⟨p.heap, some last.1⟩, by simp [reroot, hroot, hprev], _, hc.rotate (by simp), ?_⟩
  rw [List.singleton_append, entries_cons, hus]
  rw [entries_cons, entries_nil] at hlast
  exact congrArg (· :: xs) (List.cons.inj hlast).1

end Processes

section Walks

variable {h : RingHeap} {r : Addr} {ns : List (Addr × DataR)}

theorem vectorize_eq (hc : Circle h (some r) ns) (us vs : List (Addr × DataR)) (n : Addr × DataR)
    (hns : ns = us ++ n :: vs) : vectorize h (n :: vs).length n.1 = some (entries (n :: vs)) := by
  induction vs generalizing us n with
  | nil =>
      have hkey := hc.key n (by simp [hns])
      have hnext : h.next n.1 = some r := (hns ▸ hc).next_last
      simp [vectorize, hkey, hnext]
  | cons v vs ih =>
      have hkey := hc.key n (by simp [hns])
      have hnext : h.next n.1 = some v.1 := (hns ▸ hc).next_cons.1
      have hrest := ih (us ++ [n]) v (by rw [hns]; simp)
      simp only [List.length_cons] at hrest ⊢
      rw [vectorize, hkey, hnext]
      simp [hrest]

-- A list of which an `int` can count the elements goes out just when a datagram holds it.
theorem sendRingUdp_of_length {p : Process} {xs : List DataR} (hp : p.Holds xs)
    (hlen : xs.length < 2 ^ 31) :
    sendRingUdp p = if xs.length ≤ MAX_MEMBERS then some xs else none := by
  obtain ⟨ns, hc, rfl⟩ := hp
  have hcount := ringCount_circle hc
  cases ns with
  | nil =>
      have hroot : p.peer_list = none := hc.root_eq
      rw [hroot] at hcount
      simp [sendRingUdp, hroot, hcount]
  | cons n ns =>
      have hroot : p.peer_list = some n.1 := hc.root_eq
      have hsize : (n :: ns).length = (entries (n :: ns)).length := (List.length_map _).symm
      rw [hroot, hsize] at hcount
      rw [hroot] at hc
      have hpos : ¬ Int32.ofNat (entries (n :: ns)).length = Int32.ofNat 0 := by
        rw [ofNat_inj hlen (by decide)]
        simp
      have hnonneg : ¬ Int32.ofNat (entries (n :: ns)).length < 0 := by
        have hzero : (0 : Int32).toInt = 0 := rfl
        rw [Int32.lt_iff_toInt_lt, Int32.toInt_ofNat_of_lt hlen]
        omega
      have hvector : vectorize p.heap (entries (n :: ns)).length n.1 = some (entries (n :: ns)) :=
        hsize ▸ vectorize_eq hc [] ns n rfl
      simp only [sendRingUdp, hroot, hcount, Option.bind_eq_bind, Option.bind_some,
        if_neg (show ¬ Int32.ofNat _ = 0 from hpos), if_neg hnonneg, toNatClampNeg_ofNat _ hlen, hvector,
          MAX_MEMBERS,
        Nat.le_div_iff_mul_le (by decide : 0 < DATA_R_SIZE)]

theorem ringElementsLoop_eq (hc : Circle h (some r) ns) (fuel : Nat) (us vs : List (Addr × DataR))
    (n : Addr × DataR) (hns : ns = us ++ n :: vs) (hfuel : vs.length < fuel) :
    ringElementsLoop h r fuel n.1 = some (entries (n :: vs)) := by
  induction fuel generalizing us vs n with
  | zero => omega
  | succ fuel ih =>
      have hkey := hc.key n (by simp [hns])
      cases vs with
      | nil =>
          have hnext : h.next n.1 = some r := (hns ▸ hc).next_last
          simp [ringElementsLoop, hkey, hnext]
      | cons v vs =>
          obtain ⟨hnext, hne⟩ : h.next n.1 = some v.1 ∧ v.1 ≠ r := (hns ▸ hc).next_cons
          have hrest := ih (us ++ [n]) vs v (by rw [hns]; simp) (by simpa using hfuel)
          simp [ringElementsLoop, hkey, hnext, hne, hrest]

theorem ringElements_holds {p : Process} {xs : List DataR} (hp : p.Holds xs) :
    ringElements p = some xs := by
  obtain ⟨ns, hc, rfl⟩ := hp
  cases ns with
  | nil =>
      have hroot : p.peer_list = none := hc.root_eq
      simp [ringElements, hroot]
  | cons n ns =>
      have hroot : p.peer_list = some n.1 := hc.root_eq
      have hlen := hc.length_le
      rw [hroot] at hc
      simp only [ringElements, hroot]
      exact ringElementsLoop_eq hc p.heap.brk [] ns n rfl hlen

-- The nodes before `n` have answered, so a node that does not is the first with its
-- identity; the last one is not asked.
theorem probeLoop_filter (online : DataR → Bool) {root : Option Addr} (l : Addr × DataR) (fuel : Nat)
    (us ws : List (Addr × DataR)) (n : Addr × DataR) (hc : Circle h root (us ++ n :: ws))
    (hl : (n :: ws).getLast? = some l) (hus : ∀ k ∈ entries us, online k = true)
    (hfuel : ws.length < fuel) :
    ∃ h' root' ns', probeLoop online fuel h root n.1 = some (h', root') ∧ Circle h' root' ns' ∧
      entries ns' = entries us ++ (entries (n :: ws).dropLast).filter online ++ [l.2] := by
  induction fuel generalizing h root us ws n with
  | zero => omega
  | succ fuel ih =>
      obtain ⟨r, hr⟩ : ∃ r, root = some r := by
        cases us with
        | nil => exact ⟨_, hc.root_eq⟩
        | cons u us => exact ⟨_, hc.root_eq⟩
      subst hr
      cases ws with
      | nil =>
          obtain rfl : n = l := by simpa using hl
          exact ⟨h, some r, us ++ [n], by simp [probeLoop, hc.next_last], hc, by simp⟩
      | cons v ws =>
          have hl' : (v :: ws).getLast? = some l := by simpa using hl
          have hkey := hc.key n (by simp)
          obtain ⟨hnext, hne⟩ := hc.next_cons
          by_cases hup : online n.2 = true
          · have hcut : us ++ n :: v :: ws = (us ++ [n]) ++ v :: ws := by simp
            obtain ⟨h', root', ns', hcall, hc', hns'⟩ := ih (us ++ [n]) ws v (hcut ▸ hc) hl' (by
              intro k hk
              rcases List.mem_append.mp (entries_append us [n] ▸ hk) with hk | hk
              · exact hus k hk
              · obtain rfl := List.mem_singleton.mp hk
                exact hup) (by simpa using hfuel)
            refine ⟨h', root', ns', ?_, hc', ?_⟩
            · simp [probeLoop, hnext, hne, hkey, hup, hcall]
            · simp [hns', hup]
          · have hprev : h.prev v.1 = some n.1 := hc.linked.2
            have hfirst : n.2 ∉ entries us := fun hk => hup (hus n.2 hk)
            obtain ⟨h1, root1, hremove, hc1, -⟩ := ringRemove_first hc hfirst
            have hroot1 : root1 ≠ none := by
              rw [hc1.root_eq]
              simp
            obtain ⟨h', root', ns', hcall, hc', hns'⟩ := ih us ws v hc1 hl' hus (by simpa using hfuel)
            refine ⟨h', root', ns', ?_, hc', ?_⟩
            · simp [probeLoop, hnext, hne, hkey, hup, hprev, hremove, hroot1, hcall]
            · simp [hns', hup]

theorem notifyLoop_eq (hc : Circle h (some r) ns) (fuel : Nat) (us vs : List (Addr × DataR))
    (n : Addr × DataR) (hns : ns = us ++ n :: vs) (has_photos : Bool) (hfuel : vs.length + 1 < fuel)
    (hus : us ≠ []) :
    ∃ calls, notifyLoop h r fuel n.1 has_photos = some calls ∧
      calls.map Prod.fst = entries (n :: vs) ∧ ∀ call ∈ calls, call.2 = 7 ∨ call.2 = 8 := by
  induction fuel generalizing us vs n has_photos with
  | zero => omega
  | succ fuel ih =>
      have hkey := hc.key n (by simp [hns])
      have hne : n.1 ≠ r := Circle.ne_root hus (hns ▸ hc)
      have htype : (if has_photos then (7 : Int32) else 8) = 7 ∨ (if has_photos then (7 : Int32) else 8) = 8 := by
        cases has_photos <;> simp
      cases vs with
      | nil =>
          have hnext : h.next n.1 = some r := (hns ▸ hc).next_last
          obtain ⟨fuel, rfl⟩ : ∃ fuel', fuel = fuel' + 1 := ⟨fuel - 1, by simp at hfuel; omega⟩
          refine ⟨[(n.2, if has_photos then 7 else 8)], ?_, rfl, ?_⟩
          · rw [notifyLoop, if_neg hne, hkey, hnext]
            simp [notifyLoop]
          · intro call hcall
            obtain rfl := List.mem_singleton.mp hcall
            exact htype
      | cons v vs =>
          have hnext : h.next n.1 = some v.1 := (hns ▸ hc).next_cons.1
          obtain ⟨calls, hcalls, hkeys, htypes⟩ :=
            ih (us ++ [n]) vs v (by rw [hns]; simp) true (by simpa using hfuel) (by simp)
          refine ⟨(n.2, if has_photos then 7 else 8) :: calls, ?_, ?_, ?_⟩
          · rw [notifyLoop, if_neg hne, hkey, hnext]
            simp [hcalls]
          · rw [List.map_cons, hkeys, entries_cons, entries_cons, entries_cons]
          · intro call hcall
            rcases List.mem_cons.mp hcall with rfl | hcall
            · exact htype
            · exact htypes call hcall

-- Up to the end of the ring no entry is the excluded one.
theorem broadcastPeersLoop_eq (online : DataR → Bool) (hc : Circle h (some r) ns)
    (exc : Option DataR) (fuel : Nat) (us vs : List (Addr × DataR)) (n : Addr × DataR)
    (hns : ns = us ++ n :: vs) (hexc : ∀ K ∈ exc, K ∉ entries (n :: vs)) (hfuel : vs.length < fuel) :
    broadcastPeersLoop online h r exc fuel n.1 = some ((entries (n :: vs)).filter online) := by
  induction fuel generalizing us vs n with
  | zero => omega
  | succ fuel ih =>
      have hkey := hc.key n (by simp [hns])
      have hother : exc.all (fun K => !equalDataR n.2 K) = true := by
        rw [Option.all_eq_true]
        intro K hK
        rw [equalDataR_eq_false]
        · rfl
        · exact fun he => hexc K hK (by simp [he])
      cases vs with
      | nil =>
          have hnext : h.next n.1 = some r := (hns ▸ hc).next_last
          simp only [broadcastPeersLoop, hkey, hnext, hother, Option.bind_eq_bind, Option.bind_some,
            if_true, entries_cons, entries_nil]
          cases hup : online n.2 <;> simp [hup]
      | cons v vs =>
          obtain ⟨hnext, hne⟩ : h.next n.1 = some v.1 ∧ v.1 ≠ r := (hns ▸ hc).next_cons
          have hrest := ih (us ++ [n]) vs v (by rw [hns]; simp)
            (fun K hK hmem => hexc K hK (List.mem_cons_of_mem n.2 hmem)) (by simpa using hfuel)
          simp only [broadcastPeersLoop, hkey, hnext, hother, hne, hrest, Option.bind_eq_bind,
            Option.bind_some, if_true, if_false]
          cases hup : online n.2 <;> simp [hup]

-- With an excluded entry still ahead the loop gets to it, and stays there.
theorem broadcastPeersLoop_stuck (online : DataR → Bool) (hc : Circle h (some r) ns) (K : DataR)
    (fuel : Nat) (us vs : List (Addr × DataR)) (n : Addr × DataR) (hns : ns = us ++ n :: vs)
    (hn : n.2 = K → n.1 ≠ r) (hK : K ∈ entries (n :: vs)) :
    broadcastPeersLoop online h r (some K) fuel n.1 = none := by
  induction fuel generalizing us vs n with
  | zero => rfl
  | succ fuel ih =>
      have hkey := hc.key n (by simp [hns])
      by_cases hnK : n.2 = K
      · have hstay := ih us vs n hns hn hK
        have hsame : equalDataR n.2 K = true := (equalDataR_iff n.2 K).mpr hnK
        simp [broadcastPeersLoop, hkey, hsame, hn hnK, hstay]
      · have hmem : K ∈ entries vs := by
          rcases List.mem_cons.mp hK with he | hmem
          · exact absurd he.symm hnK
          · exact hmem
        cases vs with
        | nil => exact absurd hmem List.not_mem_nil
        | cons v vs =>
            obtain ⟨hnext, hne⟩ : h.next n.1 = some v.1 ∧ v.1 ≠ r := (hns ▸ hc).next_cons
            have hrest := ih (us ++ [n]) vs v (by rw [hns]; simp) (fun _ => hne) hmem
            simp [broadcastPeersLoop, hkey, equalDataR_eq_false hnK, hnext, hne, hrest]

theorem broadcastPeers_holds {g : Process} {xs : List DataR} (hg : g.Holds xs)
    (online : DataR → Bool) : broadcastPeers online g none = some (xs.filter online) := by
  obtain ⟨ns, hc, rfl⟩ := hg
  cases ns with
  | nil =>
      have hroot : g.peer_list = none := hc.root_eq
      simp [broadcastPeers, hroot]
  | cons n ns =>
      have hroot : g.peer_list = some n.1 := hc.root_eq
      have hlen := hc.length_le
      rw [hroot] at hc
      simp only [broadcastPeers, hroot]
      exact broadcastPeersLoop_eq online hc none g.heap.brk [] ns n rfl (by simp) hlen

end Walks

section Registration

variable {g : Process} {xs : List DataR}

-- The list without the peers that do not answer; the last one is not asked.
theorem snapshotRing_holds {K : DataR} (hg : g.Holds (xs ++ [K])) (online : DataR → Bool) :
    ∃ g', snapshotRing online g = some (g', xs.filter online ++ [K]) ∧
      g'.Holds (xs.filter online ++ [K]) := by
  obtain ⟨ns, hc, hns⟩ := hg
  cases ns with
  | nil => simp at hns
  | cons n ns =>
      have hroot : g.peer_list = some n.1 := hc.root_eq
      have hlen := hc.length_le
      obtain ⟨l, hl⟩ : ∃ l, (n :: ns).getLast? = some l := ⟨_, List.getLast?_eq_some_getLast (by simp)⟩
      have hlK : (entries (n :: ns)).getLast? = some l.2 := by
        rw [entries, List.getLast?_map, hl]
        rfl
      obtain ⟨h', root', ns', hprobe, hc', hns'⟩ :=
        probeLoop_filter online l g.heap.brk [] ns n hc hl (by simp) hlen
      have hdrop : entries (n :: ns).dropLast = xs := by
        rw [entries, List.map_dropLast]
        change (entries (n :: ns)).dropLast = xs
        rw [hns, List.dropLast_concat]
      obtain rfl : K = l.2 := by
        rw [hns, List.getLast?_concat] at hlK
        exact Option.some.inj hlK
      rw [hdrop, entries_nil, List.nil_append] at hns'
      refine ⟨⟨h', root'⟩, ?_, ns', hc', hns'⟩
      rw [snapshotRing]
      simp only [Option.bind_eq_bind, Option.bind_some, hroot]
      rw [← hroot, hprobe, Option.bind_some, ringElements_holds (p := ⟨h', root'⟩) ⟨ns', hc', hns'⟩]
      rfl

-- The gateway's list then, with the new peer.
theorem gatewayRegister_holds (hg : g.Holds xs) (online : DataR → Bool) (K : DataR) :
    ∃ g', gatewayRegister online g K = some (g', xs.filter online ++ [K]) ∧
      g'.Holds (xs.filter online ++ [K]) := by
  obtain ⟨g1, happend, hg1⟩ := append_holds hg K
  rw [gatewayRegister, happend]
  exact snapshotRing_holds hg1 online

end Registration

end Gallery
