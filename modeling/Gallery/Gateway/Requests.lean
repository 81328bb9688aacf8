import Gallery.Gateway.Broadcast

namespace Gallery

open Text

-- A ring in the order in which its members are tried: the root comes last.
def turns {α : Type} (xs : List α) : List α := xs.tail ++ xs.head?.toList

-- `peer_list = peer_list->next;`
theorem next_holds {p : Process} {x : DataR} {xs : List DataR} (hp : p.Holds (x :: xs)) :
    ∃ r next K, p.peer_list = some r ∧ p.heap.next r = some next ∧ p.heap.key next = some K ∧
      (xs ++ [x]).head? = some K ∧ Process.Holds ⟨p.heap, some next⟩ (xs ++ [x]) := by
  obtain ⟨ns, hc, hns⟩ := hp
  cases ns with
  | nil => simp at hns
  | cons n ns =>
      obtain ⟨rfl, rfl⟩ := List.cons.inj hns
      have hroot : p.peer_list = some n.1 := hc.root_eq
      rw [hroot] at hc
      cases ns with
      | nil =>
          have hnext : p.heap.next n.1 = some n.1 := @Circle.next_last _ _ [] _ _ _ hc
          exact ⟨n.1, n.1, n.2, hroot, hnext, hc.key n (by simp), rfl, [n], hc, rfl⟩
      | cons v ns =>
          have hnext : p.heap.next n.1 = some v.1 := (@Circle.linked _ _ _ [] _ _ _ _ _ hc).1
          have hturned := @Circle.rotate _ _ _ [n] (v :: ns) (by simp) hc
          exact ⟨n.1, v.1, v.2, hroot, hnext, hc.key v (by simp), rfl, _, hturned, by simp [entries]⟩

namespace GatewayState

section Clients

variable (online : DataR → Bool) {g : GatewayState} {xs : List DataR}

theorem clientLoop_nil (hring : g.ring.Holds []) (fuel rounds : Nat) :
    g.clientLoop online fuel (rounds + 1) = some (g, none) := by
  have hroot := (root_eq_none_iff hring).mpr rfl
  simp [clientLoop, hroot]

-- The root moves on to the next peer; it gets the client when it answers, and stops the
-- gateway when it does not.
theorem clientLoop_cons {x : DataR} (hring : g.ring.Holds (x :: xs)) (hfree : g.list_lock = false)
    (fuel rounds : Nat) :
    ∃ ring K, ring.Holds (xs ++ [x]) ∧ (xs ++ [x]).head? = some K ∧
      (online K = true →
        g.clientLoop online fuel (rounds + 1) = some ({ g with ring := ring }, some K)) ∧
      (online K = false → g.clientLoop online fuel (rounds + 1) = none) := by
  obtain ⟨r, next, K, hroot, hnext, hkey, hhead, hholds⟩ := next_holds hring
  refine ⟨⟨g.ring.heap, some next⟩, K, hholds, hhead, ?_, ?_⟩
  · intro hup
    simp [clientLoop, hroot, lock_of_free hfree, hnext, hkey, hup, unlock, hfree]
  · intro hdown
    simp [clientLoop, hroot, lock_of_free hfree, hnext, hkey, hdown, broadcastPeers_of_held]

-- A request that ends leaves the lock free and the ring turned.
theorem connectionClient_holds (hring : g.ring.Holds xs) (hfree : g.list_lock = false) {fuel : Nat}
    {buff reply : MessageGw} {g' : GatewayState}
    (h : g.connectionClient online fuel buff = some (g', reply)) :
    g'.ring.Holds (turns xs) ∧ g'.list_lock = false := by
  obtain ⟨rounds, rfl⟩ : ∃ rounds, fuel = rounds + 1 := by
    cases fuel with
    | zero => simp [connectionClient, clientLoop] at h
    | succ rounds => exact ⟨rounds, rfl⟩
  cases xs with
  | nil =>
      rw [connectionClient, clientLoop_nil online hring] at h
      obtain ⟨rfl, -⟩ := Prod.mk.inj (Option.some.inj h)
      exact ⟨hring, hfree⟩
  | cons x xs =>
      obtain ⟨ring, K, hturned, -, hanswers, hdown⟩ :=
        clientLoop_cons online hring hfree (rounds + 1) rounds
      by_cases hup : online K = true
      · rw [connectionClient, hanswers hup] at h
        obtain ⟨rfl, -⟩ := Prod.mk.inj (Option.some.inj h)
        exact ⟨hturned, hfree⟩
      · rw [connectionClient, hdown (by simpa using hup)] at h
        cases h

-- What a client's request is for: it ends, the lock is free, and the client is sent to
-- the first peer after the root that answers, if there is one.
def Serves (g : GatewayState) (buff : MessageGw) : Prop :=
  ∃ fuel g' reply, g.connectionClient online fuel buff = some (g', reply) ∧ g'.list_lock = false ∧
    match (turns g.registered).find? online with
    | some K => reply.type = 0 ∧ reply.addr = K.addr ∧ reply.port = K.port
    | none => reply.type = 1

-- A client is served exactly when the first peer tried answers, or when there is none.
theorem serves_iff (hring : g.ring.Holds xs) (hfree : g.list_lock = false) (buff : MessageGw) :
    g.Serves online buff ↔ ∀ K ∈ (turns xs).head?, online K = true := by
  cases xs with
  | nil =>
      constructor
      · intro _ K hK
        cases hK
      · intro _
        refine ⟨1, g, { buff with type := 1 }, ?_, hfree, ?_⟩
        · simp [connectionClient, clientLoop_nil online hring]
        · simp [registered_eq hring, turns]
  | cons x xs =>
      have hturns : turns (x :: xs) = xs ++ [x] := rfl
      rw [hturns]
      constructor
      · rintro ⟨fuel, g', reply, hcall, -⟩ K hK
        obtain ⟨rounds, rfl⟩ : ∃ rounds, fuel = rounds + 1 := by
          cases fuel with
          | zero => simp [connectionClient, clientLoop] at hcall
          | succ rounds => exact ⟨rounds, rfl⟩
        obtain ⟨ring, K', -, hhead, -, hdown⟩ :=
          clientLoop_cons online hring hfree (rounds + 1) rounds
        obtain rfl := Option.some.inj (hK.symm.trans hhead)
        by_contra hoff
        simp [connectionClient, hdown (by simpa using hoff)] at hcall
      · intro hfirst
        obtain ⟨ring, K, -, hhead, hup, -⟩ := clientLoop_cons online hring hfree 1 0
        have hanswers := hfirst K hhead
        have hfind : (turns g.registered).find? online = some K := by
          obtain ⟨ys, hys⟩ := List.head?_eq_some_iff.mp hhead
          rw [registered_eq hring, hturns, hys, List.find?_cons_of_pos hanswers]
        refine ⟨1, { g with ring := ring }, { buff with type := 0, addr := K.addr, port := K.port }, ?_,
          hfree, ?_⟩
        · simp [connectionClient, hup hanswers]
        · simp [hfind]

theorem serves_iff_everybodyAnswers :
    ∃ ring, recvRingUdp Process.start [⟨[49], 3001⟩, ⟨[49], 3002⟩] = some ring ∧
      (⟨ring, false, []⟩ : GatewayState).Serves (fun _ => true) ⟨0, [], 0⟩ := by
  obtain ⟨ring, hcall, hring⟩ := recvRingUdp_start [⟨[49], 3001⟩, ⟨[49], 3002⟩]
  exact ⟨ring, hcall, (serves_iff _ hring rfl _).mpr (fun _ _ => rfl)⟩

-- Of two peers the one whose turn it is has crashed.
theorem crashed_peer_stops_clients :
    ∃ ring, recvRingUdp Process.start [⟨[49], 3001⟩, ⟨[49], 3002⟩] = some ring ∧
      ¬ (⟨ring, false, []⟩ : GatewayState).Serves (fun K => K.port == 3001) ⟨0, [], 0⟩ := by
  obtain ⟨ring, hcall, hring⟩ := recvRingUdp_start [⟨[49], 3001⟩, ⟨[49], 3002⟩]
  refine ⟨ring, hcall, ?_⟩
  rintro ⟨fuel, g', reply, hclient, -⟩
  cases fuel with
  | zero => simp [connectionClient, clientLoop] at hclient
  | succ rounds =>
      obtain ⟨ring', K, -, hhead, -, hdown⟩ := clientLoop_cons (g := ⟨ring, false, []⟩)
        (fun K => K.port == 3001) hring rfl (rounds + 1) rounds
      obtain rfl := Option.some.inj hhead
      simp [connectionClient, hdown (by decide)] at hclient

end Clients

section NewPeers

variable (online : DataR → Bool) {g : GatewayState} {xs : List DataR}

-- The gateway keeps the peers that answer and puts the new one behind them; what it sends
-- back is the list it then holds.
theorem connectionPeer_join (hring : g.ring.Holds xs) (hfree : g.list_lock = false) (fuel : Nat)
    (held : DataR) (sender : CString) {buff : MessageGw} (htype : buff.type = 0) :
    ∃ ring, g.connectionPeer online fuel held sender buff =
        some ({ g with ring := ring }, some (xs.filter online ++ [setDataR sender buff.port])) ∧
      ring.Holds (xs.filter online ++ [setDataR sender buff.port]) := by
  obtain ⟨ring, hregister, hring'⟩ := gatewayRegister_holds hring online (setDataR sender buff.port)
  have hlock : ({ g with ring := ring, list_lock := false } : GatewayState).list_lock = false := rfl
  refine ⟨ring, ?_, hring'⟩
  simp [connectionPeer, htype, lock_of_free hfree, hregister, unlock, printPeers_of_free hlock, hfree]

-- A new peer and the gateway start from the same list: the peers that answer, in the
-- gateway's order, and the new one, last there and first here.
theorem connectionPeer_register (hring : g.ring.Holds xs) (hfree : g.list_lock = false) (fuel : Nat)
    (held : DataR) (sender : CString) (buff : MessageGw) (htype : buff.type = 0) :
    ∃ g' d_send, g.connectionPeer online fuel held sender buff = some (g', some d_send) ∧
      g'.list_lock = false ∧
      g'.ring.Holds (xs.filter online ++ [setDataR sender buff.port]) ∧
      ∃ p p', recvRingUdp Process.start d_send = some p ∧ reroot p = some p' ∧
        p'.Holds (setDataR sender buff.port :: xs.filter online) := by
  obtain ⟨ring, hcall, hring'⟩ := connectionPeer_join online hring hfree fuel held sender htype
  obtain ⟨p, hrecv, hp⟩ :=
    recvRingUdp_start (xs.filter online ++ [setDataR sender buff.port])
  obtain ⟨p', hreroot, hp'⟩ := reroot_holds hp
  exact ⟨{ g with ring := ring }, _, hcall, hfree, hring', p, p', hrecv, hreroot, hp'⟩

theorem connectionPeer_register_oldEntryLikeNew :
    ∃ ring, recvRingUdp Process.start [⟨[49], 3001⟩, ⟨[49], 3002⟩, ⟨[49], 3001⟩] = some ring ∧
    ∃ g' d_send, (⟨ring, false, []⟩ : GatewayState).connectionPeer (fun K => K.port == 3002) 4
        ⟨[], 0⟩ [49] ⟨0, [], 3001⟩ = some (g', some d_send) ∧
      g'.list_lock = false ∧ g'.ring.Holds [⟨[49], 3002⟩, ⟨[49], 3001⟩] ∧
      ∃ p p', recvRingUdp Process.start d_send = some p ∧ reroot p = some p' ∧
        p'.Holds [⟨[49], 3001⟩, ⟨[49], 3002⟩] := by
  obtain ⟨ring, hcall, hring⟩ :=
    recvRingUdp_start [⟨[49], 3001⟩, ⟨[49], 3002⟩, ⟨[49], 3001⟩]
  have hanswer : [⟨[49], 3001⟩, ⟨[49], 3002⟩, ⟨[49], 3001⟩].filter (fun K : DataR => K.port == 3002) =
      [⟨[49], 3002⟩] := by decide
  have hjoin := connectionPeer_register (g := ⟨ring, false, []⟩) (fun K => K.port == 3002) hring rfl 4
    ⟨[], 0⟩ [49] ⟨0, [], 3001⟩ rfl
  rw [hanswer] at hjoin
  exact ⟨ring, hcall, hjoin⟩

end NewPeers

section Removals

variable (online : DataR → Bool) {g : GatewayState} {xs : List DataR}

-- What is left to do once an entry is out of the ring: the others are told.
def tellOthers (fuel : Nat) (message : CString) (exc : Option DataR) (g : GatewayState) :
    Option (GatewayState × Option (List DataR)) :=
  (g.toldBy online fuel exc).map (fun told =>
    ({ g with sent := g.sent ++ told.map (PeerMessage.mk · message 12) }, none))

theorem tellOthers_of_broadcast (hfree : g.list_lock = false) (fuel : Nat) (message : CString)
    (exc : Option DataR) :
    (g.broadcastPeers online fuel message 12 exc).bind (fun g => some (g, none)) =
      g.tellOthers online fuel message exc := by
  rw [broadcastPeers_of_free online hfree, tellOthers]
  cases g.toldBy online fuel exc <;> rfl

theorem tellOthers_some {fuel : Nat} {message : CString} {exc : Option DataR} {g' : GatewayState}
    {list : Option (List DataR)} (h : g.tellOthers online fuel message exc = some (g', list)) :
    g'.ring = g.ring ∧ g'.list_lock = g.list_lock ∧
      ∃ told : List DataR, g'.sent = g.sent ++ told.map (PeerMessage.mk · message 12) := by
  obtain ⟨told, -, he⟩ := Option.map_eq_some_iff.mp h
  obtain ⟨rfl, -⟩ := Prod.mk.inj he
  exact ⟨rfl, rfl, told, rfl⟩

-- A peer that leaves.
theorem connectionPeer_leave (hring : g.ring.Holds xs) (hfree : g.list_lock = false)
    (held : DataR) (sender : CString) {buff : MessageGw} (htype : buff.type = -1) :
    ∃ ring, g.ring.remove (setDataR sender buff.port) = some ring ∧
      ring.Holds (xs.erase (setDataR sender buff.port)) ∧
      ∀ fuel, g.connectionPeer online fuel held sender buff =
        if (peerIdText (setDataR sender buff.port)).length < MESSAGE_SIZE then
          ({ g with ring := ring } : GatewayState).tellOthers online fuel
            (peerIdText (setDataR sender buff.port)) none
        else none := by
  obtain ⟨ring, hremove, hring'⟩ := remove_holds hring (setDataR sender buff.port)
  refine ⟨ring, hremove, hring', fun fuel => ?_⟩
  have hlock : ({ g with ring := ring } : GatewayState).list_lock = false := hfree
  rw [← tellOthers_of_broadcast online hlock]
  simp [connectionPeer, htype, lock_of_free hfree, hremove, unlock, hfree,
    printPeers_of_free]

-- A report about another peer.
theorem connectionPeer_report (hring : g.ring.Holds xs) (hfree : g.list_lock = false)
    {held : DataR} (sender : CString) {buff : MessageGw} (htype : buff.type = -2) {K : DataR}
    (hK : namedPeer held buff.addr = some K) :
    ∃ ring, g.ring.remove K = some ring ∧ ring.Holds (xs.erase K) ∧
      ∀ fuel, g.connectionPeer online fuel held sender buff =
        ({ g with ring := ring } : GatewayState).tellOthers online fuel buff.addr
          (some (setDataR sender buff.port)) := by
  obtain ⟨ring, hremove, hring'⟩ := remove_holds hring K
  refine ⟨ring, hremove, hring', fun fuel => ?_⟩
  have hlock : ({ g with ring := ring } : GatewayState).list_lock = false := hfree
  rw [← tellOthers_of_broadcast online hlock]
  simp [connectionPeer, htype, lock_of_free hfree, deletePeer, hK, hremove, unlock, hfree,
    printPeers_of_free]

-- One with an address that is too long is written past its place.
theorem connectionPeer_overflow (fuel : Nat) {held : DataR} (sender : CString) {buff : MessageGw}
    (htype : buff.type = -2) (hnone : namedPeer held buff.addr = none) :
    g.connectionPeer online fuel held sender buff = none := by
  simp [connectionPeer, htype, deletePeer, hnone]

end Removals

end GatewayState

end Gallery
