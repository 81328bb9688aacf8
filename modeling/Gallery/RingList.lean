import Gallery.Circular
import Gallery.Data

namespace Gallery

-- The ring of peers in the memory of one process.
abbrev RingHeap := Heap (Node DataR)

def ringPush (h : RingHeap) (root : Option Addr) (other : Addr) : Option (RingHeap × Option Addr) :=
  match root with
  | none => do
      let h ← h.setNext other (some other)
      let h ← h.setPrev other (some other)
      some (h, some other)
  | some r => do
      let last ← h.prev r
      let h ← h.setPrev other (some last)
      let h ← h.setNext last (some other)
      let h ← h.setNext other (some r)
      let h ← h.setPrev r (some other)
      some (h, some r)

def ringAppend (h : RingHeap) (root : Option Addr) (K : DataR) : Option (RingHeap × Option Addr) :=
  let (new, h) := h.alloc ⟨K, none, none⟩
  ringPush h root new

-- The search for an element behind the root: `aux_seg` holds it and `aux` is the
-- node before. The rounds are bounded by the addresses handed out.
def ringRemoveLoop (h : RingHeap) (r : Addr) (K : DataR) :
    Nat → Addr → Addr → Option (Option (Addr × Addr))
  | 0, _, _ => none
  | fuel + 1, aux, aux_seg => do
      let k ← h.key aux_seg
      if equalDataR k K then some (some (aux, aux_seg))
      else
        let next ← h.next aux_seg
        if next = r then some none
        else
          let aux ← h.next aux
          ringRemoveLoop h r K fuel aux next

def ringRemove (h : RingHeap) (root : Option Addr) (K : DataR) :
    Option (Nat × RingHeap × Option Addr) :=
  match root with
  | none => some (0, h, none)
  | some r => do
      let aux_seg ← h.next r
      let k ← h.key r
      if equalDataR k K then
        if r = aux_seg then
          let h ← h.free r
          some (1, h, none)
        else
          let last ← h.prev r
          let h ← h.setPrev aux_seg (some last)
          let h ← h.setNext last (some aux_seg)
          let h ← h.free r
          some (1, h, some aux_seg)
      else if aux_seg = r then some (0, h, some r)
      else
        match ← ringRemoveLoop h r K h.brk r aux_seg with
        | none => some (0, h, some r)
        | some (aux, aux_seg) =>
            let next ← h.next aux_seg
            let h ← h.setNext aux (some next)
            let h ← h.setPrev next (some aux)
            let h ← h.free aux_seg
            some (1, h, some r)

-- `count` is an `int`.
def ringCountLoop (h : RingHeap) (r : Addr) : Nat → Addr → Int32 → Option Int32
  | 0, _, _ => none
  | fuel + 1, aux, count => do
      let next ← h.next aux
      if next = r then some count else ringCountLoop h r fuel next (count + 1)

def ringCount (h : RingHeap) (root : Option Addr) : Option Int32 :=
  match root with
  | none => some 0
  | some r => ringCountLoop h r h.brk r 1

-- The data of a ring in the order of its nodes.
def entries (ns : List (Addr × DataR)) : List DataR := ns.map Prod.snd

@[simp] theorem entries_append (ns ms : List (Addr × DataR)) :
    entries (ns ++ ms) = entries ns ++ entries ms := List.map_append

@[simp] theorem entries_cons (n : Addr × DataR) (ns : List (Addr × DataR)) :
    entries (n :: ns) = n.2 :: entries ns := rfl

@[simp] theorem entries_nil : entries [] = [] := rfl

section Push

variable {h : RingHeap} {root : Option Addr} {ns : List (Addr × DataR)}

-- The cells outside a ring are left alone.
def SameOutside (h h' : RingHeap) (ns : List (Addr × DataR)) : Prop :=
  ∀ a, a ∉ ns.map Prod.fst → h'.cell a = h.cell a

theorem ringPush_circle (hc : Circle h root ns) (o : Addr) (k : DataR) (ho : o ∉ ns.map Prod.fst)
    (hk : h.key o = some k) :
    ∃ h' root', ringPush h root o = some (h', root') ∧ Circle h' root' (ns ++ [(o, k)]) ∧
      h'.brk = h.brk ∧ SameOutside h h' (ns ++ [(o, k)]) := by
  have hlo := h.live_of_key hk
  cases hr : (ns.map Prod.fst).head? with
  | none =>
      have hnil : ns = [] := by simpa using hr
      obtain rfl : root = none := hc.root_eq.trans hr
      subst hnil
      refine ⟨(h.putNext o (some o)).putPrev o (some o), some o, ?_, ⟨rfl, by simp, ?_, by simp, ?_⟩,
        rfl, ?_⟩
      · simp [ringPush, h.setNext_of_live, Heap.setPrev_of_live, hlo]
      · intro n hn
        obtain rfl := List.mem_singleton.mp hn
        simpa using hk
      · intro a ha b hb
        obtain rfl := Option.some.inj ha
        obtain rfl := Option.some.inj hb
        simp [Linked, Heap.next_putNext, Heap.prev_putPrev, hlo]
      · intro a ha
        have hao : a ≠ o := by simpa using ha
        simp [Heap.putNext, Heap.putPrev, Heap.update_cell_ne, hao]
  | some r =>
      obtain rfl : root = some r := hc.root_eq.trans hr
      obtain ⟨l, hl⟩ : ∃ l, (ns.map Prod.fst).getLast? = some l := by
        cases ns with
        | nil => cases hr
        | cons n ns => exact ⟨_, List.getLast?_eq_some_getLast (by simp)⟩
      have hlive : ∀ a ∈ ns.map Prod.fst, h.Live a := by
        intro a ha
        obtain ⟨n, hn, rfl⟩ := List.mem_map.mp ha
        exact hc.live n hn
      have hrmem := List.mem_of_head? hr
      have hlmem := List.mem_of_getLast? hl
      have hlr := hc.closed l hl r hr
      have hro : r ≠ o := fun he => ho (he ▸ hrmem)
      have hlo' : l ≠ o := fun he => ho (he ▸ hlmem)
      have hnotmem : ∀ a ∈ ns.map Prod.fst, a ≠ o := fun a ha he => ho (he ▸ ha)
      refine ⟨(((h.putPrev o (some l)).putNext l (some o)).putNext o (some r)).putPrev r (some o),
        some r, ?_, ?_, rfl, ?_⟩
      · simp [ringPush, hlr.2, Heap.setNext_of_live, Heap.setPrev_of_live, hlo, hlive l hlmem,
          hlive r hrmem]
      · apply hc.insert_last hr hl ho
        · simp
        · simpa using hk
        · simp [Linked, Heap.next_putNext, Heap.prev_putPrev, hlo, hlive l hlmem, hlive r hrmem, hlo',
            hro.symm]
        · simp [Linked, Heap.next_putNext, Heap.prev_putPrev, hlo, hlive r hrmem]
        · intro a ha hal
          simp [Heap.next_putNext, hlo, hlive l hlmem, hal, hnotmem a ha]
        · intro b hb hbr
          simp [Heap.prev_putPrev, hlo, hlive r hrmem, hbr, hnotmem b hb]
      · intro a ha
        simp only [List.map_append, List.mem_append, List.map_cons, List.map_nil,
          List.mem_singleton, not_or] at ha
        have hal : a ≠ l := fun he => ha.1 (he ▸ hlmem)
        have har : a ≠ r := fun he => ha.1 (he ▸ hrmem)
        simp [Heap.putNext, Heap.putPrev, Heap.update_cell_ne, ha.2, hal, har]

theorem Circle.brk_notMem (hc : Circle h root ns) : h.brk ∉ ns.map Prod.fst := by
  intro hmem
  obtain ⟨n, hn, he⟩ := List.mem_map.mp hmem
  exact absurd (he ▸ h.lt_brk_of_live _ (hc.live n hn)) (Nat.lt_irrefl _)

theorem ringAppend_circle (hc : Circle h root ns) (K : DataR) :
    ∃ h' root', ringAppend h root K = some (h', root') ∧ Circle h' root' (ns ++ [(h.brk, K)]) ∧
      SameOutside h h' (ns ++ [(h.brk, K)]) := by
  have hfresh := hc.brk_notMem
  have hcell : ∀ a, a ≠ h.brk → (h.alloc ⟨K, none, none⟩).2.cell a = h.cell a := by
    intro a ha
    rw [h.alloc_cell, if_neg ha]
  have hc' : Circle (h.alloc ⟨K, none, none⟩).2 root ns :=
    hc.frame (fun a ha => hcell a (fun he => hfresh (he ▸ ha)))
  have hk : (h.alloc ⟨K, none, none⟩).2.key h.brk = some K := by
    rw [Heap.key, h.alloc_cell, if_pos rfl]
    rfl
  obtain ⟨h', root', hpush, hring, -, hsame⟩ := ringPush_circle hc' h.brk K hfresh hk
  refine ⟨h', root', hpush, hring, ?_⟩
  intro a ha
  rw [hsame a ha, hcell a]
  intro he
  exact ha (by simp [he])

end Push

section Remove

variable {h : RingHeap} {root : Option Addr} {ns : List (Addr × DataR)}

-- The search is at `b`, behind `a`; it has not met `K` before.
theorem ringRemoveLoop_eq {r : Addr} (hc : Circle h (some r) ns) (K : DataR) (fuel : Nat)
    (us vs : List (Addr × DataR)) (a b : Addr) (ka kb : DataR)
    (hns : ns = us ++ (a, ka) :: (b, kb) :: vs) (hK : K ∉ entries (us ++ [(a, ka)]))
    (hfuel : vs.length < fuel) :
    (K ∉ entries ns ∧ ringRemoveLoop h r K fuel a b = some none) ∨
    ∃ us' vs' a' b' ka', ns = us' ++ (a', ka') :: (b', K) :: vs' ∧
      K ∉ entries (us' ++ [(a', ka')]) ∧ ringRemoveLoop h r K fuel a b = some (some (a', b')) := by
  induction fuel generalizing us vs a b ka kb with
  | zero => omega
  | succ fuel ih =>
      have hkey : h.key b = some kb := hc.key (b, kb) (by simp [hns])
      have hcut : us ++ (a, ka) :: (b, kb) :: vs = (us ++ [(a, ka)]) ++ (b, kb) :: vs := by simp
      have hring : Circle h (some r) ((us ++ [(a, ka)]) ++ (b, kb) :: vs) := hcut ▸ hns ▸ hc
      have hnextb := hring.next_eq
      have hnexta : h.next a = some b := (hns ▸ hc).linked.1
      by_cases hkb : kb = K
      · subst hkb
        refine Or.inr ⟨us, vs, a, b, ka, hns, hK, ?_⟩
        simp [ringRemoveLoop, hkey, (equalDataR_iff kb kb).mpr rfl]
      · have hne : equalDataR kb K = false := by
          rw [Bool.eq_false_iff]
          exact fun he => hkb ((equalDataR_iff kb K).mp he)
        cases vs with
        | nil =>
            refine Or.inl ⟨?_, ?_⟩
            · rw [hns, hcut, entries_append, List.mem_append]
              exact not_or.mpr ⟨hK, by simp [Ne.symm hkb]⟩
            · simp [ringRemoveLoop, hkey, hne, hnextb, after]
        | cons c vs =>
            obtain ⟨c, kc⟩ := c
            have hcr : c ≠ r := hring.next_cons.2
            have hloop : ringRemoveLoop h r K (fuel + 1) a b = ringRemoveLoop h r K fuel b c := by
              simp [ringRemoveLoop, hkey, hne, hnextb, after, hcr, hnexta]
            rw [hloop]
            apply ih (us ++ [(a, ka)]) vs b c kb kc
            · rw [hns, hcut]
            · rw [entries_append, List.mem_append]
              exact not_or.mpr ⟨hK, by simp [Ne.symm hkb]⟩
            · simp only [List.length_cons] at hfuel
              omega

theorem equalDataR_eq_false {K1 K2 : DataR} (h : K1 ≠ K2) : equalDataR K1 K2 = false := by
  rw [Bool.eq_false_iff]
  exact fun he => h ((equalDataR_iff K1 K2).mp he)

-- What `ring_remove` leaves of a ring.
def Removed (h h' : RingHeap) (root' : Option Addr) (ns ns' : List (Addr × DataR)) (K : DataR) :
    Prop :=
  Circle h' root' ns' ∧ entries ns' = (entries ns).erase K ∧ ns'.Sublist ns ∧ SameOutside h h' ns

-- The nodes beside the root of a ring of two or more.
theorem root_neighbours {r s l : Addr} {kr ks : DataR}
    (hc : Circle h root ((r, kr) :: (s, ks) :: ns))
    (hl : (((s, ks) :: ns).map Prod.fst).getLast? = some l) :
    h.next r = some s ∧ h.prev r = some l ∧ s ≠ r ∧ l ≠ r ∧ h.Live r ∧ h.Live s ∧ h.Live l := by
  have hnotmem := (List.nodup_cons.mp hc.nodup).1
  have hne : ∀ a ∈ ((s, ks) :: ns).map Prod.fst, a ≠ r := fun a ha he => hnotmem (he ▸ ha)
  have hlr : Linked h l r := by
    apply hc.closed l _ r rfl
    rw [List.map_cons, List.getLast?_cons, hl]
    rfl
  have hlmem := List.mem_of_getLast? hl
  have hlivel : h.Live l := by
    obtain ⟨n, hn, rfl⟩ := List.mem_map.mp hlmem
    exact hc.live n (List.mem_cons_of_mem _ hn)
  exact ⟨(@Circle.linked _ _ _ [] _ _ _ _ _ hc).1, hlr.2, hne s (by simp), hne l hlmem,
    hc.live (r, kr) (by simp), hc.live (s, ks) (by simp), hlivel⟩

-- With the root passed over by its neighbours the others are a ring, whatever becomes
-- of the root.
theorem root_bypassed {h' : RingHeap} {r s l : Addr} {kr ks : DataR}
    (hc : Circle h root ((r, kr) :: (s, ks) :: ns))
    (hl : (((s, ks) :: ns).map Prod.fst).getLast? = some l)
    (hcell : ∀ a, a ≠ r → h'.cell a = ((h.putPrev s (some l)).putNext l (some s)).cell a) :
    Circle h' (some s) ((s, ks) :: ns) ∧ SameOutside h h' ((r, kr) :: (s, ks) :: ns) := by
  obtain ⟨-, -, hsr, hlr, -, hlives, hlivel⟩ := root_neighbours hc hl
  have hnotmem := (List.nodup_cons.mp hc.nodup).1
  have hne : ∀ a ∈ ((s, ks) :: ns).map Prod.fst, a ≠ r := fun a ha he => hnotmem (he ▸ ha)
  have hlivel' : (h.putPrev s (some l)).Live l := by simpa using hlivel
  have hnext : ∀ a, a ≠ r →
      h'.next a = ((h.putPrev s (some l)).putNext l (some s)).next a :=
    fun a ha => by rw [Heap.next, hcell a ha]; rfl
  have hprev : ∀ a, a ≠ r →
      h'.prev a = ((h.putPrev s (some l)).putNext l (some s)).prev a :=
    fun a ha => by rw [Heap.prev, hcell a ha]; rfl
  constructor
  · apply hc.remove_first rfl hl
    · intro a ha
      have hkey : h'.key a = ((h.putPrev s (some l)).putNext l (some s)).key a := by
        rw [Heap.key, hcell a (hne a ha)]
        rfl
      simpa using hkey
    · constructor
      · rw [hnext l hlr, Heap.next_putNext _ _ _ _ hlivel', if_pos rfl]
      · rw [hprev s hsr, Heap.prev_putNext, Heap.prev_putPrev _ _ _ _ hlives, if_pos rfl]
    · intro a ha hal
      rw [hnext a (hne a ha), Heap.next_putNext _ _ _ _ hlivel', if_neg hal, Heap.next_putPrev]
    · intro b hb hbs
      rw [hprev b (hne b hb), Heap.prev_putNext, Heap.prev_putPrev _ _ _ _ hlives, if_neg hbs]
  · intro a ha
    have har : a ≠ r := by
      rintro rfl
      exact ha (by simp)
    have has : a ≠ s := by
      rintro rfl
      exact ha (by simp)
    have hal : a ≠ l := by
      rintro rfl
      exact ha (List.mem_cons_of_mem _ (List.mem_of_getLast? hl))
    rw [hcell a har]
    simp [Heap.putNext, Heap.putPrev, Heap.update_cell_ne, has, hal]

theorem ringRemove_root {r : Addr} {kr : DataR} (hc : Circle h root ((r, kr) :: ns)) :
    ∃ h' root', ringRemove h root kr = some (1, h', root') ∧
      Removed h h' root' ((r, kr) :: ns) ns kr := by
  obtain rfl : root = some r := hc.root_eq
  have hkey : h.key r = some kr := hc.key (r, kr) (by simp)
  have hlive := h.live_of_key hkey
  have heq := (equalDataR_iff kr kr).mpr rfl
  have herase : entries ns = (entries ((r, kr) :: ns)).erase kr := by simp
  have hsub : ns.Sublist ((r, kr) :: ns) := List.sublist_cons_self _ _
  cases ns with
  | nil =>
      have hnext : h.next r = some r := (hc.closed r rfl r rfl).1
      refine ⟨h.drop r, none, ?_, circle_nil _, herase, hsub, ?_⟩
      · simp [ringRemove, hnext, hkey, heq, h.free_of_live r hlive, Heap.drop]
      · intro a ha
        exact h.drop_cell_ne r a (by simpa using ha)
  | cons n ns =>
      obtain ⟨s, ks⟩ := n
      obtain ⟨l, hl⟩ : ∃ l, (((s, ks) :: ns).map Prod.fst).getLast? = some l :=
        ⟨_, List.getLast?_eq_some_getLast (by simp)⟩
      obtain ⟨hnext, hprev, hsr, -, -, hlives, hlivel⟩ := root_neighbours hc hl
      have hfree : ((h.putPrev s (some l)).putNext l (some s)).free r =
          some (((h.putPrev s (some l)).putNext l (some s)).drop r) :=
        Heap.free_of_live _ r (by simpa using hlive)
      obtain ⟨hring, hsame⟩ := root_bypassed hc hl (fun a ha => Heap.drop_cell_ne _ r a ha)
      refine ⟨((h.putPrev s (some l)).putNext l (some s)).drop r, some s, ?_, hring, herase, hsub,
        hsame⟩
      simp [ringRemove, hnext, hkey, heq, hsr.symm, hprev, Heap.setPrev_of_live,
        Heap.setNext_of_live, hlives, hlivel, hfree]

theorem ringRemove_after {r : Addr} {us vs : List (Addr × DataR)} {a b : Addr} {ka K : DataR}
    (hc : Circle h (some r) ns) (hns : ns = us ++ (a, ka) :: (b, K) :: vs)
    (hK : K ∉ entries (us ++ [(a, ka)])) :
    ∃ h', ((do
        let next ← h.next b
        let h ← h.setNext a (some next)
        let h ← h.setPrev next (some a)
        let h ← h.free b
        some (1, h, some r)) : Option (Nat × RingHeap × Option Addr)) = some (1, h', some r) ∧
      Removed h h' (some r) ns (us ++ (a, ka) :: vs) K := by
  subst hns
  have hcut : us ++ (a, ka) :: (b, K) :: vs = (us ++ [(a, ka)]) ++ (b, K) :: vs := by simp
  have hglue : us ++ (a, ka) :: vs = (us ++ [(a, ka)]) ++ vs := by simp
  have hsub : (us ++ (a, ka) :: vs).Sublist (us ++ (a, ka) :: (b, K) :: vs) :=
    List.Sublist.append_left (List.Sublist.cons_cons _ (List.sublist_cons_self _ _)) us
  have hring : Circle h (some r) ((us ++ [(a, ka)]) ++ (b, K) :: vs) := hcut ▸ hc
  have hnext := hring.next_eq
  obtain ⟨t, ht⟩ : ∃ t, after (some r) vs = some t := by
    cases vs with
    | nil => exact ⟨r, rfl⟩
    | cons v vs => exact ⟨v.1, rfl⟩
  -- The node after `b` stays in the ring, it may be the root or `a` itself.
  have htmem : t ∈ (us ++ (a, ka) :: vs).map Prod.fst := by
    cases vs with
    | nil =>
        obtain rfl := Option.some.inj ht
        rw [hglue, List.append_nil]
        apply List.mem_of_head?
        rw [hring.root_eq]
        cases us <;> rfl
    | cons v vs =>
        obtain rfl := Option.some.inj ht
        simp
  have hamem : a ∈ (us ++ (a, ka) :: vs).map Prod.fst := by simp
  have hne : ∀ c ∈ (us ++ (a, ka) :: vs).map Prod.fst, c ≠ b := by
    have hnodup := hring.nodup
    rw [List.map_append, List.map_cons, List.nodup_middle] at hnodup
    rw [hglue, List.map_append]
    exact fun c hc he => (List.nodup_cons.mp hnodup).1 (he ▸ hc)
  have hlive : ∀ c ∈ (us ++ (a, ka) :: vs).map Prod.fst, h.Live c := by
    intro c hmem
    obtain ⟨n, hn, rfl⟩ := List.mem_map.mp hmem
    exact hc.live n (hsub.subset hn)
  have hliveb : h.Live b := hc.live (b, K) (by simp)
  have hfree : ((h.putNext a (some t)).putPrev t (some a)).free b =
      some (((h.putNext a (some t)).putPrev t (some a)).drop b) :=
    Heap.free_of_live _ b (by simpa using hliveb)
  have hlivet : (h.putNext a (some t)).Live t := by simpa using hlive t htmem
  have hlivea := hlive a hamem
  refine ⟨((h.putNext a (some t)).putPrev t (some a)).drop b, ?_, ?_, ?_, hsub, ?_⟩
  · simp only [hnext, ht, Option.bind_eq_bind, Option.bind_some, h.setNext_of_live a _ hlivea,
      Heap.setPrev_of_live _ t _ hlivet, hfree]
  · apply hc.remove_after ht
    · intro c hc
      rw [Heap.key_drop _ _ _ (hne c hc)]
      simp
    · constructor
      · rw [Heap.next_drop _ _ _ (hne a hamem), Heap.next_putPrev, Heap.next_putNext _ _ _ _ hlivea,
          if_pos rfl]
      · rw [Heap.prev_drop _ _ _ (hne t htmem), Heap.prev_putPrev _ _ _ _ hlivet, if_pos rfl]
    · intro c hc hca
      rw [Heap.next_drop _ _ _ (hne c hc), Heap.next_putPrev, Heap.next_putNext _ _ _ _ hlivea,
        if_neg hca]
    · intro c hc hct
      rw [Heap.prev_drop _ _ _ (hne c hc), Heap.prev_putPrev _ _ _ _ hlivet, if_neg hct,
        Heap.prev_putNext]
  · rw [hcut, hglue, entries_append (us ++ [(a, ka)]) vs, entries_append (us ++ [(a, ka)]) (_ :: vs),
      List.erase_append_right _ hK]
    simp
  · intro c hc
    have hcb : c ≠ b := by
      rintro rfl
      exact hc (by simp)
    have hca : c ≠ a := by
      rintro rfl
      exact hc (by simp)
    have hct : c ≠ t := by
      rintro rfl
      exact hc ((hsub.map _).subset htmem)
    simp [Heap.drop, Heap.putNext, Heap.putPrev, Heap.update_cell_ne, hcb, hca, hct]

theorem eraseP_first (us vs : List (Addr × DataR)) (n : Addr × DataR) (hn : n.2 ∉ entries us) :
    (us ++ n :: vs).eraseP (fun m => m.2 == n.2) = us ++ vs := by
  have hus : ∀ m ∈ us, ¬ (m.2 == n.2) = true := by
    intro m hm he
    exact hn (eq_of_beq he ▸ List.mem_map_of_mem hm)
  rw [List.eraseP_append_right _ hus, List.eraseP_cons_of_pos (by simp)]

-- The first node with these data is the one that goes.
theorem ringRemove_first {us vs : List (Addr × DataR)} {n : Addr × DataR}
    (hc : Circle h root (us ++ n :: vs)) (hn : n.2 ∉ entries us) :
    ∃ h' root', ringRemove h root n.2 = some (1, h', root') ∧
      Removed h h' root' (us ++ n :: vs) (us ++ vs) n.2 := by
  cases us with
  | nil => exact ringRemove_root hc
  | cons u us =>
      obtain ⟨r, kr⟩ := u
      obtain rfl : root = some r := hc.root_eq
      have hkr : kr ≠ n.2 := fun he => hn (by simp [he])
      have hkey : h.key r = some kr := hc.key (r, kr) (by simp)
      have hne := equalDataR_eq_false hkr
      obtain ⟨b, kb, ws, hcut⟩ : ∃ b kb ws, us ++ n :: vs = (b, kb) :: ws := by
        cases us with
        | nil => exact ⟨n.1, n.2, vs, rfl⟩
        | cons u us => exact ⟨u.1, u.2, us ++ n :: vs, rfl⟩
      have hring : Circle h (some r) ((r, kr) :: (b, kb) :: ws) := hcut ▸ hc
      have hnext : h.next r = some b := (@Circle.linked _ _ _ [] _ _ _ _ _ hring).1
      have hbr : b ≠ r := (@Circle.next_cons _ _ [] _ _ _ _ _ _ hring).2
      have hlen := hring.length_le
      simp only [List.length_cons] at hlen
      rcases ringRemoveLoop_eq hring n.2 h.brk [] ws r b kr kb rfl (by simp [Ne.symm hkr]) (by omega)
        with ⟨hK, -⟩ | ⟨us', vs', a, b', ka, hns, hK, hloop⟩
      · refine absurd ?_ hK
        rw [← hcut]
        simp
      · obtain ⟨h', hcall, hrem⟩ := ringRemove_after hring hns hK
        have hsame : ((r, kr) :: us) ++ vs = us' ++ (a, ka) :: vs' := by
          have hleft := eraseP_first ((r, kr) :: us) vs n hn
          have hright := eraseP_first (us' ++ [(a, ka)]) vs' (b', n.2) hK
          rw [List.cons_append, hcut, hns] at hleft
          simp only [List.append_assoc, List.singleton_append] at hright
          exact hleft.symm.trans hright
        refine ⟨h', some r, ?_, ?_⟩
        · rw [← hcall]
          simp [ringRemove, hnext, hkey, hne, hbr, hloop]
        · rw [hsame, List.cons_append, hcut]
          exact hrem

theorem ringRemove_absent (hc : Circle h root ns) {K : DataR} (hK : K ∉ entries ns) :
    ringRemove h root K = some (0, h, root) := by
  cases ns with
  | nil =>
      obtain rfl : root = none := hc.root_eq
      rfl
  | cons n ns =>
      obtain ⟨r, kr⟩ := n
      obtain rfl : root = some r := hc.root_eq
      have hkr : kr ≠ K := fun he => hK (by simp [he])
      have hkey : h.key r = some kr := hc.key (r, kr) (by simp)
      have hne := equalDataR_eq_false hkr
      cases ns with
      | nil =>
          have hnext : h.next r = some r := (hc.closed r rfl r rfl).1
          simp [ringRemove, hnext, hkey, hne]
      | cons n ns =>
          obtain ⟨b, kb⟩ := n
          have hnext : h.next r = some b := (@Circle.linked _ _ _ [] _ _ _ _ _ hc).1
          have hbr : b ≠ r := (@Circle.next_cons _ _ [] _ _ _ _ _ _ hc).2
          have hlen := hc.length_le
          simp only [List.length_cons] at hlen
          rcases ringRemoveLoop_eq hc K h.brk [] ns r b kr kb rfl (by simp [Ne.symm hkr]) (by omega)
            with ⟨-, hloop⟩ | ⟨us, vs, a, b', ka, hns, -, -⟩
          · simp [ringRemove, hnext, hkey, hne, hbr, hloop]
          · refine absurd ?_ hK
            rw [hns]
            simp

theorem ringRemove_circle (hc : Circle h root ns) (K : DataR) :
    (K ∈ entries ns ∧ ∃ h' root' ns', ringRemove h root K = some (1, h', root') ∧
      Removed h h' root' ns ns' K) ∨
    (K ∉ entries ns ∧ ringRemove h root K = some (0, h, root)) := by
  by_cases hK : K ∈ entries ns
  · obtain ⟨ks, ks', hsplit, hfirst⟩ := List.eq_append_cons_of_mem hK
    obtain ⟨us, ws, rfl, rfl, hws⟩ := List.map_eq_append_iff.mp hsplit
    obtain ⟨n, vs, rfl, rfl, -⟩ := List.map_eq_cons_iff.mp hws
    obtain ⟨h', root', hcall, hrem⟩ := ringRemove_first hc hfirst
    exact Or.inl ⟨hK, h', root', us ++ vs, hcall, hrem⟩
  · exact Or.inr ⟨hK, ringRemove_absent hc hK⟩

end Remove

section Count

variable {h : RingHeap} {root : Option Addr} {ns : List (Addr × DataR)}

theorem ringCountLoop_eq {r : Addr} (hc : Circle h (some r) ns) (fuel : Nat)
    (us vs : List (Addr × DataR)) (a : Addr) (ka : DataR) (hns : ns = us ++ (a, ka) :: vs)
    (hfuel : vs.length < fuel) :
    ringCountLoop h r fuel a (Int32.ofNat (us.length + 1)) = some (Int32.ofNat ns.length) := by
  induction fuel generalizing us vs a ka with
  | zero => omega
  | succ fuel ih =>
      cases vs with
      | nil =>
          have hnext : h.next a = some r := (hns ▸ hc).next_last
          simp [ringCountLoop, hnext, hns]
      | cons v vs =>
          obtain ⟨b, kb⟩ := v
          obtain ⟨hnext, hbr⟩ : h.next a = some b ∧ b ≠ r := (hns ▸ hc).next_cons
          have hrest := ih (us ++ [(a, ka)]) vs b kb (by rw [hns]; simp) (by simpa using hfuel)
          rw [List.length_append, List.length_singleton, ← ofNat_succ] at hrest
          simpa only [ringCountLoop, hnext, hbr, Option.bind_eq_bind, Option.bind_some, if_false]
            using hrest

theorem ringCount_circle (hc : Circle h root ns) :
    ringCount h root = some (Int32.ofNat ns.length) := by
  cases ns with
  | nil =>
      obtain rfl : root = none := hc.root_eq
      rfl
  | cons n ns =>
      obtain ⟨r, kr⟩ := n
      obtain rfl : root = some r := hc.root_eq
      have hlen := hc.length_le
      exact ringCountLoop_eq hc h.brk [] ns r kr rfl hlen

end Count

end Gallery
