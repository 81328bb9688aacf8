import Mathlib.Data.List.Perm.Basic

namespace Gallery

section Reaches

variable {σ α : Type}

-- The states a system gets to by steps that each meet `ok`; `none` is an action
-- that cannot be taken.
inductive Reaches (step : σ → α → Option σ) (ok : σ → α → Prop) (start : σ) : σ → Prop
  | refl : Reaches step ok start start
  | step {s t : σ} (a : α) (hs : Reaches step ok start s) (ha : ok s a) (ht : step s a = some t) :
      Reaches step ok start t

variable {step : σ → α → Option σ} {ok : σ → α → Prop} {start s t : σ}

-- What holds at the start and is kept by every step holds in every state reached.
theorem Reaches.invariant {I : σ → Prop} (h : Reaches step ok start s) (hstart : I start)
    (hstep : ∀ s a t, I s → ok s a → step s a = some t → I t) : I s := by
  induction h with
  | refl => exact hstart
  | step a _ ha ht ih => exact hstep _ a _ ih ha ht

theorem Reaches.trans {u : σ} (h : Reaches step ok start s) (h' : Reaches step ok s u) :
    Reaches step ok start u := by
  induction h' with
  | refl => exact h
  | step a _ ha ht ih => exact ih.step a ha ht

-- A schedule played out, as long as each step meets `ok`.
def execute (step : σ → α → Option σ) (ok : σ → α → Prop) [∀ s a, Decidable (ok s a)] :
    σ → List α → Option σ
  | s, [] => some s
  | s, a :: rest => if ok s a then (step s a).bind (fun t => execute step ok t rest) else none

theorem reaches_of_execute [∀ s a, Decidable (ok s a)] (schedule : List α)
    (h : execute step ok s schedule = some t) : Reaches step ok s t := by
  induction schedule generalizing s with
  | nil => exact Option.some.inj h ▸ Reaches.refl
  | cons a rest ih =>
      rw [execute] at h
      split at h
      case isTrue ha =>
        obtain ⟨u, hu, hrest⟩ := Option.bind_eq_some_iff.mp h
        exact (Reaches.refl.step a ha hu).trans (ih hrest)
      case isFalse => cases h

end Reaches

section Pools

variable {α : Type}

-- One element of a pool, wherever it stands, and the others.
def pick (l : List α) (i : Nat) : Option (α × List α) := l[i]?.map (fun x => (x, l.eraseIdx i))

theorem pick_perm {l rest : List α} {i : Nat} {x : α} (h : pick l i = some (x, rest)) :
    l.Perm (x :: rest) := by
  obtain ⟨y, hy, he⟩ := Option.map_eq_some_iff.mp h
  obtain ⟨rfl, rfl⟩ := Prod.mk.inj he
  obtain ⟨hi, rfl⟩ := List.getElem?_eq_some_iff.mp hy
  exact (List.getElem_cons_eraseIdx_perm hi).symm

theorem pick_get {l rest : List α} {i : Nat} {x : α} (h : pick l i = some (x, rest)) :
    l[i]? = some x := by
  obtain ⟨y, hy, he⟩ := Option.map_eq_some_iff.mp h
  obtain ⟨rfl, -⟩ := Prod.mk.inj he
  exact hy

theorem pick_mem {l rest : List α} {i : Nat} {x : α} (h : pick l i = some (x, rest)) : x ∈ l :=
  (pick_perm h).mem_iff.mpr List.mem_cons_self

theorem pick_rest_subset {l rest : List α} {i : Nat} {x y : α} (h : pick l i = some (x, rest))
    (hy : y ∈ rest) : y ∈ l :=
  (pick_perm h).mem_iff.mpr (List.mem_cons_of_mem x hy)

theorem pick_map {β : Type} (f : α → β) (l : List α) (i : Nat) :
    pick (l.map f) i = (pick l i).map (fun x => (f x.1, x.2.map f)) := by
  simp only [pick, List.getElem?_map, Option.map_map, List.eraseIdx_map]
  rfl

theorem pick_nil {rest : List α} {i : Nat} {x : α} : pick [] i ≠ some (x, rest) :=
  fun h => List.not_mem_nil (pick_mem h)

theorem pick_singleton {rest : List α} {i : Nat} {x y : α} (h : pick [y] i = some (x, rest)) :
    x = y ∧ rest = [] := by
  obtain ⟨rfl, rfl⟩ := List.cons.inj (List.singleton_perm.mp (pick_perm h))
  exact ⟨rfl, rfl⟩

variable (weight : α → Nat)

-- How much all elements of a pool weigh together.
def total : List α → Nat
  | [] => 0
  | x :: l => weight x + total l

@[simp] theorem total_nil : total weight [] = 0 := rfl

@[simp] theorem total_cons (x : α) (l : List α) :
    total weight (x :: l) = weight x + total weight l := rfl

@[simp] theorem total_append (l l' : List α) :
    total weight (l ++ l') = total weight l + total weight l' := by
  induction l with
  | nil => simp
  | cons x l ih => simp [ih, Nat.add_assoc]

theorem total_eq_zero {l : List α} (h : ∀ x ∈ l, weight x = 0) : total weight l = 0 := by
  induction l with
  | nil => rfl
  | cons x l ih =>
      rw [total_cons, h x List.mem_cons_self, ih (fun y hy => h y (List.mem_cons_of_mem x hy))]

theorem le_total {l : List α} {x : α} (h : x ∈ l) : weight x ≤ total weight l := by
  induction l with
  | nil => cases h
  | cons y l ih =>
      rw [total_cons]
      rcases List.mem_cons.mp h with rfl | hrest
      · omega
      · have := ih hrest
        omega

-- Where all together weigh one, nothing else than the one that weighs does.
theorem eq_of_total_le_one {l : List α} {x y : α} (hx : x ∈ l) (hy : y ∈ l) (hwx : 0 < weight x)
    (hwy : 0 < weight y) (h : total weight l ≤ 1) : x = y := by
  induction l with
  | nil => cases hx
  | cons z l ih =>
      rw [total_cons] at h
      rcases List.mem_cons.mp hx with rfl | hrestx
      · rcases List.mem_cons.mp hy with rfl | hresty
        · rfl
        · have hle := le_total weight hresty
          omega
      · rcases List.mem_cons.mp hy with rfl | hresty
        · have hle := le_total weight hrestx
          omega
        · exact ih hrestx hresty (by omega)

theorem total_perm {l l' : List α} (h : l.Perm l') : total weight l = total weight l' := by
  induction h with
  | nil => rfl
  | cons x _ ih => rw [total_cons, total_cons, ih]
  | swap x y l => simp only [total_cons, Nat.add_left_comm]
  | trans _ _ ih ih' => rw [ih, ih']

theorem total_pick {l rest : List α} {i : Nat} {x : α} (h : pick l i = some (x, rest)) :
    total weight l = weight x + total weight rest := total_perm weight (pick_perm h)

theorem total_filter_le (l : List α) (keep : α → Bool) :
    total weight (l.filter keep) ≤ total weight l := by
  induction l with
  | nil => exact Nat.le_refl _
  | cons x l ih =>
      rw [List.filter_cons]
      split
      · rw [total_cons, total_cons]
        omega
      · rw [total_cons]
        omega

end Pools

section Work

variable {σ α : Type} {step : σ → α → Option σ} {I : σ → Prop} {size : σ → Nat} {gain cost : α → Nat}

-- A schedule costs no more than the work there is and the work its actions bring in.
theorem foldlM_work (hstep : ∀ s a t, I s → step s a = some t → I t ∧ size t + cost a ≤ size s + gain a)
    {schedule : List α} {s t : σ} (hs : I s) (h : schedule.foldlM step s = some t) :
    I t ∧ size t + total cost schedule ≤ size s + total gain schedule := by
  induction schedule generalizing s with
  | nil =>
      obtain rfl := Option.some.inj h
      exact ⟨hs, Nat.le_refl _⟩
  | cons a rest ih =>
      rw [List.foldlM_cons] at h
      obtain ⟨u, hu, hrest⟩ := Option.bind_eq_some_iff.mp h
      obtain ⟨hI, hua⟩ := hstep s a u hs hu
      obtain ⟨ht, hwork⟩ := ih hI hrest
      refine ⟨ht, ?_⟩
      rw [total_cons, total_cons]
      omega

-- Where every state is at the goal or has a step to a smaller one, the goal is reached.
theorem exists_reaches_of_progress {ok : σ → α → Prop} {Goal : σ → Prop} (size : σ → Nat)
    (hprogress : ∀ s, I s → Goal s ∨ ∃ a t, ok s a ∧ step s a = some t ∧ I t ∧ size t < size s)
    {s : σ} (hs : I s) : ∃ t, Reaches step ok s t ∧ Goal t := by
  induction hn : size s using Nat.strongRecOn generalizing s with
  | ind n ih =>
      rcases hprogress s hs with hgoal | ⟨a, u, ha, hu, hI, hless⟩
      · exact ⟨s, Reaches.refl, hgoal⟩
      · obtain ⟨t, ht, hgoal⟩ := ih (size u) (hn ▸ hless) hI rfl
        exact ⟨t, (Reaches.refl.step a ha hu).trans ht, hgoal⟩

end Work

end Gallery
