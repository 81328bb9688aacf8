import Mathlib.Logic.Function.Basic

namespace Gallery

-- A directory and the files behind its entries. An open file is known by its number and
-- outlives its entry; no file has two entries.
structure Disk (α β : Type) where
  entries : α → Option Nat
  contents : Nat → β
  files : Nat
  entries_lt : ∀ {name file}, entries name = some file → file < files
  entries_inj : ∀ {name other file}, entries name = some file → entries other = some file →
    other = name

namespace Disk

variable {α β : Type}

def empty (contents : Nat → β) : Disk α β where
  entries := fun _ => none
  contents := contents
  files := 0
  entries_lt := by
    intro _ _ h
    cases h
  entries_inj := by
    intro _ _ _ h
    cases h

-- What is found under a name when it is opened to be read.
def read (d : Disk α β) (name : α) : Option β := (d.entries name).map d.contents

-- A write goes to the open file, whatever became of its entry.
def write (d : Disk α β) (file : Nat) (bytes : β) : Disk α β :=
  { d with contents := Function.update d.contents file bytes }

section Write

variable (d : Disk α β) {name : α} {file : Nat} (bytes : β)

@[simp] theorem write_entries : (d.write file bytes).entries = d.entries := rfl

theorem write_read_self (h : d.entries name = some file) :
    (d.write file bytes).read name = some bytes := by
  simp [read, write, h]

theorem write_read_other (h : d.entries name ≠ some file) :
    (d.write file bytes).read name = d.read name := by
  simp only [read, write]
  cases hentry : d.entries name with
  | none => rfl
  | some file' =>
      have hne : file' ≠ file := by
        rintro rfl
        exact h hentry
      simp [hne]

end Write

-- A file that was opened under a name: it may have lost this entry but has no other.
structure Opened (d : Disk α β) (name : α) (file : Nat) : Prop where
  lt : file < d.files
  only : ∀ other, d.entries other = some file → other = name

section Opened

variable {d : Disk α β} {name other : α} {file file' : Nat} {bytes : β}

theorem opened_of_entries (h : d.entries name = some file) : d.Opened name file :=
  ⟨d.entries_lt h, fun _ h' => d.entries_inj h h'⟩

theorem Opened.write (h : d.Opened name file) : (d.write file' bytes).Opened name file :=
  ⟨h.lt, h.only⟩

theorem Opened.write_read_other (h : d.Opened name file) (hother : other ≠ name) :
    (d.write file bytes).read other = d.read other :=
  Disk.write_read_other d bytes (fun hentry => hother (h.only other hentry))

end Opened

variable [DecidableEq α]

def unlink (d : Disk α β) (name : α) : Disk α β where
  entries := fun other => if other = name then none else d.entries other
  contents := d.contents
  files := d.files
  entries_lt := by
    intro other file h
    split at h
    · cases h
    · exact d.entries_lt h
  entries_inj := by
    intro other other' file h h'
    split at h
    · cases h
    · split at h'
      · cases h'
      · exact d.entries_inj h h'

-- A file that did not exist is entered under the name.
def enter (d : Disk α β) (name : α) (bytes : β) : Disk α β where
  entries := fun other => if other = name then some d.files else d.entries other
  contents := Function.update d.contents d.files bytes
  files := d.files + 1
  entries_lt := by
    intro other file h
    split at h
    · obtain rfl := Option.some.inj h
      exact Nat.lt_succ_self _
    · exact Nat.lt_succ_of_lt (d.entries_lt h)
  entries_inj := by
    intro other other' file h h'
    split at h
    case isTrue hother =>
      obtain rfl := Option.some.inj h
      split at h'
      case isTrue hother' => exact hother'.trans hother.symm
      case isFalse => exact absurd (d.entries_lt h') (Nat.lt_irrefl _)
    case isFalse =>
      split at h'
      case isTrue =>
        obtain rfl := Option.some.inj h'
        exact absurd (d.entries_lt h) (Nat.lt_irrefl _)
      case isFalse => exact d.entries_inj h h'

-- Opened to be written, a file starts with `bytes` again; the number is its own.
def create (d : Disk α β) (name : α) (bytes : β) : Nat × Disk α β :=
  match d.entries name with
  | some file => (file, d.write file bytes)
  | none => (d.files, d.enter name bytes)

section Read

variable (d : Disk α β) (name other : α) (file : Nat) (bytes : β)

@[simp] theorem unlink_read :
    (d.unlink name).read other = if other = name then none else d.read other := by
  simp only [read, unlink]
  split <;> rfl

theorem unlink_entries (h : other ≠ name) : (d.unlink name).entries other = d.entries other :=
  if_neg h

@[simp] theorem create_entries :
    (d.create name bytes).2.entries other =
      if other = name then some (d.create name bytes).1 else d.entries other := by
  unfold create
  split
  case h_1 file hentry =>
    by_cases hother : other = name
    · rw [if_pos hother, hother]
      exact hentry
    · rw [if_neg hother]
      rfl
  case h_2 => rfl

theorem create_fst {file : Nat} (h : d.entries name = some file) :
    (d.create name bytes).1 = file := by
  simp only [create, h]

theorem create_contents_self : (d.create name bytes).2.contents (d.create name bytes).1 = bytes := by
  unfold create
  split <;> exact Function.update_self _ _ _

@[simp] theorem create_read :
    (d.create name bytes).2.read other = if other = name then some bytes else d.read other := by
  by_cases hother : other = name
  · rw [read, create_entries, if_pos hother, if_pos hother, Option.map_some, create_contents_self]
  · rw [if_neg hother, read, create_entries, if_neg hother]
    unfold create
    split
    case h_1 file hentry =>
      exact write_read_other d bytes (fun h => hother (d.entries_inj hentry h))
    case h_2 hentry =>
      cases hentry' : d.entries other with
      | none => simp [read, hentry']
      | some file =>
          have hne : file ≠ d.files := Nat.ne_of_lt (d.entries_lt hentry')
          simp [read, hentry', enter, hne]

-- Nothing in between, a file that is created and written holds just what was written.
theorem create_write_read (bytes' : β) :
    ((d.create name bytes).2.write (d.create name bytes).1 bytes').read other =
      if other = name then some bytes' else d.read other := by
  by_cases hother : other = name
  · rw [if_pos hother]
    apply write_read_self
    rw [create_entries, if_pos hother]
  · rw [if_neg hother, write_read_other, create_read, if_neg hother]
    intro h
    have hself : (d.create name bytes).2.entries name = some (d.create name bytes).1 := by simp
    exact hother ((d.create name bytes).2.entries_inj hself h)

end Read

section Opened

variable {d : Disk α β} {name other : α} {file : Nat} {bytes : β}

theorem Opened.unlink (h : d.Opened name file) : (d.unlink other).Opened name file := by
  refine ⟨h.lt, fun other' h' => ?_⟩
  simp only [Disk.unlink] at h'
  split at h'
  · cases h'
  · exact h.only other' h'

theorem create_opened : (d.create name bytes).2.Opened name (d.create name bytes).1 := by
  apply opened_of_entries
  simp

theorem Opened.create (h : d.Opened name file) : (d.create other bytes).2.Opened name file := by
  have hlt : file < (d.create other bytes).2.files := by
    unfold Disk.create
    split
    · exact h.lt
    · exact Nat.lt_succ_of_lt h.lt
  refine ⟨hlt, fun other' h' => ?_⟩
  rw [create_entries] at h'
  split at h'
  case isFalse => exact h.only other' h'
  case isTrue hother =>
    -- The number is one the file had before, since a new one is larger than all.
    have hnum := Option.some.inj h'
    unfold Disk.create at hnum
    split at hnum
    case h_1 file' hentry =>
      obtain rfl : file' = file := hnum
      exact hother.trans (h.only other hentry)
    case h_2 => exact absurd h.lt (by rw [← hnum]; exact Nat.lt_irrefl _)

end Opened

end Disk

end Gallery
