import Gallery.Library
import Mathlib.Data.List.Nodup

namespace Gallery

open Bytes Text

-- What a peer is for: an album of photos, the oldest first.
structure Photo where
  id : UInt32
  name : CString
  keywords : List CString
  bytes : List Byte
  deriving DecidableEq

abbrev Album := List Photo

def Album.ids (a : Album) : List UInt32 := a.map Photo.id

@[simp] theorem Album.ids_append (a b : Album) : Album.ids (a ++ b) = a.ids ++ b.ids := List.map_append

def Album.lookup (a : Album) (id : UInt32) : Option Photo := a.find? (fun q => q.id == id)

-- The requests of a client. The id of a new photo is the one the gateway gave.
inductive Request
  | addPhoto (id : UInt32) (name : CString) (bytes : List Byte)
  | addKeyword (id : UInt32) (keyword : CString)
  | searchPhoto (keyword : CString)
  | deletePhoto (id : UInt32)
  | getPhotoName (id : UInt32)
  | getPhoto (id : UInt32)

inductive Reply
  | id (n : UInt32)
  | success (i : Int32)
  | photos (ids : List UInt32)
  | name (n : Option CString)
  | photo (bytes : Option (List Byte))
  deriving DecidableEq

section Album

variable (a : Album)

def Album.addKeyword (id : UInt32) (keyword : CString) : Album × Int32 :=
  match a.lookup id with
  | none => (a, -2)
  | some q =>
      if q.keywords.length = MAX_KEYWORDS then (a, -1)
      else if keyword ∈ q.keywords then (a, -3)
      else (a.map (fun q =>
        if q.id = id then { q with keywords := q.keywords ++ [keyword] } else q), 1)

def Album.step : Request → Album × Reply
  | .addPhoto id name bytes => (a ++ [⟨id, name, [], bytes⟩], .id id)
  | .addKeyword id keyword =>
      let (a, success) := a.addKeyword id keyword
      (a, .success success)
  | .searchPhoto keyword => (a, .photos (Album.ids (a.filter (fun q => keyword ∈ q.keywords))))
  | .deletePhoto id =>
      (a.filter (fun q => q.id != id), .success (if id ∈ a.ids then 1 else 0))
  | .getPhotoName id => (a, .name ((a.lookup id).map Photo.name))
  | .getPhoto id => (a, .photo ((a.lookup id).map Photo.bytes))

def Album.run : Album → List Request → Album × List Reply
  | a, [] => (a, [])
  | a, r :: rest =>
      let (a, reply) := a.step r
      let (a, replies) := Album.run a rest
      (a, reply :: replies)

end Album

-- The replies as they travel: a length before an array or a name, a size before
-- the bytes of a photo.
def Reply.stream : Reply → List Byte
  | id n => uint32Bytes n
  | success i => intBytes i
  | photos ids => intBytes (Int32.ofNat ids.length) ++ ids.flatMap uint32Bytes
  | name none => intBytes 0
  | name (some n) => intBytes (Int32.ofNat (n ++ [0]).length) ++ (n ++ [0])
  | photo none => leBytes 8 0
  | photo (some bytes) => leBytes 8 bytes.length ++ bytes

-- The message a client sends for a request, and what follows it.
def Request.text : Request → CString
  | addPhoto _ name bytes => name ++ 44 :: decimal bytes.length
  | addKeyword id keyword => addKeywordText id keyword
  | searchPhoto keyword => keyword
  | deletePhoto id => photoIdText id
  | getPhotoName id => photoIdText id
  | getPhoto id => photoIdText id

def Request.type : Request → Int32
  | addPhoto _ _ _ => 1
  | addKeyword _ _ => 2
  | searchPhoto _ => 3
  | deletePhoto _ => 4
  | getPhotoName _ => 5
  | getPhoto _ => 6

def Request.content : Request → List Byte
  | addPhoto _ _ bytes => bytes
  | _ => []

-- The requests a client may make while the album is `a`.
def Request.Valid (a : Album) : Request → Prop
  | addPhoto id name bytes =>
      id ≠ 0 ∧ id ∉ a.ids ∧ name ≠ [] ∧ 44 ∉ name ∧ 0 ∉ name ∧ bytes ≠ []
  | addKeyword _ keyword => keyword ≠ [] ∧ 0 ∉ keyword ∧ ∀ b ∈ keyword, isSpace b = false
  | searchPhoto keyword => 0 ∉ keyword
  | _ => True

-- The photos that a search finds are counted in an `int`.
def Request.Counted (a : Album) : Request → Prop
  | searchPhoto keyword => (a.filter (fun q => keyword ∈ q.keywords)).length < 2 ^ 31
  | _ => True

theorem Request.counted_of_length {a : Album} (h : a.length < 2 ^ 31) (r : Request) : r.Counted a := by
  cases r with
  | searchPhoto keyword => exact Nat.lt_of_le_of_lt (List.length_filter_le _ _) h
  | _ => trivial

-- What holds of every album a peer can come to hold.
structure Album.WellFormed (a : Album) : Prop where
  ids : a.ids.Nodup
  keywords : ∀ q ∈ a, q.keywords.Nodup ∧ q.keywords.length ≤ MAX_KEYWORDS

theorem Album.wellFormed_nil : Album.WellFormed [] := ⟨by simp [Album.ids], by simp⟩

section WellFormed

variable {a : Album} (ha : a.WellFormed)

theorem Album.lookup_eq_none (id : UInt32) : a.lookup id = none ↔ id ∉ a.ids := by
  rw [Album.lookup, List.find?_eq_none, Album.ids, List.mem_map]
  simp

include ha

theorem Album.lookup_eq_some (id : UInt32) (q : Photo) :
    a.lookup id = some q ↔ q ∈ a ∧ q.id = id := by
  constructor
  · intro h
    have hid := List.find?_some (p := fun q : Photo => q.id == id) h
    exact ⟨List.mem_of_find?_eq_some h, by simpa using hid⟩
  · rintro ⟨hq, rfl⟩
    have hsome : (a.lookup q.id).isSome := by
      rw [Album.lookup, List.find?_isSome]
      exact ⟨q, hq, by simp⟩
    obtain ⟨q', h⟩ := Option.isSome_iff_exists.mp hsome
    have hid := List.find?_some (p := fun q' : Photo => q'.id == q.id) h
    have heq := List.inj_on_of_nodup_map ha.ids (List.mem_of_find?_eq_some h) hq (by simpa using hid)
    rw [h, heq]

omit ha in
@[simp] theorem Album.addKeyword_ids (id : UInt32) (keyword : CString) :
    (a.addKeyword id keyword).1.ids = a.ids := by
  unfold Album.addKeyword
  split
  · rfl
  · split_ifs
    · rfl
    · rfl
    · simp only [Album.ids, List.map_map]
      apply List.map_congr_left
      intro q _
      simp only [Function.comp_apply]
      split <;> rfl

theorem Album.addKeyword_wellFormed (id : UInt32) (keyword : CString) :
    (a.addKeyword id keyword).1.WellFormed := by
  unfold Album.addKeyword
  cases h : a.lookup id with
  | none => exact ha
  | some q =>
      obtain ⟨hq, hid⟩ := (Album.lookup_eq_some ha id q).mp h
      obtain ⟨hnodup, hle⟩ := ha.keywords q hq
      simp only
      split
      · exact ha
      · rename_i hfull
        split
        · exact ha
        · rename_i hnew
          constructor
          · have hids : Album.ids (a.map (fun q =>
                if q.id = id then { q with keywords := q.keywords ++ [keyword] } else q)) = a.ids := by
              simp only [Album.ids, List.map_map]
              apply List.map_congr_left
              intro q _
              simp only [Function.comp_apply]
              split <;> rfl
            rw [hids]
            exact ha.ids
          · intro q' hq'
            obtain ⟨r, hr, rfl⟩ := List.mem_map.mp hq'
            by_cases hrid : r.id = id
            · obtain rfl := List.inj_on_of_nodup_map ha.ids hr hq (hrid.trans hid.symm)
              rw [if_pos hrid]
              refine ⟨?_, ?_⟩
              · exact List.nodup_append.mpr ⟨hnodup, List.nodup_singleton _, by
                  intro x hx y hy
                  obtain rfl := List.mem_singleton.mp hy
                  exact fun he => hnew (he ▸ hx)⟩
              · simp only [List.length_append, List.length_singleton]
                omega
            · rw [if_neg hrid]
              exact ha.keywords r hr

theorem Album.step_wellFormed (r : Request) (hr : r.Valid a) : (a.step r).1.WellFormed := by
  cases r with
  | addPhoto id name bytes =>
      obtain ⟨-, hid, -⟩ := hr
      constructor
      · simp only [Album.step, Album.ids, List.map_append, List.map_cons, List.map_nil]
        exact List.nodup_append.mpr ⟨ha.ids, List.nodup_singleton _, by
          intro x hx y hy
          obtain rfl := List.mem_singleton.mp hy
          exact fun he => hid (he ▸ hx)⟩
      · intro q hq
        rcases List.mem_append.mp hq with hq | hq
        · exact ha.keywords q hq
        · obtain rfl := List.mem_singleton.mp hq
          simp
  | addKeyword id keyword => exact Album.addKeyword_wellFormed ha id keyword
  | deletePhoto id =>
      have hsub : (a.filter (fun q => q.id != id)).Sublist a := List.filter_sublist
      exact ⟨ha.ids.sublist (hsub.map _), fun q hq => ha.keywords q (hsub.subset hq)⟩
  | searchPhoto keyword => exact ha
  | getPhotoName id => exact ha
  | getPhoto id => exact ha

end WellFormed

end Gallery
