import Gallery.Client

namespace Gallery

open Bytes Text

section Scanning

-- What `%[^\n]` reads after a blank, and what `%s` reads.
structure IsText (t : CString) : Prop where
  ne : t ≠ []
  nul : 0 ∉ t
  newline : 10 ∉ t
  head : Stops isSpace t

structure IsWord (w : CString) : Prop where
  ne : w ≠ []
  nul : 0 ∉ w
  space : ∀ b ∈ w, isSpace b = false

variable {s field rest w t line : CString}

theorem IsWord.isText (hw : IsWord w) : IsText w where
  ne := hw.ne
  nul := hw.nul
  newline := fun h => absurd (hw.space 10 h) (by decide)
  head := fun b hb => hw.space b (List.mem_of_mem_head? hb)

theorem scanWord_isWord (h : scanWord s = some (w, rest)) (hs : 0 ∉ s) :
    IsWord w ∧ w.length + rest.length ≤ s.length ∧ 0 ∉ rest := by
  have hspace := scanWord_noSpace h
  simp only [scanWord] at h
  split at h
  case isTrue => cases h
  case isFalse hne =>
      obtain ⟨rfl, rfl⟩ := Prod.mk.inj (Option.some.inj h)
      have hsub : (s.dropWhile isSpace).Sublist s := List.dropWhile_sublist _
      have hlength := congrArg List.length
        (List.takeWhile_append_dropWhile (p := fun b => !isSpace b) (l := s.dropWhile isSpace))
      rw [List.length_append] at hlength
      refine ⟨⟨hne, fun h0 => hs (hsub.subset ((List.takeWhile_sublist _).subset h0)), hspace⟩, ?_,
        fun h0 => hs (hsub.subset ((List.dropWhile_sublist _).subset h0))⟩
      have := hsub.length_le
      omega

theorem scanUntil_isText (h : scanUntil 10 (s.dropWhile isSpace) = some (t, rest)) (hs : 0 ∉ s) :
    IsText t ∧ t.length ≤ s.length := by
  have hnewline := scanUntil_stop h
  simp only [scanUntil] at h
  split at h
  case isTrue => cases h
  case isFalse hne =>
      obtain ⟨rfl, -⟩ := Prod.mk.inj (Option.some.inj h)
      have hsub := (List.takeWhile_sublist (· != 10)).trans (List.dropWhile_sublist (l := s) isSpace)
      refine ⟨⟨hne, fun h0 => hs (hsub.subset h0), hnewline, fun b hb => ?_⟩, hsub.length_le⟩
      rw [List.head?_takeWhile] at hb
      have hhead : (s.dropWhile isSpace).head? = some b := (Option.filter_eq_some_iff.mp hb).1
      have hnot := List.head?_dropWhile_not isSpace s
      rwa [hhead] at hnot

theorem scanNumber_sublist {negative : Bool} {value : Nat}
    (h : scanNumber s = some ((negative, value), rest)) : rest.Sublist s := by
  have hsign : ∀ u : List Byte, (scanSign u).2.Sublist u := by
    intro u
    cases u with
    | nil => exact List.Sublist.refl _
    | cons b u =>
        rw [scanSign]
        split
        · exact List.sublist_cons_self b u
        · split
          · exact List.sublist_cons_self b u
          · exact List.Sublist.refl _
  simp only [scanNumber] at h
  split at h
  · cases h
  · obtain ⟨-, rfl⟩ := Prod.mk.inj (Option.some.inj h)
    exact ((List.dropWhile_sublist _).trans (hsign _)).trans (List.dropWhile_sublist _)

-- A word, a blank and a text.
theorem sscanfCommand_text (hw : IsWord w) (ht : IsText t) :
    sscanfCommand (w ++ 32 :: (t ++ [10])) = (w, t) := by
  have hblank : isSpace 32 = true := by decide
  have hword : scanWord (w ++ 32 :: (t ++ [10])) = some (w, 32 :: (t ++ [10])) :=
    scanWord_append w _ hw.ne hw.space (stops_cons _ _ _ (by simp [hblank]))
  have hskip : (32 :: (t ++ [10])).dropWhile isSpace = t ++ [10] := by
    rw [List.dropWhile_cons, if_pos hblank]
    cases ht' : t with
    | nil => exact absurd ht' ht.ne
    | cons b t =>
        have hb : isSpace b = false := ht.head b (by simp [ht'])
        simp [hb]
  rw [sscanfCommand, hword]
  simp only [hskip, scanUntil_append 10 t [] ht.ne ht.newline]

theorem sscanfCommand_word (hw : IsWord w) : sscanfCommand (w ++ [10]) = (w, []) := by
  have hword : scanWord (w ++ [10]) = some (w, [10]) :=
    scanWord_append w _ hw.ne hw.space (stops_cons _ _ _ (by decide))
  rw [sscanfCommand, hword]
  rfl

theorem sscanfIdWord_text (photo_id : UInt32) (hw : IsWord w) :
    sscanfIdWord (decimal photo_id.toNat ++ 32 :: w) = (photo_id, some w) := by
  have hword : scanWord (32 :: w) = some (w, []) := by
    have hstart := scanWord_append w [] hw.ne hw.space (stops_nil _)
    rw [List.append_nil] at hstart
    rw [← hstart]
    simp only [scanWord, List.dropWhile_cons, show isSpace 32 = true by decide, if_true]
  rw [sscanfIdWord, scanUInt_decimal photo_id _ (stops_cons _ _ _ (by decide))]
  simp [hword]

theorem sscanfPhotoId_text (photo_id : UInt32) : sscanfPhotoId (decimal photo_id.toNat) = photo_id := by
  have hscan := scanUInt_decimal photo_id [] (stops_nil _)
  rw [List.append_nil] at hscan
  simp [sscanfPhotoId, hscan]

-- The text that `sscanf` stores in `arg`, if any.
theorem sscanfCommand_arg (h : sscanfCommand line = (w, t)) (hline : 0 ∉ line) (ht : t ≠ []) : IsText t := by
  simp only [sscanfCommand] at h
  split at h
  · obtain ⟨-, rfl⟩ := Prod.mk.inj h
    exact absurd rfl ht
  · rename_i command rest hword
    split at h
    · obtain ⟨-, rfl⟩ := Prod.mk.inj h
      exact absurd rfl ht
    · rename_i arg more hscan
      obtain ⟨-, rfl⟩ := Prod.mk.inj h
      exact (scanUntil_isText hscan (scanWord_isWord hword hline).2.2).1

theorem sscanfIdWord_word {photo_id : UInt32} (h : sscanfIdWord t = (photo_id, some w)) (ht : 0 ∉ t) :
    IsWord w ∧ w.length ≤ t.length := by
  simp only [sscanfIdWord] at h
  split at h
  · cases (Prod.mk.inj h).2
  · rename_i id rest hscan
    obtain ⟨-, h⟩ := Prod.mk.inj h
    obtain ⟨⟨w', more⟩, hword, hw'⟩ := Option.map_eq_some_iff.mp h
    obtain rfl : w' = w := hw'
    obtain ⟨⟨⟨negative, value⟩, rest'⟩, hnumber, heq⟩ := Option.map_eq_some_iff.mp hscan
    obtain ⟨-, rfl⟩ := Prod.mk.inj heq
    have hsub : rest'.Sublist t := scanNumber_sublist hnumber
    obtain ⟨hisword, hlength, -⟩ := scanWord_isWord hword (fun h0 => ht (hsub.subset h0))
    exact ⟨hisword, by have := hsub.length_le; omega⟩

end Scanning

section Commands

variable {c : Command} {arg : CString} {message : String} {files : CString → Option (List Byte)}

-- What a command must hold for the library.
def Command.Sound : Command → Prop
  | .add text | .search text => IsText text
  | .keyadd photo_id word | .download photo_id word => photo_id ≠ 0 ∧ IsWord word
  | .delete photo_id | .getname photo_id => photo_id ≠ 0
  | .quit => True

def Command.Typable (c : Command) : Prop := c.Sound ∧ c.arg.length < ARG_SIZE

-- The text or word that a command hands on.
def Command.text : Command → CString
  | .add text | .search text => text
  | .keyadd _ word | .download _ word => word
  | _ => []

theorem ne_zero_of_pos {photo_id : UInt32} (h : 0 < photo_id) : photo_id ≠ 0 :=
  fun h0 => UInt32.lt_irrefl _ (h0 ▸ h)

theorem pos_of_ne_zero {photo_id : UInt32} (h : photo_id ≠ 0) : 0 < photo_id := by
  rw [UInt32.lt_iff_toNat_lt]
  exact Nat.pos_of_ne_zero (fun h0 => h (UInt32.toNat_inj.mp h0))

theorem withText_call {command : CString → Command} (h : withText arg message command = .call c) :
    c = command arg ∧ arg ≠ [] := by
  simp only [withText] at h
  split at h
  case isTrue hne => exact ⟨(Entered.call.inj h).symm, hne⟩
  case isFalse => cases h

theorem withId_call {command : UInt32 → Command} (h : withId arg message command = .call c) :
    ∃ photo_id, c = command photo_id ∧ photo_id ≠ 0 := by
  simp only [withId] at h
  split at h
  case isTrue hpos => exact ⟨_, (Entered.call.inj h).symm, ne_zero_of_pos hpos⟩
  case isFalse => cases h

theorem withIdWord_call {command : UInt32 → CString → Command} (harg : 0 ∉ arg)
    (h : withIdWord arg message command = .call c) :
    ∃ photo_id word, c = command photo_id word ∧ photo_id ≠ 0 ∧ IsWord word ∧ word.length ≤ arg.length := by
  simp only [withIdWord] at h
  split at h
  · rename_i photo_id word hscan
    split at h
    case isTrue hpos =>
      obtain ⟨hword, hlength⟩ := sscanfIdWord_word hscan harg
      exact ⟨photo_id, word, (Entered.call.inj h).symm, ne_zero_of_pos hpos, hword, hlength⟩
    case isFalse => cases h
  · cases h

-- Whatever is typed, a call gets an id other than 0, a word without white space, a text of
-- one line.
theorem dispatch_sound {command : CString} (h : dispatch command arg = .call c)
    (harg : arg ≠ [] → IsText arg) : c.Sound ∧ c.text.length ≤ arg.length := by
  have hnul : 0 ∉ arg := by
    by_cases hne : arg = []
    · rw [hne]
      exact List.not_mem_nil
    · exact (harg hne).nul
  simp only [dispatch] at h
  split at h
  · obtain ⟨rfl, hne⟩ := withText_call h
    exact ⟨harg hne, Nat.le_refl _⟩
  split at h
  · obtain ⟨photo_id, word, rfl, hid, hword, hlength⟩ := withIdWord_call hnul h
    exact ⟨⟨hid, hword⟩, hlength⟩
  split at h
  · obtain ⟨rfl, hne⟩ := withText_call h
    exact ⟨harg hne, Nat.le_refl _⟩
  split at h
  · obtain ⟨photo_id, rfl, hid⟩ := withId_call h
    exact ⟨hid, Nat.zero_le _⟩
  split at h
  · obtain ⟨photo_id, rfl, hid⟩ := withId_call h
    exact ⟨hid, Nat.zero_le _⟩
  split at h
  · obtain ⟨photo_id, word, rfl, hid, hword, hlength⟩ := withIdWord_call hnul h
    exact ⟨⟨hid, hword⟩, hlength⟩
  split at h
  · obtain rfl := Entered.call.inj h
    exact ⟨trivial, Nat.zero_le _⟩
  · cases h

theorem dispatch_text (hc : c.Sound) : dispatch c.word c.arg = .call c := by
  cases c with
  | add text =>
      change dispatch addWord text = _
      rw [dispatch, if_pos rfl, withText, if_pos hc.ne]
  | keyadd photo_id word =>
      change dispatch keyaddWord (decimal photo_id.toNat ++ 32 :: word) = _
      rw [dispatch, if_neg (by decide), if_pos rfl, withIdWord, sscanfIdWord_text photo_id hc.2]
      exact if_pos (pos_of_ne_zero hc.1)
  | search text =>
      change dispatch searchWord text = _
      rw [dispatch, if_neg (by decide), if_neg (by decide), if_pos rfl, withText, if_pos hc.ne]
  | delete photo_id =>
      change dispatch deleteWord (decimal photo_id.toNat) = _
      rw [dispatch, if_neg (by decide), if_neg (by decide), if_neg (by decide), if_pos rfl, withId,
        sscanfPhotoId_text, if_pos (pos_of_ne_zero hc)]
  | getname photo_id =>
      change dispatch getnameWord (decimal photo_id.toNat) = _
      rw [dispatch, if_neg (by decide), if_neg (by decide), if_neg (by decide), if_neg (by decide),
        if_pos rfl, withId, sscanfPhotoId_text, if_pos (pos_of_ne_zero hc)]
  | download photo_id word =>
      change dispatch downloadWord (decimal photo_id.toNat ++ 32 :: word) = _
      rw [dispatch, if_neg (by decide), if_neg (by decide), if_neg (by decide), if_neg (by decide),
        if_neg (by decide), if_pos rfl, withIdWord, sscanfIdWord_text photo_id hc.2]
      exact if_pos (pos_of_ne_zero hc.1)
  | quit => decide

theorem isWord_of_chars (w : CString) (hlength : w ≠ [] ∧ w.length < COMMAND_SIZE)
    (hchars : w.all (fun b => b ≠ 0 ∧ isSpace b = false) = true) :
    IsWord w ∧ w.length < COMMAND_SIZE := by
  have hchar : ∀ b ∈ w, b ≠ 0 ∧ isSpace b = false := by simpa using hchars
  exact ⟨⟨hlength.1, fun hnul => (hchar 0 hnul).1 rfl, fun b hb => (hchar b hb).2⟩, hlength.2⟩

theorem Command.word_isWord (c : Command) : IsWord c.word ∧ c.word.length < COMMAND_SIZE := by
  cases c with
  | add text => exact isWord_of_chars addWord (by decide) (by decide)
  | keyadd photo_id word => exact isWord_of_chars keyaddWord (by decide) (by decide)
  | search word => exact isWord_of_chars searchWord (by decide) (by decide)
  | delete photo_id => exact isWord_of_chars deleteWord (by decide) (by decide)
  | getname photo_id => exact isWord_of_chars getnameWord (by decide) (by decide)
  | download photo_id word => exact isWord_of_chars downloadWord (by decide) (by decide)
  | quit => exact isWord_of_chars quitWord (by decide) (by decide)

theorem decimal_isText (n : Nat) {rest : CString} (hnul : 0 ∉ rest) (hnewline : 10 ∉ rest) :
    IsText (decimal n ++ rest) where
  ne := fun h => decimal_ne_nil n (List.append_eq_nil_iff.mp h).1
  nul := fun h => (List.mem_append.mp h).elim (nul_notMem_decimal n) hnul
  newline := fun h => (List.mem_append.mp h).elim
    (fun hdigit => absurd (isDigit_of_mem_decimal n 10 hdigit) (by decide)) hnewline
  head := by
    intro b hb
    rw [List.head?_append_of_ne_nil _ (decimal_ne_nil n)] at hb
    exact isSpace_eq_false_of_isDigit b (isDigit_of_mem_decimal n b (List.mem_of_mem_head? hb))

theorem Command.Sound.arg_isText (hc : c.Sound) (hne : c.arg ≠ []) : IsText c.arg := by
  have hidWord : ∀ (photo_id : UInt32) {word : CString}, IsWord word →
      IsText (decimal photo_id.toNat ++ 32 :: word) := by
    intro photo_id word hword
    refine decimal_isText _ (fun h => ?_) (fun h => ?_)
    · exact (List.mem_cons.mp h).elim (by decide) hword.nul
    · exact (List.mem_cons.mp h).elim (by decide) hword.isText.newline
  have hid : ∀ photo_id : UInt32, IsText (decimal photo_id.toNat) := by
    intro photo_id
    have htext : IsText (decimal photo_id.toNat ++ []) :=
      decimal_isText _ List.not_mem_nil List.not_mem_nil
    rwa [List.append_nil] at htext
  cases c with
  | add text => exact hc
  | keyadd photo_id word => exact hidWord photo_id hc.2
  | search text => exact hc
  | delete photo_id => exact hid photo_id
  | getname photo_id => exact hid photo_id
  | download photo_id word => exact hidWord photo_id hc.2
  | quit => exact absurd rfl hne

theorem cString_of_noNul {s : CString} (hs : 0 ∉ s) : cString s = s := by
  refine List.takeWhile_eq_self_iff.mpr (fun b hb => ?_)
  have hne : b ≠ 0 := fun h => hs (h ▸ hb)
  simpa using hne

theorem Command.Sound.sscanfCommand_line (hc : c.Sound) :
    sscanfCommand (cString c.line) = (c.word, c.arg) := by
  have hword := c.word_isWord.1
  by_cases harg : c.arg = []
  · have hline : c.line = c.word ++ [10] := by rw [Command.line, Command.typed, if_pos harg, List.append_nil]
    have hnul : 0 ∉ c.word ++ [10] := fun h => (List.mem_append.mp h).elim hword.nul (by decide)
    rw [hline, cString_of_noNul hnul, harg]
    exact sscanfCommand_word hword
  · have htext := hc.arg_isText harg
    have hline : c.line = c.word ++ 32 :: (c.arg ++ [10]) := by
      rw [Command.line, Command.typed, if_neg harg, List.append_assoc, List.cons_append]
    have hnul : 0 ∉ c.word ++ 32 :: (c.arg ++ [10]) := by
      simp only [List.mem_append, List.mem_cons, List.not_mem_nil, or_false, not_or]
      exact ⟨hword.nul, by decide, htext.nul, by decide⟩
    rw [hline, cString_of_noNul hnul]
    exact sscanfCommand_text hword htext

theorem readCommand_sound {line : List Byte} (h : readCommand line = some (.call c)) :
    c.Sound ∧ c.text.length < ARG_SIZE := by
  simp only [readCommand] at h
  split at h
  case isTrue hfits =>
    have hnul : 0 ∉ cString line := fun h0 => by simpa using List.mem_takeWhile_imp h0
    obtain ⟨hsound, hlength⟩ :=
      dispatch_sound (Option.some.inj h) (fun hne => sscanfCommand_arg rfl hnul hne)
    exact ⟨hsound, Nat.lt_of_le_of_lt hlength hfits.2⟩
  case isFalse => cases h

theorem readCommand_line : readCommand c.line = some (.call c) ↔ c.Typable := by
  constructor
  · intro h
    obtain ⟨hsound, -⟩ := readCommand_sound h
    refine ⟨hsound, ?_⟩
    simp only [readCommand, hsound.sscanfCommand_line] at h
    split at h
    case isTrue hfits => exact hfits.2
    case isFalse => cases h
  · rintro ⟨hsound, hlength⟩
    simp only [readCommand, hsound.sscanfCommand_line]
    rw [if_pos ⟨c.word_isWord.2, hlength⟩, dispatch_text hsound]

theorem length_decimal_id (photo_id : UInt32) : (decimal photo_id.toNat).length ≤ 10 :=
  length_decimal_le (by decide) (Nat.lt_trans photo_id.toNat_lt (by decide))

-- The message of a call fits its buffer, and is not cut off.
theorem message_fits {m : CString} (hsound : c.Sound) (hlength : c.text.length < ARG_SIZE)
    (hfits : c.Fits files) (hm : m ∈ c.message files) : m.length < MAX_SIZE ∧ 0 ∉ m := by
  have hid : ∀ photo_id : UInt32, (photoIdText photo_id).length < MAX_SIZE ∧ 0 ∉ photoIdText photo_id :=
    fun photo_id => ⟨Nat.lt_of_le_of_lt (length_decimal_id photo_id) (by decide), nul_notMem_decimal _⟩
  cases c with
  | add file =>
      obtain ⟨photo, hphoto, rfl⟩ := Option.map_eq_some_iff.mp hm
      exact ⟨Nat.lt_trans (hfits photo hphoto) (by decide), addPhotoText_noNul hsound.nul _⟩
  | keyadd photo_id keyword =>
      obtain rfl := Option.some.inj hm
      refine ⟨?_, addKeywordText_noNul hsound.2.nul⟩
      have hdigits := length_decimal_id photo_id
      simp only [Command.text, ARG_SIZE] at hlength
      simp only [addKeywordText, List.length_append, List.length_cons, MAX_SIZE]
      omega
  | search keyword =>
      obtain rfl := Option.some.inj hm
      exact ⟨Nat.lt_trans hlength (by decide), hsound.nul⟩
  | delete photo_id =>
      obtain rfl := Option.some.inj hm
      exact hid photo_id
  | getname photo_id =>
      obtain rfl := Option.some.inj hm
      exact hid photo_id
  | download photo_id file_name =>
      obtain rfl := Option.some.inj hm
      exact hid photo_id
  | quit =>
      obtain rfl := Option.some.inj hm
      decide

-- A line is read as the command it was written for exactly when the command can be typed, and
-- whatever is typed, a call that comes of it is one that the library can make: the text of its
-- message fits and holds all that was typed.
theorem commands_read :
    (∀ c : Command, readCommand c.line = some (.call c) ↔ c.Typable) ∧
    ∀ (line : List Byte) (c : Command) (files : CString → Option (List Byte)),
      readCommand line = some (.call c) → c.Sound ∧
        (c.Fits files → ∀ m ∈ c.message files, m.length < MAX_SIZE ∧ 0 ∉ m) := by
  refine ⟨fun c => readCommand_line, fun line c files h => ?_⟩
  obtain ⟨hsound, hlength⟩ := readCommand_sound h
  exact ⟨hsound, fun hfits m hm => message_fits hsound hlength hfits hm⟩

end Commands

end Gallery
