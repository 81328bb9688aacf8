import Gallery.Client.Commands

namespace Gallery

open Bytes Text

section Lines

variable {c : Command}

theorem takeLine_line {body rest : List Byte} {n : Nat} (hnewline : 10 ∉ body) (hlength : body.length < n) :
    takeLine n (body ++ [10] ++ rest) = (body ++ [10], rest) := by
  induction body generalizing n with
  | nil =>
      obtain ⟨n, rfl⟩ := Nat.exists_eq_succ_of_ne_zero (Nat.ne_of_gt hlength)
      rfl
  | cons b body ih =>
      obtain ⟨n, rfl⟩ := Nat.exists_eq_succ_of_ne_zero (Nat.ne_of_gt (Nat.lt_of_le_of_lt (Nat.zero_le _) hlength))
      obtain ⟨hb, hbody⟩ := not_or.mp (fun h => hnewline (List.mem_cons.mpr h))
      have hrest := ih hbody (Nat.lt_of_succ_lt_succ hlength)
      simp only [List.cons_append, takeLine, if_neg (Ne.symm hb)] at hrest ⊢
      rw [hrest]

theorem fgets_line (hc : c.Typable) (line rest : List Byte) :
    fgets line (c.line ++ rest) = (c.line, rest) := by
  have hword := c.word_isWord
  have htyped : 10 ∉ c.typed ∧ c.typed.length < LINE_S - 1 := by
    have hlength := hc.2
    have hword' := hword.2
    simp only [ARG_SIZE, COMMAND_SIZE] at hlength hword'
    by_cases harg : c.arg = []
    · simp only [Command.typed, if_pos harg, List.append_nil, LINE_S]
      exact ⟨hword.1.isText.newline, by omega⟩
    · simp only [Command.typed, if_neg harg, List.mem_append, List.mem_cons, List.length_append,
        List.length_cons, not_or, LINE_S]
      exact ⟨⟨hword.1.isText.newline, by decide, (hc.1.arg_isText harg).newline⟩, by omega⟩
  have hne : c.line ++ rest ≠ [] := by simp [Command.line]
  rw [fgets, if_neg hne]
  exact takeLine_line htyped.1 htyped.2

end Lines

namespace Client

section Runs

variable {files : CString → Option (List Byte)} {cs : List Command} {s t : Client} {a : ClientAction}

-- The command carried out after `n` others: when all have been read, the last one again.
def turn (cs : List Command) (n : Nat) : Option Command := cs[min n (cs.length - 1)]?

-- What has been carried out, what is still to be read and what stands in `line`.
structure Follows (cs : List Command) (s : Client) : Prop where
  entered : ∀ i < s.entered.length, s.entered[i]? = (turn cs i).map .call
  stdin : s.stdin = (cs.drop s.entered.length).flatMap Command.line
  line : ∀ n, s.entered.length = n + 1 → ∀ c ∈ turn cs n, s.line = c.line
  phase : s.phase ≠ .undefined
  quit : .call .quit ∈ s.entered → s.phase = .exited 0

theorem follows_fgets (hs : s.Follows cs) (hcs : ∀ c ∈ cs, c.Typable) {c : Command}
    (hc : c ∈ turn cs s.entered.length) :
    fgets s.line s.stdin = (c.line, (cs.drop (s.entered.length + 1)).flatMap Command.line) := by
  rw [hs.stdin]
  by_cases hlt : s.entered.length < cs.length
  · have hnow : cs[s.entered.length]? = some c := by
      rw [← show turn cs s.entered.length = some c from hc, turn, Nat.min_eq_left (by omega)]
    obtain ⟨hi, rfl⟩ := List.getElem?_eq_some_iff.mp hnow
    rw [List.drop_eq_getElem_cons hi, List.flatMap_cons]
    exact fgets_line (hcs _ (List.getElem_mem hi)) _ _
  · -- The input is at its end, and `line` keeps what was read before.
    have hdrop : cs.drop s.entered.length = [] := List.drop_eq_nil_of_le (Nat.le_of_not_lt hlt)
    have hnone : cs.drop (s.entered.length + 1) = [] := List.drop_eq_nil_of_le (by omega)
    have hpos : 0 < cs.length := by
      obtain ⟨hi, -⟩ := List.getElem?_eq_some_iff.mp (show turn cs s.entered.length = some c from hc)
      omega
    have hbefore : c ∈ turn cs (s.entered.length - 1) := by
      have heq : turn cs (s.entered.length - 1) = turn cs s.entered.length := by
        rw [turn, turn, Nat.min_eq_right (by omega), Nat.min_eq_right (by omega)]
      rw [heq]
      exact hc
    rw [hdrop, hnone, List.flatMap_nil, fgets, if_pos rfl, hs.line _ (by omega) c hbefore]

theorem follows_step (hs : s.Follows cs) (hcs : ∀ c ∈ cs, c.Typable ∧ c.Fits files) (hne : cs ≠ [])
    (h : s.step files a = some t) : t.Follows cs := by
  cases a with
  | connect fd =>
      simp only [step] at h
      split at h
      case isFalse => cases h
      case isTrue hphase =>
        have hquit : .call .quit ∉ s.entered := by
          intro hmem
          rw [hs.quit hmem] at hphase
          cases hphase
        have hkept : ∀ phase, phase ≠ .undefined → Follows cs { s with phase := phase } :=
          fun phase hdefined => ⟨hs.entered, hs.stdin, hs.line, hdefined, fun hmem => absurd hmem hquit⟩
        split at h
        · exact Option.some.inj h ▸ hkept _ (by simp)
        split at h
        · exact Option.some.inj h ▸ hkept _ (by simp)
        · exact Option.some.inj h ▸ hkept _ (by simp)
  | command errno =>
      simp only [step] at h
      split at h
      case isFalse => cases h
      case isTrue hphase =>
        have hpos : 0 < cs.length := List.length_pos_iff.mpr hne
        obtain ⟨c, hc⟩ : ∃ c, turn cs s.entered.length = some c :=
          ⟨_, List.getElem?_eq_getElem (by omega)⟩
        obtain ⟨htypable, hfits⟩ := hcs c (List.mem_of_getElem? hc)
        have hquit : .call .quit ∉ s.entered := by
          intro hmem
          rw [hs.quit hmem] at hphase
          cases hphase
        have hnext : ∀ phase, phase ≠ .undefined → (c = .quit → phase = .exited 0) →
            Follows cs ⟨phase, c.line, (cs.drop (s.entered.length + 1)).flatMap Command.line,
              s.entered ++ [.call c]⟩ := by
          intro phase hdefined hexit
          refine ⟨fun i hi => ?_, by simp, fun n hn d hd => ?_, hdefined, fun hmem => ?_⟩
          · rw [List.length_append, List.length_singleton] at hi
            rcases Nat.lt_succ_iff_lt_or_eq.mp hi with hlt | rfl
            · rw [List.getElem?_append_left hlt, hs.entered i hlt]
            · rw [List.getElem?_concat_length, hc]
              rfl
          · rw [List.length_append, List.length_singleton] at hn
            obtain rfl := Nat.succ.inj hn
            rw [hc] at hd
            rw [Option.some.inj hd]
          · rcases List.mem_append.mp hmem with hold | hnew
            · exact absurd hold hquit
            · exact hexit (Entered.call.inj (List.mem_singleton.mp hnew)).symm
        rw [follows_fgets hs (fun c hc => (hcs c hc).1) hc] at h
        simp only [readCommand_line.mpr htypable] at h
        split at h
        case isTrue hc' => exact Option.some.inj h ▸ hnext _ (by simp) (fun _ => rfl)
        case isFalse hc' =>
          refine Option.some.inj h ▸ hnext _ ?_ (fun heq => absurd heq hc')
          split <;> simp

-- Whatever the calls leave behind, and however often the client loses its peer and connects
-- anew: it carries out the commands in the order they were typed, each once, from the end of
-- the input on the last one again and again, stops at `quit`, and never overflows a buffer.
theorem commands_carried_out {line : List Byte} (hcs : ∀ c ∈ cs, c.Typable ∧ c.Fits files) (hne : cs ≠ [])
    (hrun : Reaches (step files) (fun _ _ => True) ⟨.connect, line, cs.flatMap Command.line, []⟩ s) :
    (∀ i < s.entered.length, s.entered[i]? = (cs[min i (cs.length - 1)]?).map .call) ∧
      s.phase ≠ .undefined ∧ (.call .quit ∈ s.entered → s.phase = .exited 0) := by
  have hfollows : s.Follows cs := by
    refine hrun.invariant (I := Follows cs) ?_ (fun s a t hs _ h => follows_step hs hcs hne h)
    exact ⟨by simp, by simp, fun n hn => by simp at hn, by simp, by simp⟩
  exact ⟨hfollows.entered, hfollows.phase, hfollows.quit⟩

-- The peer goes away after the first command; the input ends with the second one.
def typedCommands : List Command := [.search [97], .delete 7]

theorem commands_carried_out_typedCommands :
    ∃ s, execute (step (fun _ => none)) (fun _ _ => True)
        ⟨.connect, [], typedCommands.flatMap Command.line, []⟩
        [.connect 3, .command .epipe, .connect 4, .command .none, .command .eagain] = some s ∧
      s.entered = [.call (.search [97]), .call (.delete 7), .call (.delete 7)] ∧
      (∀ i < s.entered.length, s.entered[i]? =
        (typedCommands[min i (typedCommands.length - 1)]?).map .call) ∧
      s.phase ≠ .undefined ∧ (.call .quit ∈ s.entered → s.phase = .exited 0) := by
  have hruns : (execute (step (fun _ => none)) (fun _ _ => True)
      ⟨.connect, [], typedCommands.flatMap Command.line, []⟩
      [.connect 3, .command .epipe, .connect 4, .command .none, .command .eagain]).map Client.entered =
      some [.call (.search [97]), .call (.delete 7), .call (.delete 7)] := by decide +kernel
  obtain ⟨s, hs, hentered⟩ := Option.map_eq_some_iff.mp hruns
  have hcs : ∀ c ∈ typedCommands, c.Typable ∧ c.Fits (fun _ => none) := by
    intro c hc
    rcases List.mem_cons.mp hc with rfl | hc
    · exact ⟨⟨⟨by decide, by decide, by decide, stops_cons _ _ _ (by decide)⟩, by decide⟩, trivial⟩
    · obtain rfl := List.mem_singleton.mp hc
      have hid : (7 : UInt32) ≠ 0 := by decide
      exact ⟨⟨hid, by decide⟩, trivial⟩
  exact ⟨s, hs, hentered, commands_carried_out hcs (by simp [typedCommands]) (reaches_of_execute _ hs)⟩

end Runs

end Client

end Gallery
