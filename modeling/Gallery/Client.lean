import Gallery.Library.Keywords
import Gallery.Library.Upload
import Gallery.Transition

namespace Gallery

open Bytes Text

section Model

-- The local buffers `line`, `command` and `arg` of `main`.
def LINE_S : Nat := 100
def COMMAND_SIZE : Nat := 10
def ARG_SIZE : Nat := 50

def ascii (cs : List Char) : CString := cs.map Char.toUInt8

-- The calls of the library that a line can lead to, and the end of the session.
inductive Command
  | add (file : CString)
  | keyadd (photo_id : UInt32) (keyword : CString)
  | search (keyword : CString)
  | delete (photo_id : UInt32)
  | getname (photo_id : UInt32)
  | download (photo_id : UInt32) (file_name : CString)
  | quit
  deriving DecidableEq

-- What comes of a line.
inductive Entered
  | call (command : Command)
  | usage (message : String)
  | invalid
  deriving DecidableEq

-- `sscanf(arg, "%u %s", &photo_id, word)`, where the id is 0 before; the word is there if
-- two conversions are made.
def sscanfIdWord (arg : CString) : UInt32 × Option CString :=
  match scanUInt arg with
  | none => (0, none)
  | some (photo_id, rest) => (photo_id, (scanWord rest).map Prod.fst)

-- `sscanf(arg, "%u", &photo_id)`
def sscanfPhotoId (arg : CString) : UInt32 := ((scanUInt arg).map Prod.fst).getD 0

section Dispatch

variable (arg : CString) (message : String)

-- The three shapes of a command's argument: a text, an id, an id and a word.
def withText (command : CString → Command) : Entered :=
  if arg ≠ [] then .call (command arg) else .usage message

def withId (command : UInt32 → Command) : Entered :=
  if 0 < sscanfPhotoId arg then .call (command (sscanfPhotoId arg)) else .usage message

def withIdWord (command : UInt32 → CString → Command) : Entered :=
  match sscanfIdWord arg with
  | (photo_id, some word) => if 0 < photo_id then .call (command photo_id word) else .usage message
  | (_, none) => .usage message

end Dispatch

def addWord : CString := ascii ['a', 'd', 'd']
def keyaddWord : CString := ascii ['k', 'e', 'y', 'a', 'd', 'd']
def searchWord : CString := ascii ['s', 'e', 'a', 'r', 'c', 'h']
def deleteWord : CString := ascii ['d', 'e', 'l', 'e', 't', 'e']
def getnameWord : CString := ascii ['g', 'e', 't', 'n', 'a', 'm', 'e']
def downloadWord : CString := ascii ['d', 'o', 'w', 'n', 'l', 'o', 'a', 'd']
def quitWord : CString := ascii ['q', 'u', 'i', 't']

def dispatch (command arg : CString) : Entered :=
  if command = addWord then withText arg "add <filename>" .add
  else if command = keyaddWord then
    withIdWord arg "keyadd <photo_id> <keyword>, [photo_id > 0]" .keyadd
  else if command = searchWord then withText arg "search <keyword>" .search
  else if command = deleteWord then withId arg "delete <photo_id>, [photo_id > 0]" .delete
  else if command = getnameWord then withId arg "getname <photo_id>, [photo_id > 0]" .getname
  else if command = downloadWord then
    withIdWord arg "download <photo_id> <file_name>, [photo_id > 0]" .download
  else if command = quitWord then .call .quit
  else .invalid

-- `sscanf(line, "%s %[^\n]", command, arg)`, where both are empty before.
def sscanfCommand (line : CString) : CString × CString :=
  match scanWord line with
  | none => ([], [])
  | some (command, rest) =>
      match scanUntil 10 (rest.dropWhile isSpace) with
      | none => (command, [])
      | some (arg, _) => (command, arg)

-- A line, unless a part of it does not fit its buffer.
def readCommand (line : List Byte) : Option Entered :=
  let (command, arg) := sscanfCommand (cString line)
  if command.length < COMMAND_SIZE ∧ arg.length < ARG_SIZE then some (dispatch command arg) else none

-- At most `n` characters, up to a newline.
def takeLine : Nat → List Byte → List Byte × List Byte
  | 0, stdin => ([], stdin)
  | _ + 1, [] => ([], [])
  | n + 1, b :: stdin =>
      if b = 10 then ([b], stdin) else (b :: (takeLine n stdin).1, (takeLine n stdin).2)

-- `fgets(line, LINE_S, stdin)`: at the end of the input `line` stays as it is.
def fgets (line stdin : List Byte) : List Byte × List Byte :=
  if stdin = [] then (line, []) else takeLine (LINE_S - 1) stdin

def checkPeerState : Errno → Int × Errno := checkErrno

inductive ClientPhase
  | connect
  | menu
  | exited (status : Int)
  -- A buffer has overflowed.
  | undefined
  deriving DecidableEq

-- `main` of a client. `entered` only records what came of the lines.
structure Client where
  phase : ClientPhase
  line : List Byte
  stdin : List Byte
  entered : List Entered

inductive ClientAction
  -- What `gallery_connect` returns.
  | connect (fd : Int)
  -- A line is carried out; `errno` is what the call of the library leaves.
  | command (errno : Errno)

-- `gallery_add_photo` appends the size to `arg` itself.
def Command.Fits (files : CString → Option (List Byte)) : Command → Prop
  | .add file => ∀ photo ∈ files file, (addPhotoText file photo.length).length < ARG_SIZE
  | _ => True

instance (files : CString → Option (List Byte)) (c : Command) : Decidable (c.Fits files) :=
  match c with
  | .add file => inferInstanceAs (Decidable (∀ photo ∈ files file, _))
  | .keyadd _ _ | .search _ | .delete _ | .getname _ | .download _ _ | .quit => .isTrue trivial

-- `files` are the files that a client can open.
def Client.step (files : CString → Option (List Byte)) (s : Client) : ClientAction → Option Client
  | .connect fd =>
      if s.phase = .connect then
        if fd = -1 then some { s with phase := .exited 1 }
        else if fd = 0 then some { s with phase := .exited 0 }
        else some { s with phase := .menu }
      else none
  | .command errno =>
      if s.phase = .menu then
        let (line, stdin) := fgets s.line s.stdin
        let phase := if (checkPeerState errno).1 = -1 then ClientPhase.connect else .menu
        match readCommand line with
        | none => some { s with phase := .undefined, line := line, stdin := stdin }
        | some (.call command) =>
            let entered := s.entered ++ [.call command]
            if command = .quit then some ⟨.exited 0, line, stdin, entered⟩
            else if command.Fits files then some ⟨phase, line, stdin, entered⟩
            else some ⟨.undefined, line, stdin, entered⟩
        | some entered => some ⟨phase, line, stdin, s.entered ++ [entered]⟩
      else none

-- What a command says after its word, and the line it is typed as.
def Command.word : Command → CString
  | .add _ => addWord
  | .keyadd _ _ => keyaddWord
  | .search _ => searchWord
  | .delete _ => deleteWord
  | .getname _ => getnameWord
  | .download _ _ => downloadWord
  | .quit => quitWord

def Command.arg : Command → CString
  | .add text | .search text => text
  | .keyadd photo_id word | .download photo_id word => decimal photo_id.toNat ++ 32 :: word
  | .delete photo_id | .getname photo_id => decimal photo_id.toNat
  | .quit => []

def Command.typed (c : Command) : CString := c.word ++ if c.arg = [] then [] else 32 :: c.arg

def Command.line (c : Command) : CString := c.typed ++ [10]

-- The text of the message that a call sends.
def Command.message (files : CString → Option (List Byte)) : Command → Option CString
  | .add file => (files file).map (fun photo => addPhotoText file photo.length)
  | .keyadd photo_id keyword => some (addKeywordText photo_id keyword)
  | .search keyword => some keyword
  | .delete photo_id | .getname photo_id | .download photo_id _ => some (photoIdText photo_id)
  | .quit => some (ascii ['C', 'l', 'i', 'e', 'n', 't', ' ', 'e', 'x', 'i', 't', 'i', 'n', 'g'])

end Model

end Gallery
