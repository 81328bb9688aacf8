import Gallery.Data
import Mathlib.Order.Lattice

namespace Gallery

-- What `recv` finds once all bytes are used up: an orderly close (0) or an
-- error, a timeout included (-1).
inductive Ending
  | closed
  | failed
  deriving DecidableEq, Repr

def Ending.nbytes : Ending → Int
  | closed => 0
  | failed => -1

-- `errno` as far as the peers and the clients tell its values apart; `EAGAIN` is left by a
-- receive that timed out.
inductive Errno
  | none
  | eagain
  | epipe
  | other
  deriving DecidableEq, Repr

-- `checkGWState` of a peer and `checkPeerState` of a client: the value and `errno` afterwards.
def checkErrno : Errno → Int × Errno
  | .eagain => (1, .none)
  | .epipe => (-1, .none)
  | errno => (0, errno)

-- The receiving end of a TCP connection. `chunks` says how many bytes the
-- next calls of `recv` find; when it is used up they find all there is.
structure Conn where
  bytes : List Byte
  chunks : List Nat
  ending : Ending
  deriving DecidableEq, Repr

-- The value a receiving call returns and the bytes it wrote from its
-- pointer on, which for `recv_all` may be more than the caller's buffer holds.
structure Received where
  ret : Int
  stored : List Byte
  conn : Conn
  deriving DecidableEq, Repr

def Conn.available (c : Conn) : Nat :=
  match c.chunks with
  | [] => c.bytes.length
  | d :: _ => max 1 d

def recv (c : Conn) (length : Nat) : Received :=
  if c.bytes = [] then ⟨c.ending.nbytes, [], c⟩
  else
    let n := min c.available (min length c.bytes.length)
    ⟨n, c.bytes.take n, { c with bytes := c.bytes.drop n, chunks := c.chunks.tail }⟩

-- The conversions of a 64-bit value to `int` and of an `int` to `size_t`.
def toInt (n : Int) : Int := n.bmod (2 ^ 32)

def toSizeT (n : Int) : Nat := (n % 2 ^ 64).toNat

structure RecvLoop where
  nbytes : Int
  total_bytes : Int
  stored : List Byte
  conn : Conn

-- What `recv_all` returns when its loop ended in this state.
def RecvLoop.ret (max_length : Nat) (s : RecvLoop) : Int :=
  if toSizeT s.total_bytes > max_length then -2
  else if s.nbytes ≤ 0 then s.nbytes
  else s.total_bytes

-- The loop of `recv_all`. Every call that does not end it takes at least one
-- byte, so the number of bytes bounds the calls.
def recvAllLoop (max_length : Nat) : Nat → RecvLoop → RecvLoop
  | 0, s => s
  | fuel + 1, s =>
      if toSizeT s.total_bytes < max_length then
        let r := recv s.conn max_length
        if r.ret ≤ 0 then { s with nbytes := r.ret, conn := r.conn }
        else recvAllLoop max_length fuel
          ⟨r.ret, toInt (s.total_bytes + r.ret), s.stored ++ r.stored, r.conn⟩
      else s

-- With nothing to receive `nbytes` stays unset; it is 0 here.
def recvAll (c : Conn) (max_length : Nat) : Received :=
  let s := recvAllLoop max_length (c.bytes.length + 1) ⟨0, 0, [], c⟩
  ⟨s.ret max_length, s.stored, s.conn⟩

structure ReceivedPhoto where
  ret : Int
  buff : Option MessagePhoto
  conn : Conn

def recvAndUnstreamPhoto (c : Conn) : ReceivedPhoto :=
  let read := recvAll c MESSAGE_PHOTO_SIZE
  if read.ret = -1 then ⟨-1, none, read.conn⟩
  else if read.ret = 0 then ⟨0, none, read.conn⟩
  else ⟨1, MessagePhoto.unstream read.stored, read.conn⟩

-- The sending end. `results` says what the next calls of `send` can do: a value
-- `≤ 0` is a failure, a positive one the bytes accepted at most; when it is
-- used up they accept all they may.
structure Out where
  accepted : List Byte
  results : List Int
  deriving DecidableEq, Repr

def INT_MAX : Nat := 2 ^ 31 - 1

def send (o : Out) (buffer : List Byte) : Int × Out :=
  let most := min buffer.length INT_MAX
  let nbytes : Int :=
    match o.results with
    | [] => most
    | r :: _ => min r most
  (nbytes, ⟨o.accepted ++ buffer.take nbytes.toNat, o.results.tail⟩)

-- The loop of `send_all`: `p` and `length` together are the bytes left.
def sendAllLoop : Nat → Int → List Byte → Out → Int × Out
  | 0, nbytes, _, o => (nbytes, o)
  | fuel + 1, nbytes, p, o =>
      if 0 < p.length then
        let (nbytes, o) := send o p
        if nbytes ≤ 0 then (nbytes, o)
        else sendAllLoop fuel nbytes (p.drop nbytes.toNat) o
      else (nbytes, o)

-- With nothing to send `nbytes` stays unset; it is 0 here.
def sendAll (o : Out) (buffer : List Byte) : Int × Out :=
  let (nbytes, o) := sendAllLoop (buffer.length + 1) 0 buffer o
  (if nbytes ≤ 0 then -1 else nbytes, o)

-- `buff` is what the sender's local structure held before; `none` is a text
-- that does not fit the message buffer.
def streamAndSendPhoto (o : Out) (buff : MessagePhoto) (buffer : CString) (type : Int32) :
    Option (Int × Out) := do
  let m ← MessagePhoto.fill buff buffer type
  let (nbytes, o) := sendAll o m.stream
  if nbytes = -1 then some (-1, o) else some (0, o)

end Gallery
