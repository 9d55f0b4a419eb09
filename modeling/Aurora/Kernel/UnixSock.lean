import Aurora.Lib.PtrList
import Aurora.Lib.Ring
import Aurora.Lib.Run

/-!
# Unix domain sockets

`kernel/net/unix.c`. Sockets are cells of a heap that point to each other: to the peer of a
connection, along the list of bound sockets, and along the accept queue of a listening socket;
the last two use the same `next` field. A cell is allocated once and may be freed; an operation
that follows a pointer to a freed cell, or that goes round a cycle forever, has no result.

## Main definitions

* `UnixSock`, `Mem`: sockets and the heap.
* `unixFindBound`, `unixBind`, `unixListen`, `unixAccept`, `unixConnect`, `unixSend`, `unixRecv`,
  `unixSocketFork`, `unixClose`: the operations.
* `Sys`, `Op`, `step`: processes that use descriptors of sockets.
-/

namespace Aurora.Unix

open Lib Function

/-- `AF_UNIX` -/
def afUnix : ℕ := 1

/-- `UNIX_PATH_MAX` -/
def unixPathMax : ℕ := 108

/-- `UNIX_BACKLOG_MAX` -/
def unixBacklogMax : ℤ := 128

/-- `UNIX_BUF_SIZE` -/
def unixBufSize : ℕ := 65536

inductive State where
  | closed | listening | connected | connecting
  deriving DecidableEq, Repr

inductive SockType where
  | stream | dgram
  deriving DecidableEq, Repr

inductive Errno where
  | einval | eafnosupport | eaddrinuse | eopnotsupp | eisconn | econnrefused | enomem | enotconn
  | epipe
  deriving DecidableEq, Repr

/-- `struct unix_sock`. The path is empty until the socket is bound. -/
structure UnixSock where
  state : State := .closed
  type : SockType := .stream
  path : String := ""
  buf : ℕ → UInt8 := fun _ => 0
  head : ℕ := 0
  tail : ℕ := 0
  count : ℕ := 0
  bufSize : ℕ := 0
  acceptQueue : Option ℕ := none
  acceptQueueLen : ℤ := 0
  backlog : ℤ := 0
  peer : Option ℕ := none
  next : Option ℕ := none
  readOpen : Bool := true
  writeOpen : Bool := true
  refcount : ℤ := 1

/-- `struct sockaddr_un`; each character of the path stands for one byte. -/
structure SockAddr where
  family : ℕ
  path : String
  deriving DecidableEq, Repr

/-- The heap and `unix_bound_list`. A cell is live from its allocation to its release; `fresh`
is the next one to be allocated. -/
structure Mem where
  heap : ℕ → UnixSock
  live : ℕ → Bool
  fresh : ℕ
  boundList : Option ℕ

namespace Mem

/-- The socket behind a pointer, unless it was freed. -/
def get (m : Mem) (x : ℕ) : Option UnixSock := if m.live x then some (m.heap x) else none

def set (m : Mem) (x : ℕ) (sk : UnixSock) : Mem :=
  { m with heap := update m.heap x sk }

def free (m : Mem) (x : ℕ) : Mem := { m with live := update m.live x false }

end Mem

/-- `unix_find_bound`, from a cell on. There are fewer cells than `fuel`, so a search that uses
it up goes round a cycle. -/
def findFrom (m : Mem) (path : String) : ℕ → Option ℕ → Option (Option ℕ)
  | 0, _ => none
  | _ + 1, none => some none
  | fuel + 1, some x => do
    let sk ← m.get x
    if sk.path ≠ "" ∧ sk.path = path then some (some x) else findFrom m path fuel sk.next

/-- `unix_find_bound` -/
def unixFindBound (m : Mem) (path : String) : Option (Option ℕ) :=
  findFrom m path (m.fresh + 1) m.boundList

/-- `unix_socket_create`, when there is memory. -/
def unixSocketCreate (m : Mem) (type : SockType) : Mem × ℕ :=
  ({ m with
      heap := update m.heap m.fresh
        { type := type, bufSize := if type = .stream then unixBufSize else 0 }
      live := update m.live m.fresh true
      fresh := m.fresh + 1 }, m.fresh)

/-- `unix_bind` -/
def unixBind (m : Mem) (x : ℕ) (addr : SockAddr) : Option (Mem × Option Errno) := do
  if addr.family ≠ afUnix then return (m, some .eafnosupport)
  if addr.path.length = 0 ∨ unixPathMax ≤ addr.path.length then return (m, some .einval)
  let sk ← m.get x
  if sk.state ≠ .closed then return (m, some .einval)
  let found ← unixFindBound m addr.path
  if found.isSome then return (m, some .eaddrinuse)
  let m := m.set x { sk with path := addr.path, next := m.boundList }
  return ({ m with boundList := some x }, none)

/-- `unix_listen` -/
def unixListen (m : Mem) (x : ℕ) (backlog : ℤ) : Option (Mem × Option Errno) := do
  let sk ← m.get x
  if sk.type ≠ .stream then return (m, some .eopnotsupp)
  if sk.state ≠ .closed ∨ sk.path = "" then return (m, some .einval)
  let backlog := if backlog < 0 then 0 else backlog
  let backlog := if unixBacklogMax < backlog then unixBacklogMax else backlog
  return (m.set x
    { sk with backlog := backlog, state := .listening, acceptQueue := none, acceptQueueLen := 0 },
    none)

/-- What `unix_accept` does: it returns no socket, waits, or returns one. -/
inductive Accepted where
  | null | blocked
  | sock (y : ℕ)
  deriving DecidableEq, Repr

/-- `unix_accept` -/
def unixAccept (m : Mem) (x : ℕ) : Option (Mem × Accepted) := do
  let sk ← m.get x
  if sk.type ≠ .stream then return (m, .null)
  if sk.state ≠ .listening then return (m, .null)
  if sk.acceptQueueLen ≤ 0 then return (m, .blocked)
  let y ← sk.acceptQueue
  let newSk ← m.get y
  let m := m.set x { sk with acceptQueue := newSk.next, acceptQueueLen := sk.acceptQueueLen - 1 }
  return (m.set y { m.heap y with next := none }, .sock y)

/-- The part of `unix_connect` that sets up the connection pair and adds the socket of the other
side to the accept queue of the listener. -/
def establish (m : Mem) (x l : ℕ) : Mem × ℕ :=
  let (m, y) := unixSocketCreate m .stream
  let m := m.set x { m.heap x with peer := some y, state := .connected }
  let m := m.set y
    { m.heap y with
      peer := some x, state := .connected, path := (m.heap l).path,
      next := (m.heap l).acceptQueue }
  let m := m.set l
    { m.heap l with
      acceptQueue := some y, acceptQueueLen := (m.heap l).acceptQueueLen + 1 }
  (m, y)

/-- `unix_connect`; `mem` says whether there is memory for the socket of the other side, which is
returned. -/
def unixConnect (m : Mem) (x : ℕ) (addr : SockAddr) (mem : Bool) :
    Option (Mem × Except Errno ℕ) := do
  if addr.family ≠ afUnix then return (m, .error .eafnosupport)
  let sk ← m.get x
  if sk.type ≠ .stream then return (m, .error .eopnotsupp)
  if sk.state ≠ .closed then return (m, .error .eisconn)
  let found ← unixFindBound m addr.path
  match found with
  | none => return (m, .error .econnrefused)
  | some l =>
    let listener ← m.get l
    if listener.state ≠ .listening then return (m, .error .econnrefused)
    if listener.backlog ≤ listener.acceptQueueLen then return (m, .error .econnrefused)
    if !mem then return (m, .error .enomem)
    let (m, y) := establish m x l
    return (m, .ok y)

/-- What `unix_send` and `unix_recv` do. -/
inductive Transfer where
  | error (e : Errno)
  | blocked
  | eof
  | sent (n : ℕ)
  | received (bytes : List UInt8)
  deriving DecidableEq, Repr

/-- One pass of the loop of `unix_send`. -/
def unixSend (m : Mem) (x : ℕ) (data : List UInt8) : Option (Mem × Transfer) := do
  if data = [] then return (m, .error .einval)
  let sk ← m.get x
  if sk.type ≠ .stream then return (m, .error .eopnotsupp)
  if sk.state ≠ .connected then return (m, .error .enotconn)
  match sk.peer with
  | none => return (m, .error .enotconn)
  | some p =>
    let peer ← m.get p
    if !peer.readOpen ∨ peer.state ≠ .connected then return (m, .error .epipe)
    if peer.bufSize ≤ peer.count then return (m, .blocked)
    let space := peer.bufSize - peer.count
    let towrite := min data.length space
    let firstChunk := min (peer.bufSize - peer.tail) towrite
    let buf := blit peer.buf peer.tail (data.take firstChunk)
    let buf := blit buf 0 ((data.take towrite).drop firstChunk)
    return (m.set p
      { peer with
        buf := buf, tail := (peer.tail + towrite) % peer.bufSize, count := peer.count + towrite },
      .sent towrite)

/-- `unix_recv` -/
def unixRecv (m : Mem) (x : ℕ) (maxLen : ℕ) : Option (Mem × Transfer) := do
  if maxLen = 0 then return (m, .error .einval)
  let sk ← m.get x
  if sk.type ≠ .stream then return (m, .error .eopnotsupp)
  if sk.state ≠ .connected then return (m, .error .enotconn)
  if 0 < sk.count then
    let toread := min maxLen sk.count
    let firstChunk := min (sk.bufSize - sk.head) toread
    let bytes := slice sk.buf sk.head firstChunk ++ slice sk.buf 0 (toread - firstChunk)
    return (m.set x
      { sk with head := (sk.head + toread) % sk.bufSize, count := sk.count - toread },
      .received bytes)
  else if !sk.writeOpen then return (m, .eof)
  else
    match sk.peer with
    | none => return (m, .eof)
    | some p =>
      let peer ← m.get p
      if peer.state ≠ .connected then return (m, .eof) else return (m, .blocked)

/-- `unix_socket_fork` -/
def unixSocketFork (m : Mem) (x : ℕ) : Option Mem := do
  let sk ← m.get x
  return m.set x { sk with refcount := sk.refcount + 1 }

/-- `unix_sock_put`. The peer of a socket that is freed loses its reference to it, so the
recursion ends. -/
def unixSockPut : ℕ → Mem → ℕ → Option Mem
  | 0, _, _ => none
  | fuel + 1, m, x => do
    let sk ← m.get x
    let m := m.set x { sk with refcount := sk.refcount - 1 }
    if sk.refcount - 1 = 0 then
      match sk.peer with
      | none => return m.free x
      | some p =>
        let peer ← m.get p
        let m := m.set p { peer with peer := none }
        let m ← unixSockPut fuel m p
        return m.free x
    else return m

/-- The loop of `unix_close` that takes a socket out of the bound list: `prev` is the cell whose
`next` field is looked at (the head of the list if there is none) and `cur` what it holds. -/
def unlinkBound (x : ℕ) : ℕ → Mem → Option ℕ → Option ℕ → Option Mem
  | 0, _, _, _ => none
  | _ + 1, m, _, none => some m
  | fuel + 1, m, prev, some c =>
    if c = x then
      match prev with
      | none => some { m with boundList := (m.heap x).next }
      | some b => some (m.set b { m.heap b with next := (m.heap x).next })
    else do
      let sk ← m.get c
      unlinkBound x fuel m (some c) sk.next

/-- The part of `unix_close` that removes a socket with a path from the bound list. -/
def removeBound (m : Mem) (x : ℕ) (path : String) : Option Mem :=
  if path ≠ "" then unlinkBound x (m.fresh + 1) m none m.boundList else some m

/-- The first part of `unix_close`: the connection ends and the socket is closed. -/
def hangUp (m : Mem) (x : ℕ) : Option Mem := do
  let sk ← m.get x
  match sk.peer with
  | none => return m.set x { sk with readOpen := false, writeOpen := false, state := .closed }
  | some p =>
    let pk ← m.get p
    let m := m.set p { pk with readOpen := false, writeOpen := false, peer := none }
    return m.set x
      { sk with readOpen := false, writeOpen := false, peer := none, state := .closed }

/-- The last part of `unix_close`: the peer that the socket had and the socket lose a
reference. -/
def dropRefs (m : Mem) (peer : Option ℕ) (x : ℕ) : Option Mem := do
  let m ← match peer with
    | none => some m
    | some p => unixSockPut (m.fresh + 1) m p
  unixSockPut (m.fresh + 1) m x

/-- `unix_close` -/
def unixClose (m : Mem) (x : ℕ) : Option Mem := do
  let sk ← m.get x
  let m ← hangUp m x
  let m ← removeBound m x sk.path
  dropRefs m sk.peer x

/-! ## The system -/

/-- The heap, and what happened to it: how many descriptors of each socket are held, which
sockets wait in an accept queue, how many references to each one were dropped when a peer was
closed, which were bound and not closed since, which are ends of a connection and were not closed
since, and what was delivered to them and not yet received. The last field is set by an operation
that has no result. -/
structure Sys where
  mem : Mem
  fds : ℕ → ℕ := fun _ => 0
  queued : ℕ → Bool := fun _ => false
  dropped : ℕ → ℕ := fun _ => 0
  bound : ℕ → Bool := fun _ => false
  up : ℕ → Bool := fun _ => false
  inbox : ℕ → List UInt8 := fun _ => []
  broken : Bool := false

def Sys.init : Sys :=
  { mem := { heap := fun _ => {}, live := fun _ => false, fresh := 0, boundList := none } }

inductive Op where
  | create (type : SockType)
  | bind (x : ℕ) (addr : SockAddr)
  | listen (x : ℕ) (backlog : ℤ)
  | connect (x : ℕ) (addr : SockAddr) (mem : Bool)
  | accept (x : ℕ)
  | send (x : ℕ) (data : List UInt8)
  | recv (x : ℕ) (maxLen : ℕ)
  | fork (x : ℕ)
  | close (x : ℕ)
  deriving DecidableEq, Repr

/-- The socket whose descriptor an operation uses. -/
def Op.target : Op → Option ℕ
  | .create _ => none
  | .bind x _ | .listen x _ | .connect x _ _ | .accept x | .send x _ | .recv x _ | .fork x
  | .close x => some x

/-- What an operation does. -/
def act (s : Sys) : Op → Option Sys
  | .create type =>
    let (m, x) := unixSocketCreate s.mem type
    some { s with
      mem := m, fds := update s.fds x 1, dropped := update s.dropped x 0
      up := update s.up x false, inbox := update s.inbox x [] }
  | .bind x addr =>
    (unixBind s.mem x addr).map fun (m, err) =>
      { s with mem := m, bound := if err.isNone then update s.bound x true else s.bound }
  | .listen x backlog => (unixListen s.mem x backlog).map fun (m, _) => { s with mem := m }
  | .connect x addr mem =>
    (unixConnect s.mem x addr mem).map fun (m, r) =>
      match r with
      | .error _ => { s with mem := m }
      | .ok y =>
        { s with
          mem := m, queued := update s.queued y true
          dropped := update s.dropped y 0
          up := update (update s.up x true) y true
          inbox := update s.inbox y [] }
  | .accept x =>
    (unixAccept s.mem x).map fun (m, r) =>
      match r with
      | .sock y =>
        { s with
          mem := m, fds := update s.fds y (s.fds y + 1)
          queued := update s.queued y false }
      | _ => { s with mem := m }
  | .send x data =>
    (unixSend s.mem x data).map fun (m, r) =>
      match r, (s.mem.heap x).peer with
      | .sent n, some p =>
        { s with mem := m, inbox := update s.inbox p (s.inbox p ++ data.take n) }
      | _, _ => { s with mem := m }
  | .recv x maxLen =>
    (unixRecv s.mem x maxLen).map fun (m, r) =>
      match r with
      | .received bytes =>
        { s with mem := m, inbox := update s.inbox x ((s.inbox x).drop bytes.length) }
      | _ => { s with mem := m }
  | .fork x =>
    (unixSocketFork s.mem x).map fun m =>
      { s with mem := m, fds := update s.fds x (s.fds x + 1) }
  | .close x =>
    (unixClose s.mem x).map fun m =>
      { s with
        mem := m, fds := update s.fds x (s.fds x - 1)
        dropped := fun y => s.dropped y + if (s.mem.heap x).peer = some y then 1 else 0
        bound := update s.bound x false, up := update s.up x false }

/-- One operation through a descriptor that is held. After an operation without a result nothing
more happens. -/
def step (s : Sys) (op : Op) : Option Sys :=
  if s.broken = false ∧ ∀ x, op.target = some x → 0 < s.fds x then
    some ((act s op).getD { s with broken := true })
  else none

end Aurora.Unix
