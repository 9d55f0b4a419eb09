import Aurora.Kernel.UserCopy
import Aurora.Lib.Bytes

/-!
# Signal delivery (`signal.c`)

At the end of every system call the kernel delivers pending signals. For a signal with a
handler in user mode it saves the context in a frame on the user stack and lets the task return
into the handler; `sigreturn` restores the context from the frame.

A task here has a signal state and a trap frame, as it has during a system call. User memory
is given by virtual address, together with the pages that `user_page_present` accepts and the
addresses that `vma_find` finds.

## Main definitions

* `Trapframe`, `Sigframe`, `Task`: the data.
* `checkSignals`, `doSysSigreturn`: the functions.
-/

namespace Aurora.Signal

open Lib Aurora.Paging

/-! ## Data -/

/-- `struct trapframe`: the registers of user mode. -/
@[ext]
structure Trapframe where
  r15 : BitVec 64
  r14 : BitVec 64
  r13 : BitVec 64
  r12 : BitVec 64
  r11 : BitVec 64
  r10 : BitVec 64
  r9 : BitVec 64
  r8 : BitVec 64
  rsi : BitVec 64
  rdi : BitVec 64
  rdx : BitVec 64
  rcx : BitVec 64
  rax : BitVec 64
  rip : BitVec 64
  rsp : BitVec 64
  deriving DecidableEq

/-- `struct sigframe`. -/
@[ext]
structure Sigframe where
  retAddr : BitVec 64
  signo : BitVec 64
  r15 : BitVec 64
  r14 : BitVec 64
  r13 : BitVec 64
  r12 : BitVec 64
  r11 : BitVec 64
  r10 : BitVec 64
  r9 : BitVec 64
  r8 : BitVec 64
  rsi : BitVec 64
  rdi : BitVec 64
  rdx : BitVec 64
  rcx : BitVec 64
  rax : BitVec 64
  rip : BitVec 64
  rflags : BitVec 64
  rsp : BitVec 64
  blocked : BitVec 64
  deriving DecidableEq

/-- `sizeof(struct sigframe)`. -/
def sigframeSize : ℕ := 152

/-- The fields in the order of their offsets. -/
def Sigframe.words (f : Sigframe) : List (BitVec 64) :=
  [f.retAddr, f.signo, f.r15, f.r14, f.r13, f.r12, f.r11, f.r10, f.r9, f.r8, f.rsi, f.rdi, f.rdx,
    f.rcx, f.rax, f.rip, f.rflags, f.rsp, f.blocked]

def Sigframe.bytes (f : Sigframe) : List UInt8 := (f.words.map BitVec.toNat).flatMap (toLE 8)

/-- The frame in a sequence of bytes. -/
def Sigframe.ofBytes (bs : List UInt8) : Sigframe :=
  let word k := BitVec.ofNat 64 (field bs (8 * k) 8)
  { retAddr := word 0, signo := word 1, r15 := word 2, r14 := word 3, r13 := word 4, r12 := word 5,
    r11 := word 6, r10 := word 7, r9 := word 8, r8 := word 9, rsi := word 10, rdi := word 11,
    rdx := word 12, rcx := word 13, rax := word 14, rip := word 15, rflags := word 16,
    rsp := word 17, blocked := word 18 }

/-- `struct sigaction`, without the flags, which are never read. -/
structure Sigaction where
  handler : BitVec 64
  mask : BitVec 64
  deriving DecidableEq

def sigDfl : BitVec 64 := 0
def sigIgn : BitVec 64 := 1
def nsig : ℕ := 32
def sigchld : ℕ := 17

/-- A task during a system call. -/
structure Task where
  actions : ℕ → Sigaction
  pending : BitVec 64
  blocked : BitVec 64
  savedRsp : BitVec 64
  savedRip : BitVec 64
  tf : Trapframe
  mem : ℕ → UInt8
  /-- What `user_page_present` answers for a page. -/
  mapped : ℕ → Bool
  /-- What `vma_find` answers for an address. -/
  vma : ℕ → Bool

/-- `1U << s`, where it meets a mask of 64 bits. -/
def sigbit (s : ℕ) : BitVec 64 := (1#32 <<< s).setWidth 64

/-- `~(1U << s)`, where it meets a mask of 64 bits. -/
def sigclear (s : ℕ) : BitVec 64 := (~~~(1#32 <<< s)).setWidth 64

/-- `user_addr_range_ok` and `user_pages_mapped`. -/
def Task.rangeMapped (t : Task) (addr size : ℕ) : Bool :=
  userAddrRangeOk addr size && (pages addr size).all t.mapped

/-! ## Delivery -/

/-- What `check_signals` comes to. -/
inductive Delivery where
  /-- The default action ended the task. -/
  | exited (s : ℕ)
  | returned (t : Task)
  /-- The task will return into the handler of `s`. -/
  | entered (s : ℕ) (t : Task)

/-- `do_signal_default`. -/
def doSignalDefault (t : Task) (s : ℕ) : Delivery := if s = sigchld then .returned t else .exited s

def sigTrampolineSize : ℕ := 16
def frameSize : ℕ := sigframeSize + 8 + sigTrampolineSize
def sysSigreturn : ℕ := 15

/-- `mov eax, SYS_SIGRETURN; syscall`, filled up with zeros. -/
def trampoline : List UInt8 := 0xB8 :: toLE 4 sysSigreturn ++ [0x0F, 0x05] ++ List.replicate 9 0

/-- The frame that `check_signals` builds for the signal `s`. -/
def Sigframe.save (t : Task) (s : ℕ) : Sigframe where
  retAddr := 0
  signo := BitVec.ofNat 64 s
  r15 := t.tf.r15
  r14 := t.tf.r14
  r13 := t.tf.r13
  r12 := t.tf.r12
  r11 := t.tf.r11
  r10 := t.tf.r10
  r9 := t.tf.r9
  r8 := t.tf.r8
  rsi := t.tf.rsi
  rdi := t.tf.rdi
  rdx := t.tf.rdx
  rcx := t.tf.rcx
  rax := t.tf.rax
  rip := t.tf.rip
  rflags := t.tf.r11
  rsp := t.tf.rsp
  blocked := t.blocked

/-- The stack pointer below the frame. -/
def newRsp (t : Task) : BitVec 64 := t.tf.rsp - BitVec.ofNat 64 frameSize

/-- The four checks on the user stack; after any that fails the default action is taken. -/
def hasRoom (t : Task) : Bool :=
  if t.tf.rsp.toNat < frameSize + 0x1000 then false
  else if newRsp t > t.tf.rsp then false
  else if !t.vma (newRsp t).toNat then false
  else t.rangeMapped (newRsp t).toNat (8 + sigTrampolineSize + sigframeSize)

/-- The frame, the return address and the trampoline are written, and the trap frame leads into
the handler. -/
def pushFrame (t : Task) (s : ℕ) : Task :=
  let frame := Sigframe.save t s
  let rsp := newRsp t
  let mem := blit t.mem (rsp.toNat + 8 + sigTrampolineSize) frame.bytes
  let mem := blit mem rsp.toNat (toLE 8 (rsp.toNat + 8))
  let mem := blit mem (rsp.toNat + 8) trampoline
  { t with
    savedRsp := frame.rsp
    savedRip := frame.rip
    mem
    tf := { t.tf with rip := (t.actions s).handler, rsp, rdi := BitVec.ofNat 64 s }
    blocked := t.blocked ||| (sigbit s ||| (t.actions s).mask) }

/-- The part of `check_signals` for a handler in user mode. -/
def enterHandler (t : Task) (s : ℕ) : Delivery :=
  if hasRoom t then .entered s (pushFrame t s) else doSignalDefault t s

/-- The loop of `check_signals`. -/
def deliver : List ℕ → Task → Delivery
  | [], t => .returned t
  | s :: rest, t =>
    if !t.pending.getLsbD s then deliver rest t
    else if t.blocked.getLsbD s then deliver rest t
    else
      let t := { t with pending := t.pending &&& sigclear s }
      if (t.actions s).handler = sigDfl then doSignalDefault t s
      else if (t.actions s).handler = sigIgn then deliver rest t
      else if t.savedRip ≠ 0 then deliver rest { t with pending := t.pending ||| sigbit s }
      else enterHandler t s

/-- `check_signals`. -/
def checkSignals (t : Task) : Delivery :=
  if t.pending = 0 then .returned t else deliver (List.range' 1 (nsig - 1)) t

/-! ## Returning -/

/-- `copy_from_user` of a frame. -/
def copyFrame (t : Task) (addr : ℕ) : Option Sigframe :=
  if addr = 0 then none
  else if !t.rangeMapped addr sigframeSize then none
  else some (Sigframe.ofBytes (slice t.mem addr sigframeSize))

/-- The registers as `do_sys_sigreturn` takes them from the frame. -/
def Sigframe.restore (f : Sigframe) : Trapframe where
  r15 := f.r15
  r14 := f.r14
  r13 := f.r13
  r12 := f.r12
  r11 := (f.rflags &&& 0x3F0CF7) ||| 0x200
  r10 := f.r10
  r9 := f.r9
  r8 := f.r8
  rsi := f.rsi
  rdi := f.rdi
  rdx := f.rdx
  rcx := f.rcx
  rax := f.rax
  rip := f.rip
  rsp := f.rsp

/-- `do_sys_sigreturn`. When the frame cannot be read, its mask is what the local variable
happens to hold. -/
def doSysSigreturn (garbage : BitVec 64) (t : Task) : Task :=
  if t.savedRip ≠ 0 then
    let frameAddr := t.savedRsp - BitVec.ofNat 64 sigframeSize
    let fallback := { t.tf with rip := t.savedRip, rsp := t.savedRsp }
    match copyFrame t frameAddr.toNat with
    | none => { t with tf := fallback, savedRip := 0, savedRsp := 0, blocked := garbage }
    | some frame =>
      let tf := if 0 < frame.signo ∧ frame.signo < BitVec.ofNat 64 nsig then frame.restore
        else fallback
      { t with tf, savedRip := 0, savedRsp := 0, blocked := frame.blocked }
  else t

end Aurora.Signal
