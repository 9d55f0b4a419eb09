import Aurora.Lib.Bytes

/-!
# The heap of a user program

`malloc`, `free`, `calloc` and `realloc` of the user library (`userspace/libc.c`) keep a doubly
linked list of blocks in the memory that `sbrk` has given out. A block starts with a header; what
follows is the caller's. The headers lie in the same memory as the contents, so memory here is
one function from addresses to bytes; `unsigned long` and pointers are numbers below `2 ^ 64`.

`sbrk` takes memory from a fixed area. Whether it fails before the area is used up is an
argument of each call. The loops have a fuel, as the list could be a cycle; `none` means that a
call does not return.

## Main definitions

* `get`, `set`: the fields of a header.
* `Heap`: the memory and the variables of the library.
* `sbrk`, `heapInit`, `malloc`, `free`, `calloc`, `realloc`: the functions.
* `Op`, `step`: a program that calls them, with the pointers it holds.
-/

namespace Aurora.User

open Lib

/-- The fields of `heap_block_t`. -/
inductive Field where
  | size | free | next | prev
  deriving DecidableEq

/-- Where a field starts. -/
def Field.offset : Field → ℕ
  | size => 0
  | free => 8
  | next => 16
  | prev => 24

/-- The bytes of a field. -/
def Field.width : Field → ℕ
  | size => 8
  | free => 4
  | next => 8
  | prev => 8

/-- `sizeof(heap_block_t)`. -/
def headerSize : ℕ := 32

/-- A field of the header at `a`. -/
def get (mem : ℕ → UInt8) (a : ℕ) (f : Field) : ℕ := getLE mem (a + f.offset) f.width

/-- The memory after a field of the header at `a` is set. -/
def set (mem : ℕ → UInt8) (a : ℕ) (f : Field) (v : ℕ) : ℕ → UInt8 :=
  putLE mem (a + f.offset) f.width v

/-- `HEAP_CHUNK_SIZE`. -/
def chunkSize : ℕ := 4096

/-- `USER_HEAP_START`. -/
def heapStart : ℕ := 0x600000

/-- `USER_HEAP_END`. -/
def heapEnd : ℕ := 0x700000

/-- The memory, with `heap_head`, `heap_initialized` and `heap_brk`. -/
structure Heap where
  mem : ℕ → UInt8
  head : ℕ
  initialized : Bool
  brk : ℕ

/-- `sbrk`: the increment is a `long`, so a large `unsigned long` moves the break down. The
second component is the old break. -/
def sbrk (h : Heap) (increment : ℕ) (ok : Bool) : Option (Heap × ℕ) :=
  if ok = false ∨ heapEnd < (h.brk + increment) % 2 ^ 64 then none
  else some ({ h with brk := (h.brk + increment) % 2 ^ 64 }, h.brk)

/-- `heap_init`. -/
def heapInit (h : Heap) (ok : Bool) : Heap :=
  if h.initialized then h
  else
    match sbrk { h with initialized := true } chunkSize ok with
    | none => { h with initialized := true }
    | some (h, block) =>
      let mem := set h.mem block .size chunkSize
      let mem := set mem block .free 1
      let mem := set mem block .next 0
      let mem := set mem block .prev 0
      { h with mem := mem, head := block }

/-- The number of passes after which a loop over the list is given up: more than there is room
for blocks. -/
def maxBlocks : ℕ := 32769

/-- The loop of `malloc` over the list, for the first free block with `needed` bytes. -/
def findFit (mem : ℕ → UInt8) (needed : ℕ) : ℕ → ℕ → Option (Option ℕ)
  | 0, _ => none
  | fuel + 1, block =>
    if block = 0 then some none
    else if get mem block .free ≠ 0 ∧ needed ≤ get mem block .size then some (some block)
    else findFit mem needed fuel (get mem block .next)

/-- The loop of `malloc` to the last block. -/
def findTail (mem : ℕ → UInt8) : ℕ → ℕ → Option ℕ
  | 0, _ => none
  | fuel + 1, tail =>
    if get mem tail .next = 0 then some tail else findTail mem fuel (get mem tail .next)

/-- `if (n) n->prev = q`. -/
def relink (mem : ℕ → UInt8) (n q : ℕ) : ℕ → UInt8 := if n = 0 then mem else set mem n .prev q

/-- The block is cut in two: the first part has `needed` bytes. -/
def splitBlock (mem : ℕ → UInt8) (block needed : ℕ) : ℕ → UInt8 :=
  let newBlock := (block + needed) % 2 ^ 64
  let mem := set mem newBlock .size ((get mem block .size + 2 ^ 64 - needed) % 2 ^ 64)
  let mem := set mem newBlock .free 1
  let mem := set mem newBlock .next (get mem block .next)
  let mem := set mem newBlock .prev block
  let mem := relink mem (get mem block .next) newBlock
  let mem := set mem block .next newBlock
  set mem block .size needed

/-- The free block is taken, and cut if it is large enough. -/
def takeBlock (mem : ℕ → UInt8) (block needed : ℕ) : ℕ → UInt8 :=
  let mem := if (needed + headerSize + 16) % 2 ^ 64 ≤ get mem block .size
    then splitBlock mem block needed else mem
  set mem block .free 0

/-- The size of a block for a request: rounded up to a multiple of eight, with the header, in the
arithmetic of `unsigned long`. -/
def neededFor (size : ℕ) : ℕ := (((size + 7) % 2 ^ 64) / 8 * 8 + headerSize) % 2 ^ 64

/-- The result of `sbrk` in the call of `heap_init`, and for a larger heap. -/
structure Env where
  init : Bool
  grow : Bool

/-- By how much the heap grows. -/
def expandFor (needed : ℕ) : ℕ := if chunkSize < needed then needed else chunkSize

/-- The end of `malloc`: the new block `newBlock` of `expand` bytes is put at the end of the
list. -/
def appendBlock (h : Heap) (newBlock expand : ℕ) : Option (Heap × ℕ) :=
  let mem := set h.mem newBlock .size expand
  let mem := set mem newBlock .free 0
  let mem := set mem newBlock .next 0
  if h.head = 0 then
    some ({ h with mem := set mem newBlock .prev 0, head := newBlock },
      (newBlock + headerSize) % 2 ^ 64)
  else
    match findTail mem maxBlocks h.head with
    | none => none
    | some tail =>
      let mem := set mem tail .next newBlock
      some ({ h with mem := set mem newBlock .prev tail }, (newBlock + headerSize) % 2 ^ 64)

/-- `malloc`. -/
def malloc (h : Heap) (size : ℕ) (env : Env) : Option (Heap × ℕ) :=
  let h := heapInit h env.init
  if h.head = 0 ∨ size = 0 then some (h, 0)
  else
    let needed := neededFor size
    match findFit h.mem needed maxBlocks h.head with
    | none => none
    | some (some block) =>
      some ({ h with mem := takeBlock h.mem block needed }, (block + headerSize) % 2 ^ 64)
    | some none =>
      match sbrk h (expandFor needed) env.grow with
      | none => some (h, 0)
      | some (h, newBlock) => appendBlock h newBlock (expandFor needed)

/-- `free` joins the block with the next one if that is free. -/
def joinNext (mem : ℕ → UInt8) (block : ℕ) : ℕ → UInt8 :=
  let next := get mem block .next
  if next ≠ 0 ∧ get mem next .free ≠ 0 then
    let mem := set mem block .size ((get mem block .size + get mem next .size) % 2 ^ 64)
    let mem := set mem block .next (get mem next .next)
    relink mem (get mem block .next) block
  else mem

/-- `free` joins the block to the one before if that is free. -/
def joinPrev (mem : ℕ → UInt8) (block : ℕ) : ℕ → UInt8 :=
  let prev := get mem block .prev
  if prev ≠ 0 ∧ get mem prev .free ≠ 0 then
    let mem := set mem prev .size ((get mem prev .size + get mem block .size) % 2 ^ 64)
    let mem := set mem prev .next (get mem block .next)
    relink mem (get mem block .next) prev
  else mem

/-- The header in front of a pointer. -/
def headerOf (ptr : ℕ) : ℕ := (ptr + 2 ^ 64 - headerSize) % 2 ^ 64

/-- `free`. -/
def free (h : Heap) (ptr : ℕ) : Heap :=
  if ptr = 0 ∨ h.head = 0 then h
  else
    let block := headerOf ptr
    let mem := set h.mem block .free 1
    { h with mem := joinPrev (joinNext mem block) block }

/-- `memset`. -/
def memset (mem : ℕ → UInt8) (s : ℕ) (c : UInt8) : ℕ → ℕ → UInt8
  | 0 => mem
  | n + 1 => Function.update (memset mem s c n) ((s + n) % 2 ^ 64) c

/-- `memcpy`, from the first byte on. -/
def memcpy (mem : ℕ → UInt8) (dst src : ℕ) : ℕ → ℕ → UInt8
  | 0 => mem
  | n + 1 =>
    let mem := memcpy mem dst src n
    Function.update mem ((dst + n) % 2 ^ 64) (mem ((src + n) % 2 ^ 64))

/-- `calloc`. -/
def calloc (h : Heap) (nmemb size : ℕ) (env : Env) : Option (Heap × ℕ) :=
  if nmemb ≠ 0 ∧ (2 ^ 64 - 1) / nmemb < size then some (h, 0)
  else
    let total := nmemb * size % 2 ^ 64
    match malloc h total env with
    | none => none
    | some (h, ptr) =>
      if ptr = 0 then some (h, ptr) else some ({ h with mem := memset h.mem ptr 0 total }, ptr)

/-- The bytes behind the header, `block->size - sizeof(heap_block_t)`. -/
def payloadSize (mem : ℕ → UInt8) (ptr : ℕ) : ℕ :=
  (get mem (headerOf ptr) .size + 2 ^ 64 - headerSize) % 2 ^ 64

/-- `realloc`. -/
def realloc (h : Heap) (ptr size : ℕ) (env : Env) : Option (Heap × ℕ) :=
  if ptr = 0 then malloc h size env
  else if size = 0 then some (free h ptr, 0)
  else
    let oldSize := payloadSize h.mem ptr
    if size ≤ oldSize then some (h, ptr)
    else
      match malloc h size env with
      | none => none
      | some (h, newPtr) =>
        if newPtr = 0 then some (h, 0)
        else some (free { h with mem := memcpy h.mem newPtr ptr oldSize } ptr, newPtr)

/-! ### Programs -/

/-- A program with a heap: the pointers that it holds, with the bytes it asked for, and the result
of the last call. -/
structure Sys where
  heap : Heap
  live : ℕ → Option ℕ
  result : ℕ

/-- What a program does: a call, with the results of `sbrk`; or a write to memory. -/
inductive Op where
  | malloc (n : UInt64) (env : Env)
  | calloc (nmemb size : UInt64) (env : Env)
  | realloc (p : ℕ) (n : UInt64) (env : Env)
  | free (p : ℕ)
  | store (a : ℕ) (v : UInt8)

/-- The program holds a pointer to `n` bytes, unless it is null. -/
def hold (live : ℕ → Option ℕ) (p n : ℕ) : ℕ → Option ℕ :=
  if p = 0 then live else Function.update live p (some n)

/-- The state after a call that returned `r`, with a pointer to `n` bytes unless it is null. -/
def returned (live : ℕ → Option ℕ) (n : ℕ) (r : Heap × ℕ) : Sys :=
  ⟨r.1, hold live r.2 n, r.2⟩

/-- One step of a program; `none` when the call does not return. -/
def step (s : Sys) : Op → Option Sys
  | .malloc n env => (User.malloc s.heap n.toNat env).map (returned s.live n.toNat)
  | .calloc nmemb size env =>
    (User.calloc s.heap nmemb.toNat size.toNat env).map
      (returned s.live (nmemb.toNat * size.toNat))
  | .realloc p n env =>
    (User.realloc s.heap p n.toNat env).map fun r =>
      -- a call that fails leaves the old block alone
      if r.2 = 0 ∧ n.toNat ≠ 0 then returned s.live n.toNat r
      else returned (Function.update s.live p none) n.toNat r
  | .free p => some ⟨User.free s.heap p, Function.update s.live p none, 0⟩
  | .store a v => some { s with heap := { s.heap with mem := Function.update s.heap.mem a v } }

/-- The program before its first call, with any memory. -/
def boot (mem : ℕ → UInt8) : Sys where
  heap := ⟨mem, 0, false, heapStart⟩
  live := fun _ => none
  result := 0

/-- What a program may do: it frees and reallocates pointers that it holds, or null, and writes to
the bytes that it asked for. -/
def Allowed (s : Sys) : Op → Prop
  | .malloc _ _ | .calloc _ _ _ => True
  | .realloc p _ _ | .free p => p = 0 ∨ (s.live p).isSome
  | .store a _ => ∃ p n, s.live p = some n ∧ p ≤ a ∧ a < p + n

end Aurora.User
