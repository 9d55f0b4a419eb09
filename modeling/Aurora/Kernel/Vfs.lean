import Mathlib.Data.List.Basic
import Mathlib.Data.Int.Notation

/-!
# The dentry cache

The model of `vfs.c`: the tree of dentries with its LRU list and the eviction from it, and
`vfs_lookup`. Dentries are objects in memory; an address that `kmalloc` has given out is not
given out again, and an access to a dentry that has been freed is a fault. A function that can
fault returns `none` then.

The inodes belong to the filesystems, which all put an inode of their own into the dentry
that `lookup` is called with; the pre-allocated inode of the inode cache stays unused, so
all that matters of `vfs_iget` is whether it returns one. The answers of `kmalloc`, of
`vfs_iget` and of the memory a filesystem needs are taken from one sequence.

## Main definitions

* `Dentry`, `Cache`: dentries, and the state of the cache.
* `vfsDentryEvictLocked`, `dentryAlloc`: eviction.
* `walk`, `vfsLookup`: path resolution.
-/

namespace Aurora.Vfs

/-- A component of a path. -/
abbrev Name := List UInt8

/-- `struct dentry`; `child` is the list of its children. -/
structure Dentry where
  name : Name
  inode : Option ℕ
  parent : Option ℕ
  child : List ℕ
  refcount : ℕ
  mount : Bool
  negative : Bool
  deriving DecidableEq

/-- The globals of `vfs.c` with the objects behind them. -/
structure Cache where
  heap : ℕ → Option Dentry
  /-- The next address that `kmalloc` gives to a dentry. -/
  next : ℕ
  /-- The LRU list, the most recently used first. -/
  lru : List ℕ
  total : ℕ
  root : ℕ
  /-- What `ops->lookup` of an inode finds. -/
  look : ℕ → Name → Option ℕ
  mem : ℕ → Bool

/-- `MAX_DENTRIES`. -/
def maxDentries : ℕ := 512

/-- The next answer of the allocators. -/
def ask (s : Cache) : Bool × Cache := (s.mem 0, { s with mem := fun n => s.mem (n + 1) })

def Cache.put (s : Cache) (d : ℕ) (e : Dentry) : Cache :=
  { s with heap := Function.update s.heap d (some e) }

/-! ## Lists of dentries -/

/-- `lru_touch`. -/
def lruTouch (s : Cache) (d : ℕ) : Cache := { s with lru := d :: s.lru.erase d }

/-- A walk along the list of children to the first one that fits. -/
def findChild (s : Cache) (fits : ℕ → Dentry → Bool) : List ℕ → Option (Option ℕ)
  | [] => some none
  | c :: cs =>
    match s.heap c with
    | none => none
    | some e => if fits c e then some (some c) else findChild s fits cs

/-- `dentry_lookup_child`. -/
def dentryLookupChild (s : Cache) (d : ℕ) (name : Name) : Option (Option ℕ) :=
  match s.heap d with
  | none => none
  | some e => findChild s (fun _ c => c.name == name) e.child

/-- `dentry_add_child`. -/
def dentryAddChild (s : Cache) (d c : ℕ) : Option Cache :=
  match s.heap d, s.heap c with
  | some e, some _ => some (s.put d { e with child := c :: e.child })
  | _, _ => none

/-- `dentry_remove_child`. -/
def dentryRemoveChild (s : Cache) (d : ℕ) : Option Cache :=
  match s.heap d with
  | none => none
  | some e =>
    match e.parent with
    | none => some s
    | some p =>
      match s.heap p with
      | none => none
      | some ep =>
        match findChild s (fun c _ => c == d) ep.child with
        | none => none
        | some none => some s
        | some (some _) =>
          some ((s.put p { ep with child := ep.child.erase d }).put d { e with parent := none })

/-! ## Eviction -/

/-- The dentries that `vfs_dentry_evict_locked` does not skip. -/
def evictable (root d : ℕ) (e : Dentry) : Bool :=
  !(d == root || e.mount) && !decide (e.refcount > 1) && !(e.refcount == 0 && !e.negative)

/-- One dentry is freed. -/
def freeDentry (s : Cache) (d : ℕ) : Option Cache :=
  match dentryRemoveChild { s with lru := s.lru.erase d } d with
  | none => none
  | some s' => some { s' with heap := Function.update s'.heap d none, total := s'.total - 1 }

/-- The loop of `vfs_dentry_evict_locked` over the LRU list from its tail, at most
sixteen dentries. -/
def evictLoop : List ℕ → ℕ → Cache → Option Cache
  | [], _, s => some s
  | d :: ds, n, s =>
    if n < 16 then
      match s.heap d with
      | none => none
      | some e =>
        if evictable s.root d e then
          match freeDentry s d with
          | none => none
          | some s => evictLoop ds (n + 1) s
        else evictLoop ds n s
    else some s

/-- `vfs_dentry_evict_locked`. -/
def vfsDentryEvictLocked (s : Cache) : Option Cache := evictLoop s.lru.reverse 0 s

/-- The new dentry at the head of the LRU list. -/
def Cache.addDentry (s : Cache) (name : Name) (parent : Option ℕ) : Cache :=
  { s.put s.next ⟨name, none, parent, [], 1, false, false⟩ with
    next := s.next + 1
    lru := s.next :: s.lru
    total := s.total + 1 }

/-- `dentry_alloc`: the new dentry, or none without memory for it and its name. -/
def dentryAlloc (s : Cache) (name : Name) (parent : Option ℕ) : Option (Option ℕ × Cache) :=
  let a := ask s
  if a.1 = false then some (none, a.2)
  else
    let b := ask a.2
    if b.1 = false then some (none, b.2)
    else
      let s := b.2.addDentry name parent
      if s.total > maxDentries then
        match vfsDentryEvictLocked s with
        | none => none
        | some s => some (some b.2.next, s)
      else some (some b.2.next, s)

/-! ## Path resolution -/

/-- `if (refcount < 0x7FFFFFFF) refcount++`. -/
def bump (refcount : ℕ) : ℕ := if refcount < 0x7FFFFFFF then refcount + 1 else refcount

/-- `ops->lookup` of the inode, if there is one: the inode that the filesystem finds. -/
def callLookup (s : Cache) (inode : Option ℕ) (name : Name) : Option ℕ × Cache :=
  let a := ask s
  (if a.1 then inode.bind fun i => s.look i name else none, a.2)

/-- What has been found is put into the dentry; the answer is false for a negative one. -/
def finishChild (s : Cache) (c : ℕ) (found : Option ℕ) : Option (Bool × Cache) :=
  match s.heap c with
  | none => none
  | some e =>
    match found with
    | none => some (false, s.put c { e with inode := none, negative := true })
    | some j => some (true, s.put c { e with inode := some j })

/-- The parent is asked for the dentry `c`. Its reference count goes up for the time of
the call if `vfs_iget` has returned an inode. -/
def resolveChild (s : Cache) (cur c : ℕ) (name : Name) : Option (Bool × Cache) :=
  let a := ask s
  match a.2.heap cur with
  | none => none
  | some e =>
    let s := if a.1 then a.2.put cur { e with refcount := bump e.refcount - 1 } else a.2
    let r := callLookup s e.inode name
    finishChild r.2 c r.1

/-- One name of the path: the dentry to go on with, or none where `vfs_lookup` returns
`NULL`. -/
def enterChild (s : Cache) (cur : ℕ) (name : Name) : Option (Option ℕ × Cache) :=
  match dentryLookupChild s cur name with
  | none => none
  | some (some c) =>
    match s.heap c with
    | none => none
    | some e =>
      if e.inode.isSome then some (some c, lruTouch s c)
      else
        match resolveChild s cur c name with
        | none => none
        | some (ok, s) => some (if ok then some c else none, s)
  | some none =>
    match dentryAlloc s name (some cur) with
    | none => none
    | some (none, s) => some (none, s)
    | some (some c, s) =>
      match dentryAddChild s cur c with
      | none => none
      | some s =>
        match resolveChild s cur c name with
        | none => none
        | some (ok, s) => some (if ok then some c else none, s)

/-- `/`. -/
def slash : UInt8 := 47

def dot : Name := [46]

def dotDot : Name := [46, 46]

/-- The component at the start of a path. -/
def first (p : List UInt8) : Name := p.takeWhile (· != slash)

/-- What follows the component and the slash behind it. -/
def rest (p : List UInt8) : List UInt8 := (p.dropWhile (· != slash)).tail

/-- The loop of `vfs_lookup`, for a number of rounds: the dentry that it ends at. -/
def walk : ℕ → List UInt8 → ℕ → Cache → Option (Option ℕ × Cache)
  | 0, _, cur, s => some (some cur, s)
  | _ + 1, [], cur, s => some (some cur, s)
  | depth + 1, c :: p, cur, s =>
    let name := first (c :: p)
    if name = [] then walk depth p cur s
    else if name.length > 255 then some (none, s)
    else if name = dotDot then
      match s.heap cur with
      | none => none
      | some e => walk depth (rest (c :: p)) (e.parent.getD cur) s
    else if name = dot then walk depth (rest (c :: p)) cur s
    else
      match enterChild s cur name with
      | none => none
      | some (none, s) => some (none, s)
      | some (some cur, s) => walk depth (rest (c :: p)) cur s

/-- `vfs_lookup`: the dentry whose inode it returns. -/
def vfsLookup (s : Cache) (path : List UInt8) : Option (Option ℕ × Cache) :=
  match path with
  | [] => some (none, s)
  | c :: p =>
    if c ≠ slash then some (none, s)
    else if path.length > 4096 then some (none, s)
    else walk 64 p s.root s

end Aurora.Vfs
