import Aurora.Lib.Run
import Aurora.Lib.Exactly
import Aurora.Lib.Holders
import Mathlib.Data.List.FinRange
import Mathlib.Data.List.ProdSigma

/-!
# Descriptor tables

The tables of open descriptors (`file.c`). A slot holds a pointer to an open file or to a Unix
socket, and nothing says to which: `fd_is_unix` looks at the lowest bit of the address, which is
`0` for both.

## Main definitions

* `Sys`: the descriptor tables of the tasks, and the objects that their slots point to.
* `fdAlloc`, `fdGet`, `fdClose`, `fdCloseAll`, `fdDup`, `fdDup2`, `fdOpenPath`: the operations.
* `Counted`: the reference count of a file is the number of its slots.
* `Told`: files are at odd addresses, and sockets at even ones.
* `counted_iff`: reference counts are right exactly as long as addresses tell files from sockets.
-/

namespace Aurora.Fd

open Lib Function List Option

/-- `MAX_FDS`. -/
def maxFds : ℕ := 16

/-- `CAP_ENTRY_MAGIC`. -/
def capEntryMagic : UInt32 := 0xCAFEFD00

/-- What a slot points to: an open file, of which the pointer to its inode and the reference count
matter here, or a Unix socket, of which the state matters, its first field. -/
inductive Obj
  | file (inode : UInt64) (refcount : ℤ)
  | sock (state : UInt32)
  deriving DecidableEq

/-- The first four bytes of an object, which `fd_get` reads as a magic number. -/
def Obj.magic : Obj → UInt32
  | .file inode _ => inode.toUInt32
  | .sock state => state

/-- Whether the object is a file. -/
def Obj.isFile : Obj → Bool
  | .file .. => true
  | .sock _ => false

/-- A task and the number of a slot. -/
abbrev Key (n : ℕ) := Fin n × Fin maxFds

/-- All slots of all tasks. -/
def keys (n : ℕ) : List (Key n) := finRange n ×ˢ finRange maxFds

/-- The tables of `n` tasks; an unused slot, which holds `(uintptr_t)-1`, is `none`. Besides,
for each address, how often `vfs_close` was called, how many slots were cleared, and how many
references were taken for a slot that then was not found; and whether a function for sockets was
called for a file, or the other way round. -/
structure Sys (n : ℕ) where
  mem : UInt64 → Option Obj
  fdTable : Key n → Option UInt64
  closed : UInt64 → ℕ
  removed : UInt64 → ℕ
  undone : UInt64 → ℕ
  confused : Bool

variable {n : ℕ}

/-- `fd_table_init` for all tasks; nothing is open. -/
def Sys.init (n : ℕ) : Sys n :=
  { mem := fun _ => none, fdTable := fun _ => none, closed := fun _ => 0, removed := fun _ => 0,
    undone := fun _ => 0, confused := false }

/-- Count once more. -/
def bump (count : UInt64 → ℕ) (w : UInt64) : UInt64 → ℕ := Function.update count w (count w + 1)

/-! ## Files and sockets -/

/-- `vfs_close`, which has no result for a pointer to anything but a file. -/
def vfsClose (s : Sys n) (w : UInt64) : Option (Sys n) :=
  match s.mem w with
  | some (.file inode refcount) =>
    if refcount ≤ 0 then some { s with closed := bump s.closed w }
    else if 0 < refcount - 1 then
      some { s with
        mem := Function.update s.mem w (some (.file inode (refcount - 1)))
        closed := bump s.closed w }
    else
      some { s with mem := Function.update s.mem w none, closed := bump s.closed w }
  | _ => none

/-- `vfs_file_dup`. -/
def vfsFileDup (s : Sys n) (w : UInt64) : Option (Sys n) :=
  match s.mem w with
  | some (.file inode refcount) =>
    if refcount ≤ 0 then some s
    else some { s with mem := Function.update s.mem w (some (.file inode (refcount + 1))) }
  | _ => none

/-- A function for sockets: `unix_close`, or a change of the socket's own reference count. What it
does to the socket is left out here; it has no result for a pointer to anything but a socket. -/
def onSock (s : Sys n) (w : UInt64) : Option (Sys n) :=
  match s.mem w with
  | some (.sock _) => some s
  | _ => none

/-! ## The functions of the descriptor table -/

/-- The number of a slot, if `fd` is in range. -/
def slotOf (fd : ℤ) : Option (Fin maxFds) :=
  if h : 0 ≤ fd ∧ fd < maxFds then some ⟨fd.toNat, by omega⟩ else none

/-- `fd_alloc`. -/
def fdAlloc (s : Sys n) (t : Fin n) (filp : UInt64) : Sys n × ℤ :=
  if filp = 0 then (s, -1)
  else
    match (finRange maxFds).find? fun i => (s.fdTable (t, i)).isNone with
    | some i => ({ s with fdTable := Function.update s.fdTable (t, i) (some filp) }, i)
    | none => (s, -1)

/-- `fd_get`; there is no result if the slot points to nothing. -/
def fdGet (s : Sys n) (t : Fin n) (fd : ℤ) : Option (Option UInt64) :=
  match slotOf fd with
  | none => some none
  | some i =>
    match s.fdTable (t, i) with
    | none => some none
    | some w => (s.mem w).map fun o => if o.magic = capEntryMagic then none else some w

/-- `fd_is_unix`. -/
def fdIsUnix (entry : UInt64) : Option UInt64 :=
  if entry = 0xFFFFFFFFFFFFFFFF ∨ entry = 0 ∨ entry = 0x1 ∨ entry &&& 1 ≠ 0 then none
  else some entry

/-- The function that is called to close the object of a slot. -/
def closeObj (s : Sys n) (entry : UInt64) : Option (Sys n) :=
  match fdIsUnix entry with
  | some usk => onSock s usk
  | none => vfsClose s entry

/-- Closing a used slot, as `fd_close` and `fd_close_all` do. -/
def closeSlot (s : Sys n) (k : Key n) (entry : UInt64) : Option (Sys n) :=
  (closeObj s entry).map fun s' =>
    { s' with fdTable := Function.update s'.fdTable k none, removed := bump s'.removed entry }

/-- `fd_close`. -/
def fdClose (s : Sys n) (t : Fin n) (fd : ℤ) : Option (Sys n × ℤ) :=
  match slotOf fd with
  | none => some (s, -1)
  | some i =>
    match s.fdTable (t, i) with
    | none => some (s, -1)
    | some entry => (closeSlot s (t, i) entry).map (·, 0)

/-- The body of the loop of `fd_close_all`. -/
def closeNext (t : Fin n) (s : Sys n) (i : Fin maxFds) : Option (Sys n) :=
  match s.fdTable (t, i) with
  | none => some s
  | some entry => closeSlot s (t, i) entry

/-- `fd_close_all`. -/
def fdCloseAll (s : Sys n) (t : Fin n) : Option (Sys n) :=
  (finRange maxFds).foldlM (closeNext t) s

/-- A reference was taken for a slot that `fd_alloc` did not find: `vfs_close` gives it back. -/
def undo (w : UInt64) : Sys n × ℤ → Option (Sys n × ℤ)
  | (s, fd) =>
    if fd < 0 then (vfsClose s w).map fun s' => ({ s' with undone := bump s'.undone w }, -1)
    else some (s, fd)

/-- `fd_open_path`, where `vfs_open` answers with the address of a new file and its inode. -/
def fdOpenPath (s : Sys n) (t : Fin n) : Option (UInt64 × UInt64) → Option (Sys n × ℤ)
  | none => some (s, -1)
  | some (f, inode) =>
    undo f (fdAlloc { s with mem := Function.update s.mem f (some (.file inode 1)) } t f)

/-- `sys_socket` for `AF_UNIX`, with the address of a new socket. -/
def sysSocket (s : Sys n) (t : Fin n) (sk : UInt64) (state : UInt32) : Sys n × ℤ :=
  fdAlloc { s with mem := Function.update s.mem sk (some (.sock state)) } t sk

/-- `fd_dup`. -/
def fdDup (s : Sys n) (t : Fin n) (oldfd : ℤ) : Option (Sys n × ℤ) :=
  match fdGet s t oldfd with
  | none => none
  | some none => some (s, -1)
  | some (some f) =>
    match fdIsUnix f with
    | some usk => (onSock s usk).map fun s' => fdAlloc s' t f
    | none => (vfsFileDup s f).bind fun s' => undo f (fdAlloc s' t f)

/-- The function that is called to take another reference to the object of a slot. -/
def refObj (s : Sys n) (f : UInt64) : Option (Sys n) :=
  match fdIsUnix f with
  | some usk => onSock s usk
  | none => vfsFileDup s f

/-- The last part of `fd_dup2`: the new slot gets the object of the old one. -/
def dupInto (s : Sys n) (k : Key n) (f : UInt64) : Option (Sys n) :=
  (refObj s f).map fun s' => { s' with fdTable := Function.update s'.fdTable k (some f) }

/-- `fd_dup2`. -/
def fdDup2 (s : Sys n) (t : Fin n) (oldfd newfd : ℤ) : Option (Sys n × ℤ) :=
  match slotOf oldfd, slotOf newfd with
  | some _, some j =>
    if oldfd = newfd then some (s, newfd)
    else
      match fdGet s t oldfd with
      | none => none
      | some none => some (s, -1)
      | some (some f) =>
        (closeNext t s j).bind fun s' => (dupInto s' (t, j) f).map (·, newfd)
  | _, _ => some (s, -1)

/-! ## Runs -/

/-- The operations of the tasks. -/
inductive Op (n : ℕ)
  | openPath (t : Fin n) (file : Option (UInt64 × UInt64))
  | socket (t : Fin n) (sk : UInt64) (state : UInt32)
  | dup (t : Fin n) (oldfd : ℤ)
  | dup2 (t : Fin n) (oldfd newfd : ℤ)
  | close (t : Fin n) (fd : ℤ)
  | closeAll (t : Fin n)

/-- What an operation does; there is no result if a function was called for an object of the
other kind. -/
def act (s : Sys n) : Op n → Option (Sys n)
  | .openPath t file => (fdOpenPath s t file).map Prod.fst
  | .socket t sk state => some (sysSocket s t sk state).1
  | .dup t oldfd => (fdDup s t oldfd).map Prod.fst
  | .dup2 t oldfd newfd => (fdDup2 s t oldfd newfd).map Prod.fst
  | .close t fd => (fdClose s t fd).map Prod.fst
  | .closeAll t => fdCloseAll s t

/-- New objects come from the allocator: they are not at the address of another object, and not
at address `0`. -/
def Op.Fresh (s : Sys n) : Op n → Prop
  | .openPath _ (some (f, _)) => f ≠ 0 ∧ s.mem f = none
  | .socket _ sk _ => sk ≠ 0 ∧ s.mem sk = none
  | _ => True

instance (s : Sys n) : (op : Op n) → Decidable (op.Fresh s)
  | .openPath _ none => instDecidableTrue
  | .openPath _ (some (f, _)) => inferInstanceAs (Decidable (f ≠ 0 ∧ s.mem f = none))
  | .socket _ sk _ => inferInstanceAs (Decidable (sk ≠ 0 ∧ s.mem sk = none))
  | .dup .. | .dup2 .. | .close .. | .closeAll _ => instDecidableTrue

/-- One operation; the run ends with the first confusion. -/
def step (s : Sys n) (op : Op n) : Option (Sys n) :=
  if s.confused = false ∧ op.Fresh s then
    some ((act s op).getD { s with confused := true })
  else none

/-! ## Reference counts -/

/-- How many slots point to the address. -/
def Sys.slots (s : Sys n) (w : UInt64) : ℕ := holders s.fdTable (keys n) w

/-- The object is not a socket. -/
def NoSock (s : Sys n) (w : UInt64) : Prop := ∀ o, s.mem w = some o → o.isFile = true

/-- Nothing was taken for what it is not; used slots point to objects that were not released; an
open file has as many references as slots, and was released if it has no slot; and for files,
`vfs_close` was called once for each slot that was cleared, besides giving back references that no
slot was found for. -/
structure Counted (s : Sys n) : Prop where
  clear : s.confused = false
  live : ∀ k w, s.fdTable k = some w → s.mem w ≠ none
  count : ∀ w inode c, s.mem w = some (.file inode c) → c = s.slots w ∧ 0 < s.slots w
  closed : ∀ w, NoSock s w → s.closed w = s.removed w + s.undone w

/-- Files are at odd addresses, and sockets at even ones. -/
def Tells (s : Sys n) (w : UInt64) : Prop :=
  ∀ o, s.mem w = some o → (o.isFile = true ↔ w &&& 1 ≠ 0)

/-- The address does not begin like a capability entry. -/
def NoCap (s : Sys n) (w : UInt64) : Prop := ∀ o, s.mem w = some o → o.magic ≠ capEntryMagic

/-- The addresses in the slots that an operation duplicates or closes tell what they are. -/
def Told (s : Sys n) : Op n → Prop
  | .dup t oldfd =>
      ∀ i f, slotOf oldfd = some i → s.fdTable (t, i) = some f → NoCap s f → Tells s f
  | .dup2 t oldfd newfd =>
      ∀ i j f, slotOf oldfd = some i → slotOf newfd = some j → oldfd ≠ newfd →
        s.fdTable (t, i) = some f → NoCap s f →
        Tells s f ∧ ∀ w, s.fdTable (t, j) = some w → Tells s w
  | .close t fd => ∀ i w, slotOf fd = some i → s.fdTable (t, i) = some w → Tells s w
  | .closeAll t => ∀ i w, s.fdTable (t, i) = some w → Tells s w
  | _ => True

/-! ## Lemmas about the tables -/

lemma keys_nodup (n : ℕ) : (keys n).Nodup :=
  (nodup_finRange n).product (nodup_finRange maxFds)

lemma mem_keys (k : Key n) : k ∈ keys n :=
  mem_product.2 ⟨mem_finRange k.1, mem_finRange k.2⟩

lemma holders_set (f : Key n → Option UInt64) (k : Key n) (y : Option UInt64) (w : UInt64) :
    holders (update f k y) (keys n) w + (if f k = some w then 1 else 0) =
      holders f (keys n) w + (if y = some w then 1 else 0) :=
  holders_update (keys_nodup n) (mem_keys k) y

lemma bump_apply (count : UInt64 → ℕ) (w v : UInt64) :
    bump count w v = count v + if v = w then 1 else 0 := by
  unfold bump
  by_cases hv : v = w
  · rw [if_pos hv, hv, update_self]
  · rw [if_neg hv, update_of_ne hv, Nat.add_zero]

/-- `fd_is_unix` looks at the lowest bit. -/
lemma fdIsUnix_eq {w : UInt64} (hw : w ≠ 0) :
    fdIsUnix w = if w &&& 1 ≠ 0 then none else some w := by
  refine if_congr ⟨?_, fun h => .inr (.inr (.inr h))⟩ rfl rfl
  rintro (rfl | h | rfl | h)
  · decide
  · exact absurd h hw
  · decide
  · exact h

lemma slotOf_eq_some {fd : ℤ} {i : Fin maxFds} (h : slotOf fd = some i) : fd = i := by
  unfold slotOf at h
  split at h
  · cases h
    simp only
    omega
  · cases h

/-- `fd_alloc` finds an unused slot, or fails. -/
lemma fdAlloc_cases (s : Sys n) (t : Fin n) {filp : UInt64} (hfilp : filp ≠ 0) :
    (∃ i, s.fdTable (t, i) = none ∧ fdAlloc s t filp =
      ({ s with fdTable := update s.fdTable (t, i) (some filp) }, (i : ℤ))) ∨
    fdAlloc s t filp = (s, -1) := by
  rw [fdAlloc, if_neg hfilp]
  cases h : (finRange maxFds).find? fun i => (s.fdTable (t, i)).isNone with
  | none => exact .inr rfl
  | some i =>
    have hfree := find?_some h
    exact .inl ⟨i, isNone_iff_eq_none.1 hfree, rfl⟩

/-! ## What the operations keep -/

/-- The tables while an operation has one more reference to the file `hand`. -/
structure Sane (hand : Option UInt64) (s : Sys n) : Prop where
  live : ∀ k w, s.fdTable k = some w → s.mem w ≠ none
  nonnull : ∀ w, s.mem w ≠ none → w ≠ 0
  count : ∀ w inode c, s.mem w = some (.file inode c) →
    c = (s.slots w + if hand = some w then 1 else 0 : ℕ) ∧ 0 < c
  closed : ∀ w, NoSock s w → s.closed w = s.removed w + s.undone w

section

variable {c : ℤ} {inode v : UInt64} {o : Obj} {op : Op n}

variable {s s' : Sys n} {hand : Option UInt64} {w : UInt64} {k : Key n} {t : Fin n}

lemma sane_init (n : ℕ) : Sane none (.init n) where
  live := nofun
  nonnull := fun _ h => absurd rfl h
  count := nofun
  closed := fun _ _ => rfl

lemma Sane.counted (h : Sane none s) (hclear : s.confused = false) : Counted s where
  clear := hclear
  live := h.live
  count := by
    intro w inode c hw
    obtain ⟨hc, hpos⟩ := h.count w inode c hw
    rw [if_neg nofun] at hc
    omega
  closed := h.closed

lemma Sane.ne_zero (h : Sane hand s) (hw : s.mem w = some o) : w ≠ 0 :=
  h.nonnull w (by rw [hw]; nofun)

/-- The object at one address changes, with the slots that point to it and the reference at
hand. -/
lemma Sane.setMem {hand' : Option UInt64} {y : Option Obj} (h : Sane hand s) (hw : w ≠ 0)
    (hmem : s'.mem = update s.mem w y)
    (htable : ∀ k v, v ≠ w → s'.fdTable k = some v → s.fdTable k = some v)
    (hlive : 0 < s'.slots w → y ≠ none)
    (hcount : ∀ inode c, y = some (.file inode c) →
      c = (s'.slots w + if hand' = some w then 1 else 0 : ℕ) ∧ 0 < c)
    (hother : ∀ v, v ≠ w → s'.slots v + (if hand' = some v then 1 else 0) =
      s.slots v + if hand = some v then 1 else 0)
    (hclosed : ∀ v, NoSock s' v → s'.closed v = s'.removed v + s'.undone v) :
    Sane hand' s' := by
  refine ⟨fun k v hk => ?_, fun v hv => ?_, fun v inode c hv => ?_, hclosed⟩ <;>
    by_cases hvw : v = w
  · rw [hmem, hvw, update_self]
    exact hlive (hvw ▸ one_le_holders (mem_keys k) hk)
  · rw [hmem, update_of_ne hvw]
    exact h.live k v (htable k v hvw hk)
  · exact hvw ▸ hw
  · rw [hmem, update_of_ne hvw] at hv
    exact h.nonnull v hv
  · rw [hmem, hvw, update_self] at hv
    exact hvw ▸ hcount inode c hv
  · rw [hmem, update_of_ne hvw] at hv
    rw [hother v hvw]
    exact h.count v inode c hv

/-- A file loses a reference, that of a slot or the one at hand. -/
lemma Sane.drop (h : Sane hand s) (hw : s.mem w = some (.file inode c))
    (hmem : s'.mem = update s.mem w
      (if 0 < c - 1 then some (.file inode (c - 1)) else none))
    (htable : ∀ k v, s'.fdTable k = some v → s.fdTable k = some v)
    (hslots : s'.slots w + 1 = s.slots w + if hand = some w then 1 else 0)
    (hother : ∀ v, v ≠ w → s'.slots v = s.slots v ∧ hand ≠ some v)
    (hclosed : ∀ v, NoSock s' v → s'.closed v = s'.removed v + s'.undone v) : Sane none s' := by
  obtain ⟨hc, -⟩ := h.count w inode c hw
  refine h.setMem (h.ne_zero hw) hmem (fun k v _ => htable k v) (fun hs => ?_)
    (fun inode' c' hy => ?_) (fun v hv => ?_) hclosed
  · rw [if_pos (by omega)]
    nofun
  · rw [if_neg nofun]
    split at hy
    · cases hy
      omega
    · cases hy
  · rw [if_neg nofun, if_neg (hother v hv).2, (hother v hv).1]

/-- A new slot for an object; if it is a file, then with the reference at hand. -/
lemma Sane.setSlot (h : Sane hand s) (hk : s.fdTable k = none)
    (hw : s.mem w = some o) (hhand : hand = if o.isFile = true then some w else none)
    (hmem : s'.mem = s.mem) (htable : s'.fdTable = update s.fdTable k (some w))
    (hclosed : ∀ v, NoSock s' v → s'.closed v = s'.removed v + s'.undone v) : Sane none s' := by
  have hslots : ∀ v, s'.slots v = s.slots v + if some w = some v then 1 else 0 := by
    intro v
    have hset := holders_set s.fdTable k (some w) v
    rwa [hk, if_neg nofun, Nat.add_zero, ← htable] at hset
  refine h.setMem (y := some o) (h.ne_zero hw) (hmem.trans (by rw [← hw, update_eq_self]))
    (fun k' v hv hk' => ?_) (fun _ => nofun) (fun inode c ho => ?_) (fun v hv => ?_) hclosed
  · rw [htable] at hk'
    by_cases hkk : k' = k
    · rw [hkk, update_self] at hk'
      exact absurd (some.inj hk').symm hv
    · rwa [update_of_ne hkk] at hk'
  · cases ho
    have hc := h.count w inode c hw
    rw [hhand] at hc
    rwa [hslots, if_neg (nofun : ¬ none = some w)]
  · have hne : hand ≠ some v := by
      rw [hhand]
      split
      · exact fun heq => hv (some.inj heq).symm
      · nofun
    rw [hslots, if_neg fun heq => hv (some.inj heq).symm, if_neg nofun, if_neg hne]

/-- Whether the address tells the kind of the object is whether `fd_is_unix` does. -/
lemma Sane.tells_iff (h : Sane hand s) (hw : s.mem w = some o) :
    Tells s w ↔ fdIsUnix w = if o.isFile = true then none else some w := by
  rw [fdIsUnix_eq (h.ne_zero hw)]
  simp only [Tells, hw, some.injEq, forall_eq']
  by_cases hbit : w &&& 1 ≠ 0 <;> by_cases hfile : o.isFile = true <;> simp [hbit, hfile]

/-- The file that loses a reference was no socket before. -/
lemma NoSock.of_update {y : Option Obj}
    (h : NoSock s' v) (hw : s.mem w = some o) (hfile : o.isFile = true)
    (hmem : s'.mem = update s.mem w y) : NoSock s v := by
  intro o' ho'
  by_cases hv : v = w
  · rw [hv, hw] at ho'
    cases ho'
    exact hfile
  · exact h o' (by rwa [hmem, update_of_ne hv])

lemma vfsClose_eq (hw : s.mem w = some (.file inode c)) (hc : 0 < c) : vfsClose s w = some { s with
      mem := update s.mem w (if 0 < c - 1 then some (.file inode (c - 1)) else none)
      closed := bump s.closed w } := by
  rw [vfsClose, hw]
  simp only
  rw [if_neg (by omega)]
  split <;> rfl

/-- Giving back the reference at hand. -/
lemma Sane.undo (h : Sane (some w) s) (hw : s.mem w = some (.file inode c)) :
    ∃ s', Fd.undo w (s, -1) = some (s', -1) ∧ Sane none s' ∧ s'.confused = s.confused := by
  have hpos := (h.count w inode c hw).2
  refine ⟨{ s with
    mem := update s.mem w (if 0 < c - 1 then some (.file inode (c - 1)) else none)
    closed := bump s.closed w, undone := bump s.undone w }, ?_, ?_, rfl⟩
  · rw [Fd.undo, if_pos (by decide), vfsClose_eq hw hpos]
    rfl
  · refine h.drop hw rfl (fun _ _ hk => hk) ?_ (fun v hv => ⟨rfl, ?_⟩) (fun v hv => ?_)
    · rw [if_pos rfl]
      rfl
    · exact fun heq => hv (some.inj heq).symm
    · simp only [bump_apply, h.closed v (hv.of_update hw rfl rfl)]
      omega

/-- Every object was there before, and was of the same kind. -/
def Kinds (s s' : Sys n) : Prop :=
  ∀ v o', s'.mem v = some o' → ∃ o, s.mem v = some o ∧ o.isFile = o'.isFile

lemma Kinds.tells (h : Kinds s s') (hv : s'.mem v ≠ none) : Tells s' v ↔ Tells s v := by
  obtain ⟨o', ho'⟩ := ne_none_iff_exists'.1 hv
  obtain ⟨o, ho, hkind⟩ := h v o' ho'
  simp only [Tells, ho, ho', some.injEq, forall_eq', hkind]

/-- What closing a slot changes. -/
structure Cleared (s : Sys n) (k : Key n) (s' : Sys n) : Prop where
  sane : Sane none s'
  table : s'.fdTable = Function.update s.fdTable k none
  kinds : Kinds s s'
  confused : s'.confused = s.confused

/-- If the address does not tell what it is, the function for the other kind is called. -/
lemma Sane.isUnix_of_not_tells (h : Sane hand s) (hw : s.mem w = some o)
    (htells : ¬ Tells s w) : fdIsUnix w = if o.isFile = true then some w else none := by
  rw [h.tells_iff hw, fdIsUnix_eq (h.ne_zero hw)] at htells
  rw [fdIsUnix_eq (h.ne_zero hw)]
  by_cases hbit : w &&& 1 ≠ 0 <;> by_cases hfile : o.isFile = true <;> simp_all

/-- A function for the other kind of object has no result. -/
lemma closeSlot_eq_none (hw : s.mem w = some o)
    (hunix : fdIsUnix w = if o.isFile = true then some w else none) : closeSlot s k w = none := by
  rw [closeSlot, closeObj, hunix]
  cases o with
  | sock _ => simp [Obj.isFile, vfsClose, hw]
  | file _ c => simp [Obj.isFile, onSock, hw]

/-- A slot is cleared. -/
lemma slots_clear (hk : s.fdTable k = some w) (v : UInt64) :
    holders (update s.fdTable k none) (keys n) v + (if v = w then 1 else 0) = s.slots v := by
  have hset := holders_set s.fdTable k none v
  rw [hk, if_neg (nofun : ¬ none = some v), Nat.add_zero] at hset
  rw [Sys.slots, ← hset]
  congr 1
  exact if_congr ⟨fun heq => congrArg some heq.symm, fun heq => (some.inj heq).symm⟩ rfl rfl

lemma of_update_none {f : Key n → Option UInt64} {k' : Key n}
    (hk' : update f k none k' = some v) : f k' = some v := by
  by_cases hkk : k' = k
  · simp [hkk, update_self] at hk'
  · rwa [update_of_ne hkk] at hk'

section

variable (h : Sane none s)

include h

/-- Closing the slot of a socket. -/
lemma Sane.closeSock {state : UInt32} (hk : s.fdTable k = some w)
    (hw : s.mem w = some (.sock state)) (hunix : fdIsUnix w = some w) :
    ∃ s', closeSlot s k w = some s' ∧ Cleared s k s' := by
  refine ⟨{ s with fdTable := update s.fdTable k none, removed := bump s.removed w },
    ?_, h.setMem (y := some (.sock state)) (h.ne_zero hw) (by rw [← hw, update_eq_self])
      (fun k' v _ hk' => of_update_none hk') (fun _ => nofun) nofun (fun v hv => ?_)
      (fun v hv => ?_), rfl, fun v o' hv => ⟨o', hv, rfl⟩, rfl⟩
  · rw [closeSlot, closeObj, hunix]
    simp only [onSock, hw, map_some]
  · have hkeep := slots_clear hk v
    rw [if_neg hv, Nat.add_zero] at hkeep
    exact congrArg (· + _) hkeep
  · have hvw : v ≠ w := by
      rintro rfl
      cases hv _ hw
    show s.closed v = bump s.removed w v + s.undone v
    rw [bump_apply, if_neg hvw]
    exact h.closed v hv

/-- Closing the slot of a file drops one of its references. -/
lemma Sane.closeFile (hk : s.fdTable k = some w)
    (hw : s.mem w = some (.file inode c)) (hunix : fdIsUnix w = none) :
    ∃ s', closeSlot s k w = some s' ∧ Cleared s k s' := by
  have hpos := (h.count w inode c hw).2
  have hslots := slots_clear hk
  refine ⟨{ s with
    mem := update s.mem w (if 0 < c - 1 then some (.file inode (c - 1)) else none)
    fdTable := update s.fdTable k none
    closed := bump s.closed w, removed := bump s.removed w }, ?_, ?_, rfl, fun v o' hv => ?_, rfl⟩
  · rw [closeSlot, closeObj, hunix]
    simp only [vfsClose_eq hw hpos, map_some]
  · refine h.drop hw rfl (fun k' v hk' => of_update_none hk') ?_ (fun v hv => ⟨?_, nofun⟩)
      (fun v hv => ?_)
    · have hone := hslots w
      rwa [if_pos rfl] at hone
    · have hkeep := hslots v
      rwa [if_neg hv, Nat.add_zero] at hkeep
    · simp only [bump_apply, h.closed v (hv.of_update hw rfl rfl)]
      omega
  · by_cases hvw : v = w
    · refine ⟨.file inode c, hvw ▸ hw, ?_⟩
      have hv' : update s.mem w _ v = some o' := hv
      rw [hvw, update_self] at hv'
      split at hv'
      · cases hv'
        rfl
      · cases hv'
    · exact ⟨o', (update_of_ne hvw _ s.mem).symm.trans hv, rfl⟩

/-- **Closing a slot** works exactly if the address in it tells what it is. -/
lemma Sane.closeSlot (hk : s.fdTable k = some w) :
    Exactly (closeSlot s k w) (Tells s w) (Cleared s k) := by
  obtain ⟨o, hw⟩ := ne_none_iff_exists'.1 (h.live k w hk)
  refine ⟨fun htells => ?_, fun htells => closeSlot_eq_none hw (h.isUnix_of_not_tells hw htells)⟩
  have hunix := (h.tells_iff hw).1 htells
  cases o with
  | sock _ => exact h.closeSock hk hw hunix
  | file _ c => exact h.closeFile hk hw hunix

/-- One pass of the loop of `fd_close_all`. -/
lemma Sane.closeNext (t : Fin n) (i : Fin maxFds) :
    Exactly (closeNext t s i) (∀ w, s.fdTable (t, i) = some w → Tells s w) (Cleared s (t, i)) := by
  rw [Fd.closeNext]
  cases hk : s.fdTable (t, i) with
  | none =>
    have hsame : update s.fdTable (t, i) none = s.fdTable := by
      rw [← hk, update_eq_self]
    exact .some nofun ⟨h, hsame.symm, fun v o hv => ⟨o, hv, rfl⟩, rfl⟩
  | some w =>
    refine (h.closeSlot hk).congr ⟨fun htells => htells w rfl, fun htells w' hw' => ?_⟩
    cases hw'
    exact htells

omit h in
/-- What a slot points to after another one was closed, it did so before. -/
lemma Cleared.tells (h : Cleared s k s') {k' : Key n} (hk' : s'.fdTable k' = some w) :
    s.fdTable k' = some w ∧ (Tells s' w ↔ Tells s w) := by
  refine ⟨?_, h.kinds.tells (h.sane.live k' w hk')⟩
  rw [h.table] at hk'
  exact of_update_none hk'

/-- **`fd_close_all`** works exactly if all addresses in the table tell what they are. -/
lemma Sane.closeAll (t : Fin n) (is : List (Fin maxFds)) : Exactly (is.foldlM (Fd.closeNext t) s)
      (∀ i ∈ is, ∀ w, s.fdTable (t, i) = some w → Tells s w)
      fun s' => Sane none s' ∧ s'.confused = s.confused := by
  induction is generalizing s with
  | nil => exact .some nofun ⟨h, rfl⟩
  | cons i is ih =>
    refine (h.closeNext t i).bind (fun htells => htells i mem_cons_self) fun s1 hi hc => ?_
    refine ((ih hc.sane).congr ⟨fun htells j hj w hw => ?_, fun htells j hj w hw => ?_⟩).mono
      fun s' hs' => ⟨hs'.1, hs'.2.trans hc.confused⟩
    · obtain ⟨hw0, hiff⟩ := hc.tells hw
      exact hiff.2 (htells j (mem_cons_of_mem _ hj) w hw0)
    · by_cases hji : j = i
      · exact hi w (hji ▸ hw)
      · have hne : ((t, j) : Key n) ≠ (t, i) := fun heq => hji (Prod.mk.inj heq).2
        have hw1 : s1.fdTable (t, j) = some w := by
          rwa [hc.table, update_of_ne hne]
        exact (hc.tells hw1).2.1 (htells j ((mem_cons.1 hj).resolve_left hji) w hw1)

omit h in
/-- What taking a reference changes. -/
structure Taken (s : Sys n) (w : UInt64) (o : Obj) (s' : Sys n) : Prop where
  sane : Sane (if o.isFile = true then some w else none) s'
  table : s'.fdTable = s.fdTable
  here : ∃ o', s'.mem w = some o' ∧ o'.isFile = o.isFile
  confused : s'.confused = s.confused

/-- `vfs_file_dup` of a file in use. -/
lemma Sane.vfsFileDup (hw : s.mem w = some (.file inode c)) :
    ∃ s', vfsFileDup s w = some s' ∧ Taken s w (.file inode c) s' := by
  obtain ⟨hc, hpos⟩ := h.count w inode c hw
  refine ⟨{ s with mem := update s.mem w (some (.file inode (c + 1))) }, ?_,
    h.setMem (h.ne_zero hw) rfl (fun _ _ _ hk => hk) (fun _ => nofun) (fun inode' c' hy => ?_)
      (fun v hv => ?_) (fun v hv => h.closed v (hv.of_update hw rfl rfl)), rfl,
    ⟨.file inode (c + 1), update_self .., rfl⟩, rfl⟩
  · rw [Fd.vfsFileDup, hw]
    simp only
    rw [if_neg (by omega)]
  · cases hy
    rw [if_neg nofun] at hc
    rw [Obj.isFile, if_pos rfl, if_pos rfl]
    show c + 1 = (s.slots w + 1 : ℕ) ∧ 0 < c + 1
    omega
  · rw [Obj.isFile, if_pos rfl, if_neg fun heq => hv (some.inj heq).symm, if_neg nofun]
    rfl

/-- **Taking a reference** works exactly if the address tells what it is. -/
lemma Sane.refObj (hw : s.mem w = some o) : Exactly (refObj s w) (Tells s w) (Taken s w o) := by
  refine ⟨fun htells => ?_, fun htells => ?_⟩
  · rw [Fd.refObj, (h.tells_iff hw).1 htells]
    cases o with
    | sock state =>
      refine ⟨s, ?_, h, rfl, ⟨_, hw, rfl⟩, rfl⟩
      simp [Obj.isFile, onSock, hw]
    | file inode c => exact h.vfsFileDup hw
  · rw [Fd.refObj, h.isUnix_of_not_tells hw htells]
    cases o with
    | sock state => simp [Obj.isFile, Fd.vfsFileDup, hw]
    | file inode c => simp [Obj.isFile, onSock, hw]

omit h in
/-- A slot for an object to which a reference was taken; without a slot, the reference is given
back. -/
lemma Sane.alloc (h : Sane (if o.isFile = true then some w else none) s)
    (hw : s.mem w = some o) (t : Fin n) :
    (o.isFile = true → ∃ p, Fd.undo w (fdAlloc s t w) = some p ∧ Sane none p.1 ∧
      p.1.confused = s.confused) ∧
    (o.isFile = false → Sane none (fdAlloc s t w).1 ∧ (fdAlloc s t w).1.confused = s.confused) := by
  obtain ⟨i, hi, halloc⟩ | halloc := fdAlloc_cases s t (h.ne_zero hw)
  · have hset : Sane none { s with fdTable := update s.fdTable (t, i) (some w) } :=
      h.setSlot hi hw rfl rfl rfl h.closed
    rw [halloc]
    refine ⟨fun _ => ⟨(_, (i : ℤ)), ?_, hset, rfl⟩, fun _ => ⟨hset, rfl⟩⟩
    rw [Fd.undo, if_neg (by omega)]
  · rw [halloc]
    refine ⟨fun hfile => ?_, fun hfile => ?_⟩
    · cases o with
      | sock _ => cases hfile
      | file _ c =>
        obtain ⟨s', hundo, hsane, hconf⟩ := h.undo hw
        exact ⟨(s', -1), hundo, hsane, hconf⟩
    · rw [hfile] at h
      exact ⟨h, rfl⟩

/-- What `fd_get` answers. -/
lemma Sane.fdGet_cases (t : Fin n) (fd : ℤ) :
    (∃ i f, slotOf fd = some i ∧ s.fdTable (t, i) = some f ∧ NoCap s f ∧
      fdGet s t fd = some (some f)) ∨
    ((∀ i f, slotOf fd = some i → s.fdTable (t, i) = some f → ¬ NoCap s f) ∧
      fdGet s t fd = some none) := by
  unfold fdGet
  cases hslot : slotOf fd with
  | none => exact .inr ⟨nofun, rfl⟩
  | some i =>
    cases hk : s.fdTable (t, i) with
    | none =>
      refine .inr ⟨fun i' f hi hf => ?_, by simp only [hk]⟩
      cases hi
      cases hk.symm.trans hf
    | some f =>
      obtain ⟨o, ho⟩ := ne_none_iff_exists'.1 (h.live _ f hk)
      simp only [hk, ho, map_some]
      by_cases hmagic : o.magic = capEntryMagic
      · refine .inr ⟨fun i' f' hi hf hno => ?_, by rw [if_pos hmagic]⟩
        cases hi
        cases hk.symm.trans hf
        exact hno o ho hmagic
      · refine .inl ⟨i, f, rfl, hk, fun o' ho' => ?_, by rw [if_neg hmagic]⟩
        cases ho.symm.trans ho'
        exact hmagic

omit h in
/-- `fd_dup` takes a reference, and looks for a slot. -/
lemma fdDup_eq {oldfd : ℤ} {f : UInt64} (hget : fdGet s t oldfd = some (some f)) :
    fdDup s t oldfd = (refObj s f).bind fun s' =>
      if (fdIsUnix f).isSome then some (fdAlloc s' t f) else undo f (fdAlloc s' t f) := by
  simp only [fdDup, hget, refObj]
  cases fdIsUnix f with
  | none => rfl
  | some _ => exact map_eq_bind

/-- **`fd_dup`** works exactly if the address tells what it is. -/
lemma Sane.fdDup (t : Fin n) (oldfd : ℤ) : Exactly (fdDup s t oldfd) (Told s (.dup t oldfd))
      fun p => Sane none p.1 ∧ p.1.confused = s.confused := by
  obtain ⟨i, f, hi, hf, hno, hget⟩ | ⟨hno, hget⟩ := h.fdGet_cases t oldfd
  · obtain ⟨o, ho⟩ := ne_none_iff_exists'.1 (h.live _ f hf)
    have htold : Told s (.dup t oldfd) ↔ Tells s f := by
      refine ⟨fun htold => htold i f hi hf hno, fun htells i' f' hi' hf' _ => ?_⟩
      cases hi.symm.trans hi'
      cases hf.symm.trans hf'
      exact htells
    rw [htold, fdDup_eq hget]
    refine (h.refObj ho).bind id fun s1 htells htaken => .of_exists htells ?_
    obtain ⟨_, ho1, hkind⟩ := htaken.here
    have halloc := Sane.alloc (hkind ▸ htaken.sane) ho1 t
    rw [(h.tells_iff ho).1 htells, ← htaken.confused]
    cases o with
    | sock _ => exact ⟨_, rfl, halloc.2 hkind⟩
    | file _ c => exact halloc.1 hkind
  · rw [Fd.fdDup, hget]
    exact .some (fun i f hi hf hcap => absurd hcap (hno i f hi hf)) ⟨h, rfl⟩

/-- The new slot of `fd_dup2`, which is unused by now. -/
lemma Sane.dupInto (hk : s.fdTable k = none) (hw : s.mem w = some o) :
    Exactly (dupInto s k w) (Tells s w) fun s' => Sane none s' ∧ s'.confused = s.confused := by
  refine (h.refObj hw).map fun s1 htaken => ⟨?_, htaken.confused⟩
  obtain ⟨_, ho1, hkind⟩ := htaken.here
  refine htaken.sane.setSlot ?_ ho1 (by rw [hkind]) rfl rfl htaken.sane.closed
  rwa [htaken.table]

/-- **`fd_dup2`** works exactly if the addresses of both slots tell what they are. -/
lemma Sane.fdDup2 (t : Fin n) (oldfd newfd : ℤ) :
    Exactly (fdDup2 s t oldfd newfd) (Told s (.dup2 t oldfd newfd))
      fun p => Sane none p.1 ∧ p.1.confused = s.confused := by
  have hstay : ∀ fd : ℤ, (∀ i j f, slotOf oldfd = some i → slotOf newfd = some j → oldfd ≠ newfd →
      s.fdTable (t, i) = some f → ¬ NoCap s f) → Exactly (some (s, fd))
        (Told s (.dup2 t oldfd newfd)) fun p => Sane none p.1 ∧ p.1.confused = s.confused :=
    fun fd hno =>
      .some (fun i j f hi hj hne hf hcap => absurd hcap (hno i j f hi hj hne hf)) ⟨h, rfl⟩
  unfold Fd.fdDup2
  cases hi : slotOf oldfd with
  | none =>
    refine hstay (-1) fun i j f hi' => ?_
    cases hi.symm.trans hi'
  | some i =>
  cases hj : slotOf newfd with
  | none =>
    refine hstay (-1) fun i j f _ hj' => ?_
    cases hj.symm.trans hj'
  | some j =>
  simp only
  by_cases hfds : oldfd = newfd
  · rw [if_pos hfds]
    exact hstay newfd fun _ _ _ _ _ hne => absurd hfds hne
  rw [if_neg hfds]
  obtain ⟨_, f, hi', hf, hno, hget⟩ | ⟨hno, hget⟩ := h.fdGet_cases t oldfd
  · cases hi.symm.trans hi'
    have hij : ((t, i) : Key n) ≠ (t, j) := by
      intro heq
      cases (Prod.mk.inj heq).2
      exact hfds ((slotOf_eq_some hi).trans (slotOf_eq_some hj).symm)
    have htold : Told s (.dup2 t oldfd newfd) ↔
        Tells s f ∧ ∀ w, s.fdTable (t, j) = some w → Tells s w := by
      refine ⟨fun htold => htold i j f hi hj hfds hf hno, fun htells i1 j1 f1 hi1 hj1 _ hf1 _ => ?_⟩
      cases hi.symm.trans hi1
      cases hj.symm.trans hj1
      cases hf.symm.trans hf1
      exact htells
    rw [htold, hget]
    refine (h.closeNext t j).bind And.right fun s1 hnew hc => ?_
    -- closing the new slot leaves the object of the old one in place
    have hf1 : s1.fdTable (t, i) = some f := by
      rwa [hc.table, update_of_ne hij]
    obtain ⟨o, ho⟩ := ne_none_iff_exists'.1 (hc.sane.live (t, i) f hf1)
    have hfree : s1.fdTable (t, j) = none := by
      simp [hc.table]
    refine ((hc.sane.dupInto hfree ho).congr ?_).map fun s' hs' =>
      ⟨hs'.1, hs'.2.trans hc.confused⟩
    rw [(hc.tells hf1).2]
    exact and_iff_left hnew
  · rw [hget]
    exact hstay (-1) fun i j f hi _ _ hf => hno i f hi hf

/-- A new object, which no slot points to yet. -/
lemma Sane.create (hw : w ≠ 0) (hfree : s.mem w = none)
    (hcount : ∀ inode c, o = .file inode c → c = 1) :
    Sane (if o.isFile = true then some w else none) { s with mem := update s.mem w (some o) } := by
  have hslots : s.slots w = 0 := holders_eq_zero.2 fun k _ hk => h.live k w hk hfree
  refine h.setMem hw rfl (fun _ _ _ hk => hk) (fun _ => nofun) (fun inode c ho => ?_)
    (fun v hv => ?_) (fun v hv => h.closed v fun o' ho' => ?_)
  · cases ho
    have hone := hcount inode c rfl
    show c = (s.slots w + if some w = some w then 1 else 0 : ℕ) ∧ 0 < c
    rw [if_pos rfl, hslots]
    omega
  · have hne : ¬ (if o.isFile = true then some w else none) = some v := by
      split
      · exact fun heq => hv (some.inj heq).symm
      · nofun
    rw [if_neg hne, if_neg nofun]
    rfl
  · have hvw : v ≠ w := by
      rintro rfl
      cases hfree.symm.trans ho'
    exact hv o' ((update_of_ne hvw ..).trans ho')

/-- **What an operation does**: it works exactly if the addresses of the slots it uses tell what
they are. -/
lemma Sane.act (hfresh : op.Fresh s) :
    Exactly (act s op) (Told s op) fun s' => Sane none s' ∧ s'.confused = s.confused := by
  cases op with
  | openPath t file =>
    cases file with
    | none => exact .some trivial ⟨h, rfl⟩
    | some p =>
      obtain ⟨f, inode⟩ := p
      have hnew := h.create (o := .file inode 1) hfresh.1 hfresh.2 fun _ _ heq => by
        cases heq
        rfl
      have halloc := (Sane.alloc hnew (update_self ..) t).1 rfl
      exact (Exactly.of_exists trivial halloc).map fun _ => id
  | socket t _ state =>
    have hnew := h.create (o := .sock state) hfresh.1 hfresh.2 nofun
    exact .some trivial ((Sane.alloc hnew (update_self ..) t).2 rfl)
  | dup t oldfd => exact (h.fdDup t oldfd).map fun _ => id
  | dup2 t oldfd newfd => exact (h.fdDup2 t oldfd newfd).map fun _ => id
  | close t fd =>
    have hrun : Fd.act s (.close t fd) = (slotOf fd).elim (some s) (Fd.closeNext t s) := by
      cases hi : slotOf fd with
      | none => simp [Fd.act, fdClose, hi]
      | some i =>
        cases hk : s.fdTable (t, i) <;>
          simp [Fd.act, fdClose, Fd.closeNext, hi, hk, comp_def]
    rw [hrun]
    cases hi : slotOf fd with
    | none =>
      refine .some (fun i w hi' => ?_) ⟨h, rfl⟩
      cases hi.symm.trans hi'
    | some i =>
      refine ((h.closeNext t i).congr ⟨fun htold w => htold i w hi,
        fun htells i' w hi' hw => ?_⟩).mono fun s' hc => ⟨hc.sane, hc.confused⟩
      cases hi.symm.trans hi'
      exact htells w hw
  | closeAll t =>
    exact (h.closeAll t (finRange maxFds)).congr
      ⟨fun htold i _ => htold i, fun htells i => htells i (mem_finRange i)⟩

end

/-- The tables are sane along runs whose operations are told what they use. -/
lemma Sane.exec (h : s.confused = false ∧ Sane none s) (htold : Told s op) :
    (exec step s op).confused = false ∧ Sane none (Lib.exec step s op) := by
  rw [Lib.exec, step]
  split
  · rename_i hen
    obtain ⟨_, hrun, hsane, hconf⟩ := (h.2.act hen.2).1 htold
    rw [hrun]
    exact ⟨hconf.trans h.1, hsane⟩
  · exact h

/-- An operation that is not told what it uses confuses a file with a socket. -/
lemma Sane.told (h : s.confused = false ∧ Sane none s)
    (hclear : (Lib.exec step s op).confused = false) : Told s op := by
  by_contra htold
  have hfresh : op.Fresh s := by
    cases op with
    | openPath t _ => exact absurd trivial htold
    | socket t _ _ => exact absurd trivial htold
    | _ => trivial
  rw [Lib.exec, step, if_pos ⟨h.1, hfresh⟩, (h.2.act hfresh).2 htold] at hclear
  cases hclear

end

/-- **Reference counts of descriptors.** The counts are right in all states of a run exactly if
the addresses in the slots that are duplicated or closed tell files from sockets. -/
theorem counted_iff (n : ℕ) (ops : List (Op n)) :
    (∀ fs, fs <+: ops → Counted (run step (.init n) fs)) ↔ Along step Told (.init n) ops := by
  have hkeep : ∀ (s : Sys n) op, s.confused = false ∧ Sane none s → Told s op →
      (exec step s op).confused = false ∧ Sane none (exec step s op) := fun _ _ h => Sane.exec h
  have hneed : ∀ (s : Sys n) op, s.confused = false ∧ Sane none s → Counted (exec step s op) →
      Told s op := fun _ _ h hcounted => Sane.told h hcounted.clear
  exact forall_prefix_iff_along (fun _ h => h.2.counted h.1) hkeep hneed ⟨rfl, sane_init n⟩ ops

/-- A file at an address such as the allocator returns is opened, and its descriptor is closed:
`vfs_close` is not called. -/
theorem not_counted_close :
    (run step (.init 1) [.openPath 0 (some (0xFFFF800000001000, 0)), .close 0 0]).confused = true ∧
    (run step (.init 1) [.openPath 0 (some (0xFFFF800000001000, 0)), .close 0 0]).closed
      0xFFFF800000001000 = 0 ∧
    ¬ Counted (run step (.init 1) [.openPath 0 (some (0xFFFF800000001000, 0)), .close 0 0]) := by
  refine ⟨by decide, by decide, fun h => ?_⟩
  have hclear := h.clear
  revert hclear
  decide

end Aurora.Fd
