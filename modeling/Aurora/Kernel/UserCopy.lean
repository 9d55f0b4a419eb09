import Mathlib.Algebra.Group.Int.Defs
import Mathlib.Data.List.Basic
import Aurora.Kernel.Paging

/-!
# Copies between the kernel and user memory (`userspace.h`)

Before a copy the kernel checks the range of addresses and then, page by page, that there is a
mapping. It does not look at the permissions: what the walk of `user_page_present` accepts is
copied, and the kernel's own pages are mapped in the same range of addresses.

An outcome is missing when the kernel panics or faults.

## Main definitions

* `copyFromUser`, `copyToUser`, `strncpyFromUser`: the functions.
* `Accessible`, `Protects`: the permission a copy needs, and what protection means.
* `Absent`: the walk ends at an entry that is not present.
* `protects_iff`: when the functions protect a range.
-/

namespace Aurora.Paging

open List

/-! ## The functions -/

def userAddrMax : ℕ := 0x00007FFFFFFFFFFF

def userAddrRangeOk (addr size : ℕ) : Bool :=
  let end_ := (addr + size) % 2 ^ 64
  if end_ < addr then false
  else if end_ > userAddrMax then false
  else true

/-- The pages from that of `addr` on that begin below `addr + size`. -/
def pages (addr size : ℕ) : List ℕ :=
  (List.range ((addr % 4096 + size + 4095) / 4096)).map fun k => addr / 4096 * 4096 + k * 4096

/-- The loop of `user_pages_mapped`. -/
def allPresent (s : Machine) : List ℕ → Option Bool
  | [] => some true
  | page :: rest => do
    let present ← userPagePresent s page
    if present then allPresent s rest else some false

def userPagesMapped (s : Machine) (addr size : ℕ) : Option Bool := allPresent s (pages addr size)

/-- What a copy does: the value returned, the state, and the user addresses it accessed. -/
structure Outcome where
  ret : ℤ
  machine : Machine
  touched : List ℕ

/-- The result of a function that refuses its arguments. -/
def refuse (s : Machine) : Outcome := ⟨-1, s, []⟩

/-- `memcpy`, one byte after the other. -/
def memcpy (dst src : ℕ) : ℕ → Machine → Option Machine
  | 0, s => some s
  | n + 1, s => do
    let b ← load s src
    let s ← store s dst b
    memcpy (dst + 1) (src + 1) n s

/-- The common part of the two copies, for the user pointer `user`. -/
def copyUser (s : Machine) (dst src user size : ℕ) : Option Outcome :=
  if dst = 0 ∨ src = 0 then some (refuse s)
  else if !userAddrRangeOk user size then some (refuse s)
  else do
    let mapped ← userPagesMapped s user size
    if !mapped then some (refuse s)
    else
      let s ← memcpy dst src size s
      some ⟨0, s, (List.range size).map (user + ·)⟩

def copyFromUser (s : Machine) (dst src size : ℕ) : Option Outcome := copyUser s dst src src size

def copyToUser (s : Machine) (dst src size : ℕ) : Option Outcome := copyUser s dst src dst size

/-- A value returned as an `int`. -/
def toInt (n : ℕ) : ℤ := if n % 2 ^ 32 < 2 ^ 31 then n % 2 ^ 32 else (n % 2 ^ 32 : ℕ) - 2 ^ 32

/-- The loop of `strncpy_from_user`: at most `n` bytes from the index `i` on. -/
def strncpyLoop (dst src : ℕ) : ℕ → ℕ → Machine → Option (Machine × ℕ)
  | 0, i, s => some (s, i)
  | n + 1, i, s => do
    let b ← load s (src + i)
    let s ← store s (dst + i) b
    let b ← load s (src + i)
    if b = 0 then some (s, i) else strncpyLoop dst src n (i + 1) s

def strncpyFromUser (s : Machine) (dst src max : ℕ) : Option Outcome :=
  if dst = 0 ∨ src = 0 ∨ max = 0 then some (refuse s)
  else if !userAddrRangeOk src max then some (refuse s)
  else do
    let mapped ← userPagesMapped s src max
    if !mapped then some (refuse s)
    else
      let (s, i) ← strncpyLoop dst src (max - 1) 0 s
      let s ← store s (dst + i) 0
      some ⟨toInt (i + 1), s, (List.range (min (i + 1) (max - 1))).map (src + ·)⟩

/-! ## Protection -/

/-- Every byte of the range is mapped for user mode, and writable if it is to be written. -/
def Accessible (s : Machine) (write : Bool) (addr size : ℕ) : Prop :=
  ∀ a, addr ≤ a → a < addr + size →
    ∃ leaf, translate s.mem s.cr3 a = some leaf ∧ leaf.user = true ∧ (write = true → leaf.rw = true)

/-- **Protection**: user memory is accessed only if the range is accessible, and otherwise the
call fails and changes nothing. -/
structure Protects (s : Machine) (write : Bool) (addr size : ℕ) (outcome : Option Outcome) :
    Prop where
  only_if : ∀ o, outcome = some o → o.touched ≠ [] → Accessible s write addr size
  otherwise : ¬ Accessible s write addr size →
    ∃ o, outcome = some o ∧ o.ret = -1 ∧ o.machine = s

/-- Following the indices from the table `t`, an entry that is not present is found in
identity-mapped tables; a large page in the third table ends the walk. -/
def Absent (m : Memory) : List ℕ → ℕ → Prop
  | [], _ => False
  | i :: is, t => t < identityFrames ∧ ((m t i).present = false ∨
      (m t i).present = true ∧ ¬ (is.length = 1 ∧ (m t i).ps = true) ∧ Absent m is (m t i).frame)

/-- Following the indices from the table `t`, all entries are present in identity-mapped
tables. -/
def Complete (m : Memory) : List ℕ → ℕ → Prop
  | [], _ => True
  | i :: is, t => t < identityFrames ∧ (m t i).present = true ∧
      ((is.length = 1 ∧ (m t i).ps = true) ∨ Complete m is (m t i).frame)

/-- The indices of an address in the four tables. -/
def indices (va : ℕ) : List ℕ := [pml4Idx va, pdptIdx va, pdIdx va, ptIdx va]

/-- Some page is not mapped, and those before it are. -/
def FirstAbsent (s : Machine) : List ℕ → Prop
  | [] => False
  | page :: rest => Absent s.mem (indices page) s.cr3 ∨
      Complete s.mem (indices page) s.cr3 ∧ FirstAbsent s rest

/-- The range leaves the user half, or has a page without a mapping. -/
def Unmapped (s : Machine) (addr size : ℕ) : Prop :=
  addr + size > userAddrMax ∨ FirstAbsent s (pages addr size)

variable {s : Machine} {write : Bool} {addr size : ℕ} {outcome : Option Outcome}

lemma protects_refuse (s : Machine) (write : Bool) (addr size : ℕ) :
    Protects s write addr size (some (refuse s)) where
  only_if := by
    rintro o ⟨⟩ htouched
    exact absurd rfl htouched
  otherwise _ := ⟨refuse s, rfl, rfl, rfl⟩

/-- A call that is not refused protects the range only if it is accessible. -/
lemma protects_iff_accessible (h : ∀ o, outcome = some o → o.touched ≠ [] ∨ o.ret ≠ -1) :
    Protects s write addr size outcome ↔ Accessible s write addr size := by
  constructor
  · intro hp
    by_contra hno
    obtain ⟨o, ho, hret, -⟩ := hp.otherwise hno
    rcases h o ho with htouched | hne
    · exact hno (hp.only_if o ho htouched)
    · exact hne hret
  · intro hacc
    exact ⟨fun _ _ _ => hacc, fun hno => absurd hacc hno⟩

/-! ## The checks -/

/-- The walk of `user_page_present`, one table after the other. -/
def walkPresent (m : Memory) : List ℕ → ℕ → Option Bool
  | [], _ => some true
  | i :: is, t => do
    let t ← physToVirt t
    if !(m t i).present then some false
    else if is.length = 1 ∧ (m t i).ps then some true
    else walkPresent m is (m t i).frame

lemma userPagePresent_eq (s : Machine) {va : ℕ} (hva : va ≤ userAddrMax) :
    userPagePresent s va = walkPresent s.mem (indices va) s.cr3 := by
  have hle : ¬ va > 0x00007FFFFFFFFFFF := not_lt.2 hva
  -- the last table is not followed any further
  have hlast : ∀ pt i, some (s.mem pt i).present =
      if (s.mem pt i).present = false then some false else some true := by
    intro pt i
    cases (s.mem pt i).present <;> rfl
  rw [userPagePresent, if_neg hle]
  simp [walkPresent, indices, hlast]

lemma walkPresent_eq (m : Memory) (is : List ℕ) (t : ℕ) :
    (walkPresent m is t = some false ↔ Absent m is t) ∧
      (walkPresent m is t = some true ↔ Complete m is t) := by
  induction is generalizing t with
  | nil => simp [walkPresent, Absent, Complete]
  | cons i is ih =>
    rw [walkPresent, Absent, Complete, physToVirt]
    by_cases ht : t < identityFrames
    · rw [if_neg (not_le.2 ht)]
      by_cases hp : (m t i).present = true
      · by_cases hps : is.length = 1 ∧ (m t i).ps = true
        · simp [hp, hps, ht]
        · simp [hp, hps, ht, ih]
      · simp [hp, ht]
    · simp [ht, not_lt.1 ht]

/-- The loop over the pages ends with a refusal exactly at the first page without a mapping. -/
lemma allPresent_eq_false {ps : List ℕ} (hps : ∀ p ∈ ps, p ≤ userAddrMax) :
    allPresent s ps = some false ↔ FirstAbsent s ps := by
  induction ps with
  | nil => simp [allPresent, FirstAbsent]
  | cons p ps ih =>
    obtain ⟨hp, hps⟩ := forall_mem_cons.1 hps
    rw [allPresent, FirstAbsent, userPagePresent_eq s hp, ← (walkPresent_eq ..).1,
      ← (walkPresent_eq ..).2, ← ih hps]
    cases walkPresent s.mem (indices p) s.cr3 with
    | none => simp
    | some b => cases b <;> simp

lemma pages_le (h : addr + size ≤ userAddrMax) : ∀ p ∈ pages addr size, p ≤ userAddrMax := by
  intro p hp
  obtain ⟨k, hk, rfl⟩ := mem_map.1 hp
  rw [mem_range] at hk
  omega

lemma userAddrRangeOk_iff (haddr : addr < 2 ^ 64) (hsize : size < 2 ^ 64) :
    userAddrRangeOk addr size = true ↔ addr + size ≤ userAddrMax := by
  simp only [userAddrRangeOk, userAddrMax]
  split_ifs with h1 h2
  · simp
    omega
  · simp
    omega
  · simp
    omega

/-- The checks on a range refuse it exactly if it is not mapped. -/
lemma unmapped_iff (haddr : addr < 2 ^ 64) (hsize : size < 2 ^ 64) :
    Unmapped s addr size ↔ userAddrRangeOk addr size = false ∨
      (userAddrRangeOk addr size = true ∧ userPagesMapped s addr size = some false) := by
  by_cases hok : addr + size ≤ userAddrMax
  · have htrue := (userAddrRangeOk_iff haddr hsize).2 hok
    rw [Unmapped, userPagesMapped, allPresent_eq_false (pages_le hok), htrue]
    simp [not_lt.2 hok]
  · have hfalse : userAddrRangeOk addr size = false := by
      rwa [← Bool.not_eq_true, userAddrRangeOk_iff haddr hsize]
    simp [Unmapped, hfalse, not_le.1 hok]

/-! ## When the functions protect a range -/

/-- A function that refuses a null pointer, and a range that the checks turn down. -/
lemma checked_protects_iff {null : Prop} [Decidable null] (haddr : addr < 2 ^ 64)
    (hsize : size < 2 ^ 64)
    (hrun : ¬ null → ∀ o, outcome = some o → o.touched ≠ [] ∨ o.ret ≠ -1) :
    Protects s write addr size (if null then some (refuse s)
      else if !userAddrRangeOk addr size then some (refuse s)
      else do
        let mapped ← userPagesMapped s addr size
        if !mapped then some (refuse s) else outcome) ↔
      (null ∨ Unmapped s addr size) ∨ Accessible s write addr size := by
  rw [unmapped_iff haddr hsize]
  by_cases hnull : null
  · simp [hnull, protects_refuse]
  cases hok : userAddrRangeOk addr size with
  | false => simp [protects_refuse]
  | true =>
    cases hmapped : userPagesMapped s addr size with
    | none =>
      simp only [hnull, Bool.not_true, Bool.false_eq_true, if_false, Option.bind_eq_bind,
        Option.bind_none, reduceCtorEq, and_false, or_self, false_or]
      exact protects_iff_accessible (by simp)
    | some mapped =>
      cases mapped with
      | false => simp [protects_refuse]
      | true =>
        simp only [hnull, Bool.not_true, Bool.false_eq_true, if_false, Option.bind_eq_bind,
          Option.bind_some, Option.some.injEq, Bool.true_eq_false, and_false, or_self, false_or]
        exact protects_iff_accessible (hrun hnull)

lemma copyUser_protects_iff {dst src user : ℕ} (huser : user < 2 ^ 64) (hsize : size < 2 ^ 64) :
    Protects s write user size (copyUser s dst src user size) ↔
      (dst = 0 ∨ src = 0 ∨ Unmapped s user size) ∨ Accessible s write user size := by
  rw [copyUser, checked_protects_iff huser hsize, or_assoc (a := dst = 0)]
  intro _ o ho
  obtain ⟨_, -, ⟨⟩⟩ := Option.bind_eq_some_iff.1 ho
  exact .inr (show (0 : ℤ) ≠ -1 by decide)

lemma strncpyFromUser_protects_iff {dst src max : ℕ} (hsrc : src < 2 ^ 64) (hmax : max < 2 ^ 64) :
    Protects s false src max (strncpyFromUser s dst src max) ↔
      (dst = 0 ∨ src = 0 ∨ max = 0 ∨ Unmapped s src max) ∨ Accessible s false src max := by
  rw [strncpyFromUser, checked_protects_iff hsrc hmax, or_assoc (a := dst = 0),
    or_assoc (a := src = 0)]
  intro _ o ho
  obtain ⟨⟨_, i⟩, hloop, ho⟩ := Option.bind_eq_some_iff.1 ho
  obtain ⟨_, -, ⟨⟩⟩ := Option.bind_eq_some_iff.1 ho
  by_cases hone : max = 1
  · -- nothing is read, and the call returns 1
    subst hone
    obtain ⟨-, rfl⟩ := Prod.mk.inj (Option.some.inj hloop)
    exact .inr (show toInt 1 ≠ -1 by decide)
  · refine .inl fun hnil => ?_
    have := congrArg List.length hnil
    simp only [length_map, length_range, length_nil] at this
    omega

/-- **User copies** protect a range exactly if a pointer is null, or the range is not mapped
within the user half, or all of it may be accessed from user mode. -/
theorem protects_iff (s : Machine) {dst src size : ℕ} (hdst : dst < 2 ^ 64) (hsrc : src < 2 ^ 64)
    (hsize : size < 2 ^ 64) :
    (Protects s false src size (copyFromUser s dst src size) ↔
      (dst = 0 ∨ src = 0 ∨ Unmapped s src size) ∨ Accessible s false src size) ∧
    (Protects s false src size (strncpyFromUser s dst src size) ↔
      (dst = 0 ∨ src = 0 ∨ size = 0 ∨ Unmapped s src size) ∨ Accessible s false src size) ∧
    (Protects s true dst size (copyToUser s dst src size) ↔
      (dst = 0 ∨ src = 0 ∨ Unmapped s dst size) ∨ Accessible s true dst size) :=
  ⟨copyUser_protects_iff hsrc hsize, strncpyFromUser_protects_iff hsrc hsize,
    copyUser_protects_iff hdst hsize⟩

/-- The tables of `entry.S`: large pages of the kernel map the first GiB to itself. The byte
at `0x300000` is 7. -/
def bootTables : Machine where
  mem f i :=
    if f = 1 then (if i = 0 then { present := true, rw := true, frame := 2 } else {})
    else if f = 2 then (if i = 0 then { present := true, rw := true, frame := 3 } else {})
    else if f = 3 then { present := true, rw := true, ps := true, frame := i * 512 }
    else if f = 0x300 then Entry.ofNat 7
    else {}
  cr3 := 1
  wp := false

/-- A large page for user mode at 1 GiB is added. -/
def userTables : Machine where
  mem f i :=
    if f = 1 ∧ i = 0 then { present := true, rw := true, user := true, frame := 2 }
    else if f = 2 ∧ i = 1 then { present := true, rw := true, user := true, frame := 4 }
    else if f = 4 ∧ i = 0 then
      { present := true, rw := true, user := true, ps := true, frame := 512 }
    else bootTables.mem f i
  cr3 := 1
  wp := false

/-- Copies from and to the page for user mode. -/
theorem protects_iff_userTables :
    Protects userTables false 0x40000000 8 (copyFromUser userTables 0x1000 0x40000000 8) ∧
    Protects userTables false 0x40000000 8 (strncpyFromUser userTables 0x1000 0x40000000 8) ∧
    Protects userTables true 0x40000000 8 (copyToUser userTables 0x40000000 0x1000 8) := by
  have hacc : ∀ write, Accessible userTables write 0x40000000 8 := by
    intro write a ha hlt
    obtain ⟨k, rfl⟩ := Nat.exists_eq_add_of_le ha
    have hk : k < 8 := by omega
    have hall : ∀ k < 8, translate userTables.mem userTables.cr3 (0x40000000 + k) =
        some ⟨0x200000 + k, true, true, false⟩ := by decide
    exact ⟨_, hall k hk, rfl, fun _ => rfl⟩
  refine ⟨(protects_iff userTables ?_ ?_ ?_).1.2 (.inr (hacc _)),
    (protects_iff userTables ?_ ?_ ?_).2.1.2 (.inr (hacc _)),
    (protects_iff userTables ?_ ?_ ?_).2.2.2 (.inr (hacc _))⟩ <;> decide

/-- A copy to the kernel's own memory at `0x200000` succeeds. -/
theorem not_protects_bootTables :
    (∃ o, copyToUser bootTables 0x200000 0x300000 1 = some o ∧ o.ret = 0 ∧
      getByte bootTables.mem 0x200000 = 0 ∧ getByte o.machine.mem 0x200000 = 7) ∧
    ¬ Protects bootTables true 0x200000 1 (copyToUser bootTables 0x200000 0x300000 1) := by
  have hcopy : ∃ o, copyToUser bootTables 0x200000 0x300000 1 = some o ∧ o.ret = 0 ∧
      getByte bootTables.mem 0x200000 = 0 ∧ getByte o.machine.mem 0x200000 = 7 :=
    ⟨_, rfl, rfl, by decide, by decide⟩
  refine ⟨hcopy, fun hp => ?_⟩
  have hno : ¬ Accessible bootTables true 0x200000 1 := by
    intro hacc
    obtain ⟨_, htranslate, huser, -⟩ := hacc 0x200000 le_rfl (by decide)
    have hleaf : translate bootTables.mem bootTables.cr3 0x200000 =
        some ⟨0x200000, true, false, false⟩ := by decide
    cases htranslate.symm.trans hleaf
    cases huser
  obtain ⟨o, ho, hret, -⟩ := hcopy
  obtain ⟨_, ho', hret', -⟩ := hp.otherwise hno
  cases ho.symm.trans ho'
  simp [hret] at hret'

end Aurora.Paging
