import Aurora.Lib.Run
import Aurora.User.HeapCalls

/-!
# The heap over a whole run

A program calls `malloc`, `calloc`, `realloc` and `free` any number of times, and writes to the
bytes it has asked for. As long as no request wraps around, the blocks it holds are disjoint
parts of the heap that are large enough, and their contents stay what the program has written.

## Main definitions

* `Inv`: the heap has a list of blocks, and each pointer of the program is to one in use.
* `Safe`, `Sound`: the bytes that the program asked for are its own; so a call leaves them, and
  what it gives out was not held before.
* `Served`, `Fits`, `heap_safe_iff`: the requests that keep it so.
* `Tiled`, `Preserved`, `heap_tiled_preserved`: the list of blocks, and the contents.
-/

namespace Aurora.User

open Lib Option List Function

variable {h : Heap} {mem mem' : ℕ → UInt8} {live live' : ℕ → Option ℕ} {s : Sys} {op : Op}
  {env : Env} {bs cs : List Block} {n r x p dst src : ℕ} {c : UInt8} {b : Block}

/-! ### Filling and copying -/

lemma memset_of_not_mem (hend : p + n ≤ 2 ^ 64) (hx : x < p ∨ p + n ≤ x) :
    memset mem p c n x = mem x := by
  induction n with
  | zero => rfl
  | succ n ih =>
    have hmod : (p + n) % 2 ^ 64 = p + n := Nat.mod_eq_of_lt (by omega)
    rw [memset, hmod, update_of_ne (by omega)]
    exact ih (by omega) (by omega)

lemma memcpy_of_not_mem (hend : dst + n ≤ 2 ^ 64) (hx : x < dst ∨ dst + n ≤ x) :
    memcpy mem dst src n x = mem x := by
  induction n with
  | zero => rfl
  | succ n ih =>
    have hmod : (dst + n) % 2 ^ 64 = dst + n := Nat.mod_eq_of_lt (by omega)
    rw [memcpy, hmod, update_of_ne (by omega)]
    exact ih (by omega) (by omega)

/-- **A copy between separate blocks.** -/
lemma memcpy_apply (hdst : dst + n ≤ 2 ^ 64) (hsrc : src + n ≤ 2 ^ 64)
    (hdisj : src + n ≤ dst ∨ dst + n ≤ src) {i : ℕ} (hi : i < n) :
    memcpy mem dst src n (dst + i) = mem (src + i) := by
  induction n with
  | zero => omega
  | succ n ih =>
    have hmodDst : (dst + n) % 2 ^ 64 = dst + n := Nat.mod_eq_of_lt (by omega)
    have hmodSrc : (src + n) % 2 ^ 64 = src + n := Nat.mod_eq_of_lt (by omega)
    rw [memcpy, hmodDst, hmodSrc]
    obtain hlt | rfl := Nat.lt_succ_iff_lt_or_eq.1 hi
    · rw [update_of_ne (by omega)]
      exact ih (by omega) (by omega) (by omega) hlt
    · rw [update_self]
      exact memcpy_of_not_mem (by omega) (by omega)

/-! ### The pointers of the program -/

/-- Each pointer is to a block in use that has the bytes asked for. -/
def Holds (bs : List Block) (live : ℕ → Option ℕ) : Prop :=
  ∀ p n, live p = some n → ∃ x b, p = x + headerSize ∧ (x, b) ∈ placed Block.size heapStart bs ∧
    b.free = false ∧ n + headerSize ≤ b.size

lemma Holds.kept {z : Option ℕ} (h : Holds bs live) (hkept : Kept z bs cs mem mem')
    (hlive : ∀ p n, live' p = some n → live p = some n ∧ ∀ x, z = some x → p ≠ x + headerSize) :
    Holds cs live' := by
  intro p n hp
  obtain ⟨hp, hne⟩ := hlive p n hp
  obtain ⟨x, b, rfl, hx, hused, hsize⟩ := h p n hp
  exact ⟨x, b, rfl, (hkept x b hx hused fun hz => hne x hz rfl).1, hused, hsize⟩

lemma Holds.update (h : Holds bs live) (hr : ∃ x b, r = x + headerSize ∧
    (x, b) ∈ placed Block.size heapStart bs ∧ b.free = false ∧ n + headerSize ≤ b.size) :
    Holds bs (Function.update live r (some n)) := by
  intro p k hp
  by_cases hpr : p = r
  · subst hpr
    rw [update_self, some.injEq] at hp
    exact hp ▸ hr
  · rw [update_of_ne hpr] at hp
    exact h p k hp

lemma Fresh.block (h : Fresh bs cs n r) : ∃ x b, r = x + headerSize ∧
    (x, b) ∈ placed Block.size heapStart cs ∧ b.free = false ∧ n + headerSize ≤ b.size := by
  obtain ⟨x, b, hr, hx, hused, hsize, -⟩ := h
  exact ⟨x, b, hr, hx, hused, hsize⟩

lemma Fresh.not_held (h : Fresh bs cs n r) (hholds : Holds bs live) : live r = none := by
  obtain ⟨x, b, rfl, -, -, -, hfree⟩ := h
  cases hlive : live (x + headerSize) with
  | none => rfl
  | some k =>
    obtain ⟨y, c, hxy, hy, hused, -⟩ := hholds _ k hlive
    obtain rfl : x = y := Nat.add_right_cancel hxy
    exact absurd ((hfree c hy).symm.trans hused) nofun

/-- The program holds a block that it has just got. -/
lemma Holds.hold (h : Holds bs live) (hkept : Kept none bs cs mem mem')
    (hfresh : r ≠ 0 → Fresh bs cs n r) : Holds cs (hold live r n) := by
  have hcs : Holds cs live := h.kept hkept fun p n hp => ⟨hp, nofun⟩
  unfold User.hold
  split
  · exact hcs
  · rename_i hr
    exact hcs.update (hfresh hr).block

/-- **The invariant**: the heap has a list of blocks, of which no two neighbours are free, and the
pointers of the program are to blocks in use. -/
def Inv (s : Sys) : Prop := ∃ bs, Rep s.heap bs ∧ Apart bs ∧ Holds bs s.live

/-- **Safety**: what the program asked for is in the heap, and no two blocks overlap. -/
structure Safe (s : Sys) : Prop where
  inside : ∀ p n, s.live p = some n → heapStart ≤ p ∧ p + n ≤ s.heap.brk
  apart : ∀ p q n m, s.live p = some n → s.live q = some m → p ≠ q → p + n ≤ q ∨ q + m ≤ p

lemma Inv.safe (h : Inv s) : Safe s := by
  obtain ⟨_, hrep, -, hholds⟩ := h
  refine ⟨fun p n hp => ?_, fun p q n m hp hq hpq => ?_⟩
  · obtain ⟨x, b, rfl, hx, -, hsize⟩ := hholds p n hp
    have := hrep.bounds hx
    omega
  · obtain ⟨x, b, rfl, hx, -, hb⟩ := hholds p n hp
    obtain ⟨y, c, rfl, hy, -, hc⟩ := hholds q m hq
    obtain ⟨rfl, -⟩ | hdisj := placed_disjoint hx hy
    · exact absurd rfl hpq
    · omega

lemma inv_boot (mem : ℕ → UInt8) : Inv (boot mem) :=
  ⟨[], ⟨trivial, rfl, rfl, (by decide : heapStart ≤ heapEnd), nofun⟩, isChain_nil, nofun⟩

/-- The bytes behind the header of a block. -/
lemma Rep.payloadSize (h' : Rep h bs) (hx : (x, b) ∈ placed Block.size heapStart bs) :
    payloadSize h.mem (x + headerSize) = b.size - headerSize := by
  have hbounds := h'.bounds hx
  have hlimit := h'.limit
  have hfits := h'.fits hx
  have hend : heapEnd < 2 ^ 63 := by decide
  obtain ⟨_, _, hb⟩ := h'.chain.isBlock hx
  rw [User.payloadSize, headerOf_add (by omega), hb.size]
  omega

/-- The contents of the block at `p` are the same. -/
def Unchanged (s s' : Sys) (p : ℕ) : Prop :=
  ∀ i < payloadSize s.heap.mem p, s'.heap.mem (p + i) = s.heap.mem (p + i)

lemma Kept.unchanged {z : Option ℕ} (s' : Sys) (hrep : Rep s.heap bs) (hholds : Holds bs s.live)
    (hkept : Kept z bs cs s.heap.mem s'.heap.mem) (hp : s.live p = some n)
    (hz : ∀ x, z = some x → p ≠ x + headerSize) : Unchanged s s' p := by
  obtain ⟨x, b, rfl, hx, hused, -⟩ := hholds p n hp
  intro i hi
  rw [hrep.payloadSize hx] at hi
  exact (hkept x b hx hused fun heq => hz x heq rfl).2 _ (by omega) (by omega)

/-! ### Requests that wrap around -/

/-- The addresses of the blocks, by following `next`. -/
def addresses (mem : ℕ → UInt8) : ℕ → ℕ → List ℕ
  | 0, _ => []
  | fuel + 1, block =>
    if block = 0 then [] else block :: addresses mem fuel (get mem block .next)

lemma addresses_eq {a prev fuel : ℕ} (h : Chain mem prev a bs 0) (ha : 0 < a)
    (hfuel : bs.length < fuel) :
    addresses mem fuel (link bs a 0) = (placed Block.size a bs).map Prod.fst := by
  induction bs generalizing prev a fuel with
  | nil =>
    obtain ⟨k, rfl⟩ := Nat.exists_eq_add_of_lt hfuel
    rfl
  | cons b bs ih =>
    obtain ⟨k, rfl⟩ : ∃ k, fuel = k + 1 := ⟨fuel - 1, by omega⟩
    rw [link_cons, addresses, if_neg (by omega), h.1.next, placed_cons, map_cons,
      ih h.2 (by omega) (by simpa using hfuel)]

/-- There is memory for the request, as `malloc` computes its size: a free block, or what `sbrk`
gives. -/
def Served (h : Heap) (n : ℕ) (env : Env) : Prop :=
  (heapInit h env.init).head ≠ 0 ∧ n ≠ 0 ∧
    ((∃ x ∈ addresses (heapInit h env.init).mem maxBlocks (heapInit h env.init).head,
        get (heapInit h env.init).mem x .free ≠ 0 ∧
        neededFor n ≤ get (heapInit h env.init).mem x .size) ∨
      (sbrk (heapInit h env.init) (expandFor (neededFor n)) env.grow).isSome)

lemma Rep.exists_fit_iff {needed : ℕ} (h' : Rep h bs) :
    (∃ x ∈ addresses h.mem maxBlocks h.head, get h.mem x .free ≠ 0 ∧
      needed ≤ get h.mem x .size) ↔ (firstFit needed heapStart bs).isSome := by
  rw [h'.head, addresses_eq h'.chain (by decide) h'.length_lt]
  have hblock : ∀ x b, (x, b) ∈ placed Block.size heapStart bs →
      ((get h.mem x .free ≠ 0 ∧ needed ≤ get h.mem x .size) ↔ b.free = true ∧ needed ≤ b.size) := by
    intro x b hx
    obtain ⟨_, _, hb⟩ := h'.chain.isBlock hx
    rw [hb.free, hb.size]
    cases b.free <;> simp
  constructor
  · rintro ⟨x, hx, hfit⟩
    obtain ⟨⟨_, b⟩, hb, rfl⟩ := mem_map.1 hx
    rw [isSome_iff_ne_none]
    intro hnone
    obtain ⟨_, _, rfl, -⟩ := mem_placed_iff.1 hb
    exact firstFit_eq_none hnone b (by simp) ((hblock _ b hb).1 hfit)
  · intro hsome
    obtain ⟨x, hx⟩ := isSome_iff_exists.1 hsome
    obtain ⟨b, hb, hfit⟩ := firstFit_eq_some hx
    exact ⟨x, mem_map.2 ⟨_, hb, rfl⟩, (hblock x b hb).2 hfit⟩

lemma malloc_refused (h' : Rep h bs) (hapart : Apart bs) (hno : ¬ Served h n env) :
    malloc h n env = some (heapInit h env.init, 0) := by
  obtain ⟨bs1, h1, -, -⟩ := h'.heapInit hapart env.init
  rw [malloc_eq_of_rep h1]
  split
  · rfl
  · rename_i hhead
    rw [not_or] at hhead
    rw [Served, h1.exists_fit_iff] at hno
    cases hfit : firstFit (neededFor n) heapStart bs1 with
    | some _ => exact absurd ⟨hhead.1, hhead.2, .inl (by rw [hfit]; rfl)⟩ hno
    | none =>
      cases hsbrk : sbrk (heapInit h env.init) (expandFor (neededFor n)) env.grow with
      | some g => exact absurd ⟨hhead.1, hhead.2, .inr (by rw [hsbrk]; rfl)⟩ hno
      | none => rfl

lemma malloc_served (h' : Rep h bs) (hapart : Apart bs) (hserved : Served h n env) :
    ∃ h1 r, malloc h n env = some (h1, r) ∧ r ≠ 0 ∧ h1.brk ≤ heapEnd := by
  obtain ⟨bs1, h1, -, -⟩ := h'.heapInit hapart env.init
  obtain ⟨hhead, hn, hmemory⟩ := hserved
  rw [h1.exists_fit_iff] at hmemory
  rw [malloc_eq_of_rep h1, if_neg (not_or.2 ⟨hhead, hn⟩)]
  generalize heapInit h env.init = g at h1 hhead hmemory ⊢
  have hlimit := h1.limit
  have hend : heapEnd < 2 ^ 63 := by decide
  have hheader : headerSize = 32 := rfl
  cases hfit : firstFit (neededFor n) heapStart bs1 with
  | some _ =>
    obtain ⟨b, hb, -, -⟩ := firstFit_eq_some hfit
    have hbounds := h1.bounds hb
    refine ⟨_, _, rfl, ?_, hlimit⟩
    rw [Nat.mod_eq_of_lt (by omega)]
    omega
  | none =>
    obtain ⟨⟨_, _⟩, hsbrk⟩ := isSome_iff_exists.1
      (hmemory.resolve_left (by rw [hfit]; exact nofun))
    rw [hsbrk]
    rw [sbrk] at hsbrk
    split_ifs at hsbrk with hok
    cases hsbrk
    rw [not_or, not_lt] at hok
    obtain ⟨b, cs, rfl⟩ : ∃ b cs, bs1 = b :: cs := by
      cases bs1 with
      | nil => exact absurd h1.head hhead
      | cons b cs => exact ⟨b, cs, rfl⟩
    have hbrk := h1.brk
    have htail := findTail_eq (((h1.chain.set_of_far (.inr hbrk.ge) (f := .size)
      (v := expandFor (neededFor n))).set_of_far (.inr hbrk.ge) (f := .free)
      (v := 0)).set_of_far (.inr hbrk.ge) (f := .next) (v := 0)) (by decide)
      (Nat.lt_of_succ_lt h1.length_lt)
    have hstart : g.head = heapStart := h1.head
    simp only [User.appendBlock, hstart, htail]
    refine ⟨_, _, rfl, ?_, hok.2⟩
    rw [Nat.mod_eq_of_lt (by omega)]
    omega

/-- **`malloc`**, when a request that wraps around is refused. -/
lemma Rep.malloc_of_fits (h' : Rep h bs) (hapart : Apart bs) (hfits : Wraps n → ¬ Served h n env) :
    ∃ h1 r bs', User.malloc h n env = some (h1, r) ∧ Rep h1 bs' ∧ Apart bs' ∧
      Kept none bs bs' h.mem h1.mem ∧ (r ≠ 0 → Fresh bs bs' n r) := by
  by_cases hwraps : Wraps n
  · obtain ⟨bs1, h1, hapart1, hkept1⟩ := h'.heapInit hapart env.init
    exact ⟨_, _, bs1, malloc_refused h' hapart (hfits hwraps), h1, hapart1, hkept1,
      fun hr => absurd rfl hr⟩
  · exact h'.malloc hapart hwraps env

/-- A new block is filled. -/
lemma Rep.fill (h' : Rep h cs) (hkept : Kept none bs cs mem h.mem) (hfresh : Fresh bs cs n r)
    (hmem : ∀ y, y < r ∨ r + n ≤ y → mem' y = h.mem y) :
    Rep { h with mem := mem' } cs ∧ Kept none bs cs mem mem' := by
  obtain ⟨x, b, rfl, hx, -, hsize, hfree⟩ := hfresh
  refine ⟨h'.write hx fun y hy => hmem y (by omega), fun z c hz hcused hne => ?_⟩
  obtain ⟨hzc, hsame⟩ := hkept z c hz hcused hne
  refine ⟨hzc, fun y hlow hhigh => (hmem y ?_).trans (hsame y hlow hhigh)⟩
  obtain ⟨rfl, -⟩ | hdisj := placed_disjoint hzc hx
  · exact absurd ((hfree c hz).symm.trans hcused) nofun
  · omega

lemma Rep.end_lt (h' : Rep h bs) (hx : (x, b) ∈ placed Block.size heapStart bs) :
    x + b.size ≤ 2 ^ 64 :=
  (h'.bounds hx).2.trans (h'.limit.trans (by decide))

/-- **`calloc`** refuses a product that does not fit, and is `malloc` otherwise. -/
lemma Rep.calloc (h' : Rep h bs) (hapart : Apart bs) {nmemb size : ℕ}
    (hfits : nmemb * size < 2 ^ 64 → Wraps (nmemb * size) → ¬ Served h (nmemb * size) env) :
    ∃ h1 r bs', User.calloc h nmemb size env = some (h1, r) ∧ Rep h1 bs' ∧ Apart bs' ∧
      Kept none bs bs' h.mem h1.mem ∧ (r ≠ 0 → Fresh bs bs' (nmemb * size) r) := by
  rw [User.calloc]
  split
  · exact ⟨_, _, bs, rfl, h', hapart, .refl _ _ _, fun hr => absurd rfl hr⟩
  · rename_i hcheck
    have hlt : nmemb * size < 2 ^ 64 := by
      obtain rfl | hpos := Nat.eq_zero_or_pos nmemb
      · simp
      · have hle : size ≤ (2 ^ 64 - 1) / nmemb := not_lt.1 fun hlt => hcheck ⟨hpos.ne', hlt⟩
        rw [Nat.le_div_iff_mul_le hpos, Nat.mul_comm] at hle
        omega
    rw [Nat.mod_eq_of_lt hlt]
    obtain ⟨h1, r, bs', hrun, h1', hapart1, hkept1, hfresh⟩ :=
      h'.malloc_of_fits hapart (hfits hlt)
    simp only [hrun]
    split
    · exact ⟨_, _, bs', rfl, h1', hapart1, hkept1, hfresh⟩
    · rename_i hr
      obtain ⟨x, b, rfl, hx, -, hsize⟩ := (hfresh hr).block
      have hend := h1'.end_lt hx
      obtain ⟨hrep, hkept⟩ := h1'.fill hkept1 (hfresh hr)
        fun y hy => memset_of_not_mem (c := 0) (by omega) hy
      exact ⟨_, _, bs', rfl, hrep, hapart1, hkept, hfresh⟩

lemma Kept.weaken (h : Kept none bs cs mem mem') (z : Option ℕ) : Kept z bs cs mem mem' :=
  fun x b hx hused _ => h x b hx hused nofun

/-- What `realloc` of a block at `x` answers. -/
inductive Reallocated (bs bs' : List Block) (mem mem' : ℕ → UInt8) (x : ℕ) (b : Block) (n : ℕ) :
    ℕ → Prop
  | freed (hn : n = 0) : Reallocated bs bs' mem mem' x b n 0
  | failed (hn : n ≠ 0) (hkept : Kept none bs bs' mem mem') : Reallocated bs bs' mem mem' x b n 0
  | inPlace (hsize : n + headerSize ≤ b.size) (hkept : Kept none bs bs' mem mem') :
    Reallocated bs bs' mem mem' x b n (x + headerSize)
  | moved {r : ℕ} (hfresh : Fresh bs bs' n r)
    (hsame : ∀ i < b.size - headerSize, mem' (r + i) = mem (x + headerSize + i)) :
    Reallocated bs bs' mem mem' x b n r

/-- **`realloc`** of a block in use. -/
lemma Rep.realloc (h' : Rep h bs) (hapart : Apart bs)
    (hx : (x, b) ∈ placed Block.size heapStart bs) (hused : b.free = false)
    (hfits : n ≠ 0 → b.size - headerSize < n → Wraps n → ¬ Served h n env) :
    ∃ h1 r bs', User.realloc h (x + headerSize) n env = some (h1, r) ∧ Rep h1 bs' ∧ Apart bs' ∧
      Kept (some x) bs bs' h.mem h1.mem ∧ Reallocated bs bs' h.mem h1.mem x b n r := by
  have hne : ¬ x + headerSize = 0 := by simp only [headerSize]; omega
  rw [User.realloc, if_neg hne]
  split
  · rename_i hn
    obtain ⟨bs', h1, hapart1, hkept1⟩ := h'.free hapart hx
    exact ⟨_, _, bs', rfl, h1, hapart1, hkept1, .freed hn⟩
  · rename_i hn
    simp only [h'.payloadSize hx]
    split
    · rename_i hle
      exact ⟨_, _, bs, rfl, h', hapart, .refl _ _ _, .inPlace (by omega) (.refl _ _ _)⟩
    · rename_i hgt
      obtain ⟨h1, r, bs1, hrun, h1', hapart1, hkept1, hfresh⟩ :=
        h'.malloc_of_fits hapart (hfits hn (by omega))
      simp only [hrun]
      split
      · exact ⟨_, _, bs1, rfl, h1', hapart1, hkept1.weaken _, .failed hn hkept1⟩
      · rename_i hr
        have hfresh := hfresh hr
        have hx1 := (hkept1 x b hx hused (by simp)).1
        obtain ⟨y, c, hry, hy, hcused, hsize, hfree⟩ := hfresh
        have hyx : y ≠ x := by
          rintro rfl
          exact absurd ((hfree b hx).symm.trans hused) (by simp)
        have hdisj := (placed_disjoint hx1 hy).resolve_left fun heq => hyx heq.1.symm
        have hendx := h1'.end_lt hx1
        have hendy := h1'.end_lt hy
        -- the copy writes to the new block only
        obtain ⟨mem2, hmem2⟩ : ∃ mem2, mem2 =
          memcpy h1.mem r (x + headerSize) (b.size - headerSize) := ⟨_, rfl⟩
        have hcopy : ∀ z, z < r ∨ r + n ≤ z → mem2 z = h1.mem z := by
          intro z _
          rw [hmem2]
          exact memcpy_of_not_mem (by omega) (by omega)
        obtain ⟨hrep2, hkept2⟩ :=
          h1'.fill hkept1 ⟨y, c, hry, hy, hcused, hsize, hfree⟩ hcopy
        obtain ⟨bs', hrep3, hapart3, hkept3⟩ := hrep2.free hapart1 hx1
        rw [← hmem2]
        refine ⟨_, r, bs', rfl, hrep3, hapart3, (hkept2.weaken (some x)).trans hkept3, .moved ?_ ?_⟩
        · have hy3 := (hkept3 y c hy hcused fun heq => hyx (some.inj heq).symm).1
          exact ⟨y, c, hry, hy3, hcused, hsize, hfree⟩
        · intro i hi
          have hsame3 := (hkept3 y c hy hcused fun heq => hyx (some.inj heq).symm).2
            (r + i) (by omega) (by omega)
          have hsame1 := (hkept1 x b hx hused (by simp)).2 (x + headerSize + i) (by omega)
            (by omega)
          refine hsame3.trans (Eq.trans ?_ hsame1)
          rw [hmem2]
          exact memcpy_apply (by omega) (by omega) (by omega) hi

/-! ### Whole runs -/

/-- The size that `malloc` is asked for, if the call comes to that. -/
def request (s : Sys) : Op → Option (ℕ × Env)
  | .malloc n env => some (n.toNat, env)
  | .calloc nmemb size env =>
    if nmemb.toNat * size.toNat < 2 ^ 64 then some (nmemb.toNat * size.toNat, env) else none
  | .realloc p n env =>
    if p = 0 ∨ n.toNat ≠ 0 ∧ payloadSize s.heap.mem p < n.toNat then some (n.toNat, env) else none
  | .free _ | .store _ _ => none

/-- No memory is found for a request that wraps around. -/
def Fits (s : Sys) (op : Op) : Prop :=
  ∀ n env, request s op = some (n, env) → Wraps n → ¬ Served s.heap n env

/-- The pointer that a call is given. -/
def Op.argument : Op → Option ℕ
  | .realloc p _ _ | .free p => some p
  | _ => none

/-- **Contents**: a call leaves the contents of the blocks other than its argument alone, and
`realloc` those of its argument, as far as the new block reaches. -/
structure Preserved (s : Sys) (op : Op) (s' : Sys) : Prop where
  others : ∀ p n, s.live p = some n → op.argument ≠ some p → Unchanged s s' p
  moved : ∀ p n env, op = .realloc p n env → p ≠ 0 → s'.result ≠ 0 →
    ∀ i < min (payloadSize s.heap.mem p) n.toNat,
      s'.heap.mem (s'.result + i) = s.heap.mem (p + i)

/-- The operation is a call, not a write of the program. -/
def Op.IsCall : Op → Prop
  | .store _ _ => False
  | _ => True

/-- What a call gives out was not held before, unless it is the block that it was given. -/
def GivesNew (s : Sys) (op : Op) (s' : Sys) : Prop :=
  s'.result ≠ 0 → s.live s'.result = none ∨ op.argument = some s'.result

/-- **Safety of a step**: it returns, gives out no block that is held, and leaves all blocks
safe. -/
def Sound (s : Sys) (op : Op) : Prop :=
  ∃ s', step s op = some s' ∧ Safe s' ∧ (op.IsCall → GivesNew s op s')

/-- A call that only gives out a block. -/
lemma inv_returned (hrep : Rep s.heap bs) (hholds : Holds bs s.live) {h1 : Heap}
    (h1' : Rep h1 cs) (hapart : Apart cs) (hkept : Kept none bs cs s.heap.mem h1.mem)
    (hfresh : r ≠ 0 → Fresh bs cs n r) :
    Inv (returned s.live n (h1, r)) ∧
      (∀ p k, s.live p = some k → Unchanged s (returned s.live n (h1, r)) p) ∧
      ∀ op, GivesNew s op (returned s.live n (h1, r)) :=
  ⟨⟨cs, h1', hapart, hholds.hold hkept hfresh⟩,
    fun _ _ hp => Kept.unchanged (returned s.live n (h1, r)) hrep hholds hkept hp nofun,
    fun _ hr => .inl ((hfresh hr).not_held hholds)⟩

lemma Holds.update_zero (h : Holds bs live) : Function.update live 0 none = live := by
  refine update_eq_self_iff.2 ?_
  cases hzero : live 0 with
  | none => rfl
  | some n =>
    obtain ⟨x, b, hx, -⟩ := h 0 n hzero
    simp only [headerSize] at hx
    omega

/-- The pointers that are left when the one to the block at `x` is given up. -/
lemma Holds.remove (h : Holds bs live) (hkept : Kept (some x) bs cs mem mem') :
    Holds cs (Function.update live (x + headerSize) none) := by
  refine h.kept hkept fun p n hp => ?_
  by_cases hpx : p = x + headerSize
  · simp [hpx, update_self] at hp
  · rw [update_of_ne hpx] at hp
    refine ⟨hp, fun y hy => ?_⟩
    cases hy
    exact hpx

/-- A step that calls `realloc` for a block. -/
lemma Inv.realloc (hrep : Rep s.heap bs) (hapart : Apart bs) (hholds : Holds bs s.live)
    (hx : (x, b) ∈ placed Block.size heapStart bs) (hused : b.free = false) {n : UInt64}
    (hfits : Fits s (.realloc (x + headerSize) n env)) :
    ∃ s', step s (.realloc (x + headerSize) n env) = some s' ∧ Inv s' ∧
      Preserved s (.realloc (x + headerSize) n env) s' ∧
      GivesNew s (.realloc (x + headerSize) n env) s' := by
  have hsize := hrep.payloadSize hx
  obtain ⟨h1, r, cs, hrun, h1', hapart1, hkept, hcase⟩ := hrep.realloc hapart hx hused
    fun hn hlt => hfits n.toNat env (if_pos (.inr ⟨hn, by rwa [hsize]⟩))
  have hstep : step s (.realloc (x + headerSize) n env) = some
      (if r = 0 ∧ n.toNat ≠ 0 then returned s.live n.toNat (h1, r)
        else returned (Function.update s.live (x + headerSize) none) n.toNat (h1, r)) := by
    rw [step, hrun]
    rfl
  have hothers : ∀ (s' : Sys), s'.heap = h1 → ∀ p k, s.live p = some k →
      (Op.realloc (x + headerSize) n env).argument ≠ some p → Unchanged s s' p := by
    intro s' hs' p k hp hne
    refine Kept.unchanged s' hrep hholds (by rwa [hs']) hp fun y hy hpy => hne ?_
    cases hy
    rw [hpy]
    rfl
  rw [hstep]
  refine ⟨_, rfl, ?_⟩
  cases hcase with
  | freed hn =>
    rw [if_neg fun hboth => hboth.2 hn]
    exact ⟨⟨cs, h1', hapart1, hholds.remove hkept⟩,
      ⟨hothers _ rfl, fun _ _ _ _ _ hr => absurd rfl hr⟩, fun hr => absurd rfl hr⟩
  | failed hn hkept =>
    rw [if_pos ⟨rfl, hn⟩]
    exact ⟨⟨cs, h1', hapart1, hholds.kept hkept fun _ _ hp => ⟨hp, by simp⟩⟩,
      ⟨hothers _ rfl, fun _ _ _ _ _ hr => absurd rfl hr⟩, fun hr => absurd rfl hr⟩
  | inPlace hle hkept' =>
    have hne : x + headerSize ≠ 0 := by simp only [headerSize]; omega
    obtain ⟨hx', hsame⟩ := hkept' x b hx hused (by simp)
    rw [if_neg fun hboth => hne hboth.1]
    refine ⟨⟨cs, h1', hapart1, ?_⟩, ⟨hothers _ rfl, ?_⟩, fun _ => .inr rfl⟩
    · simp only [returned, hold, if_neg hne]
      exact (hholds.remove hkept).update ⟨x, b, rfl, hx', hused, hle⟩
    · intro p m env' heq _ _ i hi
      cases heq
      exact hsame _ (by simp only [returned]; omega) (by simp only [returned]; omega)
  | moved hfresh hsame =>
    have hne : r ≠ 0 := by
      obtain ⟨y, c, hr, -⟩ := hfresh
      simp only [headerSize] at hr
      omega
    rw [if_neg fun hboth => hne hboth.1]
    refine ⟨⟨cs, h1', hapart1, ?_⟩, ⟨hothers _ rfl, ?_⟩, fun _ => .inl (hfresh.not_held hholds)⟩
    · simp only [returned, hold, if_neg hne]
      exact (hholds.remove hkept).update hfresh.block
    · intro p m env' heq _ _ i hi
      cases heq
      exact hsame i (by omega)

/-- **One step**: what a program may do returns, if no memory is found for a request that wraps
around, it keeps the invariant and the contents, and it gives out no block that is held. -/
lemma Inv.step (h : Inv s) (hallowed : Allowed s op) (hfits : Fits s op) :
    ∃ s', step s op = some s' ∧ Inv s' ∧ (op.IsCall → Preserved s op s' ∧ GivesNew s op s') := by
  obtain ⟨bs, hrep, hapart, hholds⟩ := h
  cases op with
  | malloc n env =>
    obtain ⟨h1, r, cs, hrun, h1', hapart1, hkept, hfresh⟩ :=
      hrep.malloc_of_fits hapart (hfits n.toNat env rfl)
    obtain ⟨hinv, hsame, hnew⟩ := inv_returned hrep hholds h1' hapart1 hkept hfresh
    exact ⟨_, by rw [User.step, hrun]; rfl, hinv,
      fun _ => ⟨⟨fun p k hp _ => hsame p k hp, nofun⟩, hnew _⟩⟩
  | calloc nmemb size env =>
    obtain ⟨h1, r, cs, hrun, h1', hapart1, hkept, hfresh⟩ :=
      hrep.calloc hapart fun hlt => hfits (nmemb.toNat * size.toNat) env (if_pos hlt)
    obtain ⟨hinv, hsame, hnew⟩ := inv_returned hrep hholds h1' hapart1 hkept hfresh
    exact ⟨_, by rw [User.step, hrun]; rfl, hinv,
      fun _ => ⟨⟨fun p k hp _ => hsame p k hp, nofun⟩, hnew _⟩⟩
  | realloc p n env =>
    obtain rfl | hlive := hallowed
    · obtain ⟨h1, r, cs, hrun, h1', hapart1, hkept, hfresh⟩ :=
        hrep.malloc_of_fits hapart (hfits n.toNat env (by simp [request]))
      obtain ⟨hinv, hsame, hnew⟩ := inv_returned hrep hholds h1' hapart1 hkept hfresh
      refine ⟨returned s.live n.toNat (h1, r), ?_, hinv,
        fun _ => ⟨⟨fun p k hp _ => hsame p k hp, fun _ _ _ heq hne => ?_⟩, hnew _⟩⟩
      · rw [User.step, User.realloc, if_pos rfl, hrun, hholds.update_zero]
        simp
      · cases heq
        exact absurd rfl hne
    · obtain ⟨k, hk⟩ := isSome_iff_exists.1 hlive
      obtain ⟨x, b, rfl, hx, hused, -⟩ := hholds p k hk
      obtain ⟨s', hstep, hinv, hpres, hnew⟩ := Inv.realloc hrep hapart hholds hx hused hfits
      exact ⟨s', hstep, hinv, fun _ => ⟨hpres, hnew⟩⟩
  | free p =>
    refine ⟨_, rfl, ?_⟩
    obtain rfl | hlive := hallowed
    · rw [hholds.update_zero, User.free, if_pos (.inl rfl)]
      exact ⟨⟨bs, hrep, hapart, hholds⟩,
        fun _ => ⟨⟨fun _ _ _ _ _ _ => rfl, nofun⟩, fun hr => absurd rfl hr⟩⟩
    · obtain ⟨k, hk⟩ := isSome_iff_exists.1 hlive
      obtain ⟨x, b, rfl, hx, -, -⟩ := hholds p k hk
      obtain ⟨cs, h1, hapart1, hkept⟩ := hrep.free hapart hx
      refine ⟨⟨cs, h1, hapart1, hholds.remove hkept⟩,
        fun _ => ⟨⟨fun p k hp hne => ?_, nofun⟩, fun hr => absurd rfl hr⟩⟩
      refine Kept.unchanged _ hrep hholds hkept hp fun y hy hpy => hne ?_
      cases hy
      rw [hpy]
      rfl
  | store a v =>
    obtain ⟨p, n, hp, hlow, hhigh⟩ := hallowed
    obtain ⟨x, b, rfl, hx, hused, hsize⟩ := hholds p n hp
    refine ⟨_, rfl, ⟨bs, hrep.write hx fun y hy => ?_, hapart, hholds⟩, nofun⟩
    exact update_of_ne (by omega) _ _

lemma Inv.exec (h : Inv s) (hallowed : Allowed s op) (hfits : Fits s op) :
    Inv (Lib.exec User.step s op) := by
  obtain ⟨_, hstep, hinv, -⟩ := h.step hallowed hfits
  rwa [Lib.exec, hstep]

lemma Wraps.lt (h : Wraps n) : heapEnd < n := by
  simp only [Wraps, headerSize, heapEnd] at *
  omega

/-- A pointer to more bytes than the heap has room for. -/
lemma not_safe_of_wraps {s' : Sys} (hbrk : s'.heap.brk ≤ heapEnd) (hlive : s'.live r = some n)
    (hwraps : Wraps n) : ¬ Safe s' := by
  intro hsafe
  have hin := (hsafe.inside r n hlive).2
  have hlt := hwraps.lt
  omega

lemma live_returned (live : ℕ → Option ℕ) (h : Heap) (n : ℕ) (hr : r ≠ 0) :
    (returned live n (h, r)).live r = some n := by
  simp [returned, hold, hr]

lemma brk_free (h : Heap) (p : ℕ) : (free h p).brk = h.brk := by
  unfold User.free
  split <;> rfl

/-- **A request that wraps around is unsafe** if memory is found for it. -/
lemma Inv.fits_of_safe (h : Inv s) (hsafe : Safe (Lib.exec User.step s op)) : Fits s op := by
  obtain ⟨_, hrep, hapart, -⟩ := h
  intro n env hrequest hwraps hserved
  obtain ⟨h1, r, hrun, hr, hbrk⟩ := malloc_served hrep hapart hserved
  cases op with
  | malloc m env' =>
    cases hrequest
    have hstep : User.step s (.malloc m env) = some (returned s.live m.toNat (h1, r)) := by
      rw [User.step, hrun]
      rfl
    rw [Lib.exec, hstep] at hsafe
    exact not_safe_of_wraps hbrk (live_returned _ _ _ hr) hwraps hsafe
  | calloc nmemb size env' =>
    rw [request] at hrequest
    split at hrequest
    · rename_i hlt
      cases hrequest
      have hcheck : ¬ (nmemb.toNat ≠ 0 ∧ (2 ^ 64 - 1) / nmemb.toNat < size.toNat) := by
        rintro ⟨hpos, hdiv⟩
        rw [Nat.div_lt_iff_lt_mul (Nat.pos_of_ne_zero hpos), Nat.mul_comm] at hdiv
        omega
      have hstep : User.step s (.calloc nmemb size env) = some (returned s.live
          (nmemb.toNat * size.toNat)
          ({ h1 with mem := memset h1.mem r 0 (nmemb.toNat * size.toNat) }, r)) := by
        rw [User.step, User.calloc, if_neg hcheck, Nat.mod_eq_of_lt hlt]
        simp only [hrun, if_neg hr]
        rfl
      rw [Lib.exec, hstep] at hsafe
      exact not_safe_of_wraps (by exact hbrk) (live_returned _ _ _ hr) hwraps hsafe
    · cases hrequest
  | realloc p m env' =>
    rw [request] at hrequest
    split at hrequest
    · rename_i hcase
      cases hrequest
      obtain ⟨h2, hrun2, hbrk2⟩ : ∃ h2, User.realloc s.heap p m.toNat env = some (h2, r) ∧
          h2.brk ≤ heapEnd := by
        rw [User.realloc]
        split
        · exact ⟨h1, hrun, hbrk⟩
        · rename_i hp
          obtain ⟨hm, hlt⟩ := hcase.resolve_left hp
          simp only [if_neg hm, if_neg (Nat.not_le_of_lt hlt), hrun, if_neg hr]
          exact ⟨_, rfl, by rwa [brk_free]⟩
      have hstep : User.step s (.realloc p m env) =
          some (returned (Function.update s.live p none) m.toNat (h2, r)) := by
        rw [User.step, hrun2]
        simp [hr]
      rw [Lib.exec, hstep] at hsafe
      exact not_safe_of_wraps hbrk2 (live_returned _ _ _ hr) hwraps hsafe
    · cases hrequest
  | free p => cases hrequest
  | store a v => cases hrequest

lemma Inv.sound_iff (h : Inv s) (hallowed : Allowed s op) : Sound s op ↔ Fits s op := by
  constructor
  · rintro ⟨s', hstep, hsafe, -⟩
    refine h.fits_of_safe ?_
    rwa [Lib.exec, hstep]
  · intro hfits
    obtain ⟨s', hstep, hinv, hcall⟩ := h.step hallowed hfits
    exact ⟨s', hstep, hinv.safe, fun hc => (hcall hc).2⟩

/-- **A program is safe** in every step of a run exactly when no memory is ever found for a
request that wraps around. -/
theorem heap_safe_iff (mem : ℕ → UInt8) (ops : List Op) :
    Along step (fun s op => Allowed s op ∧ Sound s op) (boot mem) ops ↔
      Along step (fun s op => Allowed s op ∧ Fits s op) (boot mem) ops :=
  along_congr (fun _ _ h => and_congr_right h.sound_iff) (fun _ _ h hop => h.exec hop.1 hop.2)
    (inv_boot mem) ops

/-- **A block without bytes**: `malloc(SIZE_MAX)` rounds the request to zero and returns a block
that has room for nothing. -/
theorem not_safe_malloc_max :
    Allowed (boot fun _ => 0) (.malloc 0xFFFFFFFFFFFFFFFF ⟨true, true⟩) ∧
      ¬ Sound (boot fun _ => 0) (.malloc 0xFFFFFFFFFFFFFFFF ⟨true, true⟩) := by
  refine ⟨trivial, ?_⟩
  rintro ⟨s', hstep, hsafe, -⟩
  have hlive : (step (boot fun _ => 0) (.malloc 0xFFFFFFFFFFFFFFFF ⟨true, true⟩)).map
      (fun s => (s.live 0x600020, s.heap.brk)) = some (some 0xFFFFFFFFFFFFFFFF, 0x601000) := by
    decide +kernel
  rw [hstep, map_some, some.injEq, Prod.mk.injEq] at hlive
  have hin := (hsafe.inside _ _ hlive.1).2
  omega

/-! ### The list of blocks, and the contents -/

/-- The blocks tile the heap in the order of their addresses, and no two neighbours are free. -/
def Tiled (h : Heap) : Prop := ∃ bs, Rep h bs ∧ Apart bs

/-- The sizes are below `2 ^ 31`. -/
def Op.Small : Op → Prop
  | .malloc n _ | .realloc _ n _ => n.toNat < 2 ^ 31
  | .calloc nmemb size _ => nmemb.toNat < 2 ^ 31 ∧ size.toNat < 2 ^ 31
  | .free _ | .store _ _ => True

lemma Op.Small.fits (h : op.Small) (s : Sys) : Fits s op := by
  intro n _ hrequest hwraps
  have hlarge : 2 ^ 62 ≤ n := by
    simp only [Wraps, headerSize, heapEnd] at hwraps
    omega
  cases op with
  | malloc m env' =>
    cases hrequest
    exact absurd (lt_of_lt_of_le h (by decide)) (not_lt.2 hlarge)
  | calloc nmemb size env' =>
    rw [request] at hrequest
    split at hrequest
    · cases hrequest
      have hmul : nmemb.toNat * size.toNat < 2 ^ 31 * 2 ^ 31 := Nat.mul_lt_mul'' h.1 h.2
      omega
    · cases hrequest
  | realloc p m env' =>
    rw [request] at hrequest
    split at hrequest
    · cases hrequest
      exact absurd (lt_of_lt_of_le h (by decide)) (not_lt.2 hlarge)
    · cases hrequest
  | free p => cases hrequest
  | store a v => cases hrequest

/-- Each step of a run returns and keeps the invariant and the contents. -/
lemma Inv.run {ops before after : List Op} (h : Inv s) (hallowed : Along User.step Allowed s ops)
    (hsmall : ∀ op ∈ ops, op.Small) (hops : ops = before ++ op :: after) :
    ∃ s', User.step (Lib.run User.step s before) op = some s' ∧ Inv s' ∧
      (op.IsCall → Preserved (Lib.run User.step s before) op s') := by
  induction before generalizing s ops with
  | nil =>
    subst hops
    obtain ⟨s', hstep, hinv, hcall⟩ := h.step hallowed.1 ((hsmall op mem_cons_self).fits s)
    exact ⟨s', hstep, hinv, fun hc => (hcall hc).1⟩
  | cons op' before ih =>
    subst hops
    have hexec := h.exec hallowed.1 ((hsmall op' mem_cons_self).fits s)
    exact ih hexec hallowed.2 (fun op hop => hsmall op (mem_cons_of_mem op' hop)) rfl

/-- **The heap of a program with small requests**: every call returns; after it the blocks tile the
heap, no two neighbours are free, and the contents of the other blocks are the same, as are those
of a block that was reallocated. -/
theorem heap_tiled_preserved (mem : ℕ → UInt8) (ops : List Op)
    (hallowed : Along step Allowed (boot mem) ops) (hsmall : ∀ op ∈ ops, op.Small)
    (before after : List Op) (op : Op) (hops : ops = before ++ op :: after) :
    ∃ s', step (run step (boot mem) before) op = some s' ∧ Tiled s'.heap ∧
      (op.IsCall → Preserved (run step (boot mem) before) op s') := by
  obtain ⟨s', hstep, ⟨bs, hrep, hapart, -⟩, hpres⟩ :=
    (inv_boot mem).run hallowed hsmall hops
  exact ⟨s', hstep, ⟨bs, hrep, hapart⟩, hpres⟩

/-- A program with two blocks; the first one, with a byte in it, has to move. -/
def moveAndFree : List Op :=
  [.malloc 8 ⟨true, true⟩, .malloc 16 ⟨true, true⟩, .store 0x600020 7,
    .realloc 0x600020 100 ⟨true, true⟩, .free 0x600048]

lemma allowed_moveAndFree : Along step Allowed (boot fun _ => 0) moveAndFree :=
  ⟨trivial, trivial, ⟨0x600020, 8, by decide +kernel, by decide, by decide⟩,
    .inr (by decide +kernel), .inr (by decide +kernel), trivial⟩

/-- The second block is the same after the first one has moved. -/
theorem heap_tiled_preserved_moveAndFree :
    ∃ s', step (run step (boot fun _ => 0) (moveAndFree.take 3))
        (.realloc 0x600020 100 ⟨true, true⟩) = some s' ∧ s'.result = 0x600078 ∧ Tiled s'.heap ∧
      Preserved (run step (boot fun _ => 0) (moveAndFree.take 3))
        (.realloc 0x600020 100 ⟨true, true⟩) s' := by
  obtain ⟨s', hstep, htiled, hpres⟩ := heap_tiled_preserved (fun _ => 0) moveAndFree
    allowed_moveAndFree (by simp [moveAndFree, Op.Small]) (moveAndFree.take 3) [.free 0x600048]
    (.realloc 0x600020 100 ⟨true, true⟩) rfl
  have hresult : (step (run step (boot fun _ => 0) (moveAndFree.take 3))
      (.realloc 0x600020 100 ⟨true, true⟩)).map Sys.result = some 0x600078 := by decide +kernel
  rw [hstep] at hresult
  exact ⟨s', hstep, some.inj hresult, htiled, hpres trivial⟩

/-- All of its steps are safe. -/
theorem heap_safe_moveAndFree :
    Along step (fun s op => Allowed s op ∧ Sound s op) (boot fun _ => 0) moveAndFree := by
  refine (heap_safe_iff (fun _ => 0) moveAndFree).2 ?_
  have hfits : ∀ op ∈ moveAndFree, ∀ s, Fits s op := by
    intro op hop s
    have hsmall : ∀ op ∈ moveAndFree, op.Small := by simp [moveAndFree, Op.Small]
    exact (hsmall op hop).fits s
  obtain ⟨h1, h2, h3, h4, h5, -⟩ := allowed_moveAndFree
  simp only [moveAndFree, forall_mem_cons] at hfits
  obtain ⟨f1, f2, f3, f4, f5, -⟩ := hfits
  exact ⟨⟨h1, f1 _⟩, ⟨h2, f2 _⟩, ⟨h3, f3 _⟩, ⟨h4, f4 _⟩, ⟨h5, f5 _⟩, trivial⟩

end Aurora.User
