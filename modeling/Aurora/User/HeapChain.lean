import Aurora.Lib.Tiling
import Aurora.User.Heap

/-!
# The list of blocks

`Chain mem prev a bs nxt` says that memory holds the blocks `bs` one behind the other from the
address `a` on, with headers that link them: so the list is in the order of addresses and tiles
the memory, because the addresses are computed from the sizes. The lemmas say what the surgery of
`malloc` and `free` on the headers does to it.

## Main definitions

* `Block`, `IsBlock`: a block, and its header in memory.
* `Chain`: the list of blocks.
* `chain_append`: a list is two lists that are linked.
* `findFit_eq`, `findTail_eq`: what the loops find.
* `Chain.takeBlock`, `Chain.snoc`, `Chain.joined`: the surgery.
-/

namespace Aurora.User

open Lib List

/-! ### Fields -/

variable {mem mem' : ℕ → UInt8} {a b v p q : ℕ} {f g : Field}

lemma Field.offset_add_width_le (f : Field) : f.offset + f.width ≤ headerSize := by
  cases f <;> decide

lemma Field.disjoint (h : f ≠ g) :
    g.offset + g.width ≤ f.offset ∨ f.offset + f.width ≤ g.offset := by
  cases f <;> cases g <;> first | exact absurd rfl h | decide

/-- A field that was set, and the others. -/
@[simp] lemma get_set (mem : ℕ → UInt8) (a : ℕ) (f g : Field) (v : ℕ) :
    get (set mem a f v) a g = if f = g then v % 256 ^ f.width else get mem a g := by
  split
  · rename_i hfg
    rw [← hfg, get, set, getLE_putLE_self]
  · rename_i hfg
    have hdisj := Field.disjoint hfg
    exact getLE_putLE_of_disjoint (by omega)

lemma toNat_lt_width (c : Bool) : c.toNat < 4294967296 := by
  cases c <;> decide

lemma get_set_of_far (h : a + headerSize ≤ b ∨ b + headerSize ≤ a) :
    get (set mem a f v) b g = get mem b g := by
  have hf := f.offset_add_width_le
  have hg := g.offset_add_width_le
  exact getLE_putLE_of_disjoint (by omega)

lemma set_apply_of_far {x : ℕ} (h : x < a ∨ a + headerSize ≤ x) : set mem a f v x = mem x := by
  have hf := f.offset_add_width_le
  rw [set, putLE, blit]
  split
  · have hnone : (toLE f.width v)[x - (a + f.offset)]? = none := by
      rw [List.getElem?_eq_none_iff, length_toLE]
      omega
    rw [hnone, Option.getD_none]
  · rfl

lemma get_congr (h : ∀ x, a ≤ x → x < a + headerSize → mem' x = mem x) :
    get mem' a f = get mem a f := by
  have hf := f.offset_add_width_le
  exact getLE_congr fun i hi => h _ (by omega) (by omega)

lemma relink_apply_of_far {x n : ℕ} (h : n ≠ 0 → x < n ∨ n + headerSize ≤ x) :
    relink mem n q x = mem x := by
  unfold relink
  split
  · rfl
  · rename_i hn
    exact set_apply_of_far (h hn)

/-! ### Blocks -/

/-- A block of the heap, with its header. -/
structure Block where
  size : ℕ
  free : Bool

/-- The header of a block at `a`. -/
structure IsBlock (mem : ℕ → UInt8) (a : ℕ) (b : Block) (next prev : ℕ) : Prop where
  size : get mem a .size = b.size
  free : get mem a .free = b.free.toNat
  next : get mem a .next = next
  prev : get mem a .prev = prev
  fits : headerSize ≤ b.size

/-- The address of the first of the blocks `bs`, which are at `a`; `nxt` if there is none. -/
def link (bs : List Block) (a nxt : ℕ) : ℕ :=
  match bs with
  | [] => nxt
  | _ :: _ => a

@[simp] lemma link_nil (a nxt : ℕ) : link [] a nxt = nxt := rfl
@[simp] lemma link_cons (b : Block) (bs : List Block) (a nxt : ℕ) : link (b :: bs) a nxt = a :=
  rfl

/-- The address of the last of the blocks, `prev` if there is none. -/
def lastAt : ℕ → ℕ → List Block → ℕ
  | prev, _, [] => prev
  | _, a, b :: bs => lastAt a (a + b.size) bs

lemma lastAt_append_singleton (prev a : ℕ) (bs : List Block) (B : Block) :
    lastAt prev a (bs ++ [B]) = a + extent Block.size bs := by
  induction bs generalizing prev a with
  | nil => rfl
  | cons b bs ih => rw [cons_append, lastAt, ih, extent_cons, Nat.add_assoc]

lemma lastAt_mem_placed (prev a : ℕ) {bs : List Block} (h : bs ≠ []) :
    ∃ c, (lastAt prev a bs, c) ∈ placed Block.size a bs := by
  obtain ⟨cs, c, rfl⟩ : ∃ cs c, bs = cs ++ [c] := ⟨_, _, (dropLast_append_getLast h).symm⟩
  exact ⟨c, by simp [lastAt_append_singleton]⟩

/-- The blocks `bs` are in memory from `a` on; the first one is linked back to `prev`, and the
last one on to `nxt`. -/
def Chain (mem : ℕ → UInt8) : ℕ → ℕ → List Block → ℕ → Prop
  | _, _, [], _ => True
  | prev, a, b :: bs, nxt =>
    IsBlock mem a b (link bs (a + b.size) nxt) prev ∧ Chain mem a (a + b.size) bs nxt

variable {B C : Block} {bs cs : List Block} {prev next nxt fuel needed : ℕ}

/-- **Two lists that are linked.** -/
lemma chain_append : Chain mem prev a (bs ++ cs) nxt ↔
    Chain mem prev a bs (link cs (a + extent Block.size bs) nxt) ∧
      Chain mem (lastAt prev a bs) (a + extent Block.size bs) cs nxt := by
  induction bs generalizing prev a with
  | nil => simp [Chain, lastAt]
  | cons b bs ih =>
    have hlink : link (bs ++ cs) (a + b.size) nxt =
        link bs (a + b.size) (link cs (a + b.size + extent Block.size bs) nxt) := by
      cases bs <;> simp
    rw [cons_append, Chain, ih, hlink, Chain, extent_cons, lastAt, and_assoc, ← Nat.add_assoc]

section

variable (h : IsBlock mem a B next prev)

include h

lemma IsBlock.congr
    (hmem : ∀ x, a ≤ x → x < a + headerSize → mem' x = mem x) : IsBlock mem' a B next prev where
  size := (get_congr hmem).trans h.size
  free := (get_congr hmem).trans h.free
  next := (get_congr hmem).trans h.next
  prev := (get_congr hmem).trans h.prev
  fits := h.fits

lemma IsBlock.set_of_far
    (hfar : b + headerSize ≤ a ∨ a + headerSize ≤ b) : IsBlock (set mem b f v) a B next prev :=
  h.congr fun _ _ _ => set_apply_of_far (by omega)

lemma IsBlock.relink_of_far {n : ℕ} (hfar : n ≠ 0 → n + headerSize ≤ a ∨ a + headerSize ≤ n) :
    IsBlock (relink mem n q) a B next prev :=
  h.congr fun _ _ _ => relink_apply_of_far fun hn => by have := hfar hn; omega

lemma IsBlock.setSize (hv : v < 2 ^ 64)
    (hfits : headerSize ≤ v) : IsBlock (set mem a .size v) a { B with size := v } next prev where
  size := by simpa [Field.width] using hv
  free := by simp [h.free]
  next := by simp [h.next]
  prev := by simp [h.prev]
  fits := hfits

lemma IsBlock.setFree (c : Bool) :
    IsBlock (set mem a .free c.toNat) a { B with free := c } next prev where
  size := by simp [h.size]
  free := by simpa [Field.width] using toNat_lt_width c
  next := by simp [h.next]
  prev := by simp [h.prev]
  fits := h.fits

lemma IsBlock.setNext (hq : q < 2 ^ 64) : IsBlock (set mem a .next q) a B q prev where
  size := by simp [h.size]
  free := by simp [h.free]
  next := by simpa [Field.width] using hq
  prev := by simp [h.prev]
  fits := h.fits

lemma IsBlock.setPrev (hq : q < 2 ^ 64) : IsBlock (set mem a .prev q) a B next q where
  size := by simp [h.size]
  free := by simp [h.free]
  next := by simp [h.next]
  prev := by simpa [Field.width] using hq
  fits := h.fits

end

/-- A new header. -/
lemma isBlock_new (mem : ℕ → UInt8) (a : ℕ) (hv : v < 2 ^ 64) (hfits : headerSize ≤ v) (c : Bool)
    (hnext : next < 2 ^ 64) (hprev : prev < 2 ^ 64) :
    IsBlock (set (set (set (set mem a .size v) a .free c.toNat) a .next next) a .prev prev) a
      ⟨v, c⟩ next prev where
  size := by simpa [Field.width] using hv
  free := by simpa [Field.width] using toNat_lt_width c
  next := by simpa [Field.width] using hnext
  prev := by simpa [Field.width] using hprev
  fits := hfits

section

variable (h : Chain mem prev a bs nxt)

include h

/-- Only the headers matter. -/
lemma Chain.congr (hmem : ∀ x c, (x, c) ∈ placed Block.size a bs →
      ∀ y, x ≤ y → y < x + headerSize → mem' y = mem y) : Chain mem' prev a bs nxt := by
  induction bs generalizing prev a with
  | nil => trivial
  | cons b bs ih =>
    refine ⟨h.1.congr (hmem a b (by simp)), ih h.2 fun x c hx => hmem x c ?_⟩
    exact mem_cons_of_mem _ hx

lemma Chain.isBlock {x : ℕ} (hx : (x, B) ∈ placed Block.size a bs) :
    ∃ next prev, IsBlock mem x B next prev := by
  induction bs generalizing prev a with
  | nil => simp at hx
  | cons b bs ih =>
    rw [placed_cons, mem_cons, Prod.mk.injEq] at hx
    obtain ⟨rfl, rfl⟩ | hx := hx
    · exact ⟨_, _, h.1⟩
    · exact ih h.2 hx

lemma Chain.fits {x : ℕ} (hx : (x, B) ∈ placed Block.size a bs) : headerSize ≤ B.size := by
  obtain ⟨_, _, hB⟩ := h.isBlock hx
  exact hB.fits

/-- Memory may change outside of the blocks. -/
lemma Chain.frame (hmem : ∀ x, a ≤ x → x < a + extent Block.size bs → mem' x = mem x) :
    Chain mem' prev a bs nxt := by
  refine h.congr fun x c hx y hxy hy => ?_
  have hbounds := placed_bounds hx
  have hfits := h.fits hx
  exact hmem y (by omega) (by omega)

lemma Chain.set_of_far (hfar : b + headerSize ≤ a ∨ a + extent Block.size bs ≤ b) :
    Chain (set mem b f v) prev a bs nxt :=
  h.frame fun _ _ _ => set_apply_of_far (by omega)

/-- The first block is linked back to another one. -/
lemma Chain.setPrev (hq : q < 2 ^ 64) : Chain (set mem a .prev q) q a bs nxt := by
  cases bs with
  | nil => trivial
  | cons b bs =>
    have hfits := h.1.fits
    exact ⟨h.1.setPrev hq, h.2.set_of_far (by omega)⟩

omit h in
/-- The rest of the list is linked back to another block. -/
lemma Chain.relink (h : Chain mem prev a bs 0) (ha : 0 < a) (hq : q < 2 ^ 64) :
    Chain (relink mem (link bs a 0) q) q a bs 0 := by
  cases bs with
  | nil => trivial
  | cons b bs =>
    rw [link_cons, User.relink, if_neg (by omega)]
    exact h.setPrev hq

/-- The last block is linked on to another one. -/
lemma Chain.setNext (hbs : bs ≠ []) (hq : q < 2 ^ 64) :
    Chain (set mem (lastAt prev a bs) .next q) prev a bs q := by
  obtain ⟨cs, c, rfl⟩ : ∃ cs c, bs = cs ++ [c] := ⟨_, _, (dropLast_append_getLast hbs).symm⟩
  rw [lastAt_append_singleton]
  obtain ⟨hcs, hc, -⟩ := chain_append.1 h
  exact chain_append.2 ⟨hcs.set_of_far (.inr le_rfl), hc.setNext hq, trivial⟩

end

lemma link_eq_of_ne_zero (bs : List Block) (a : ℕ) (h : link bs a 0 ≠ 0) : link bs a 0 = a := by
  cases bs with
  | nil => exact absurd rfl h
  | cons b bs => rfl

lemma link_mem_placed (h : link bs a 0 ≠ 0) : ∃ c, (link bs a 0, c) ∈ placed Block.size a bs := by
  cases bs with
  | nil => exact absurd rfl h
  | cons b bs => exact ⟨b, by simp⟩

lemma link_lt (bs : List Block) (h : a < 2 ^ 64) : link bs a 0 < 2 ^ 64 := by
  cases bs with
  | nil => exact Nat.two_pow_pos 64
  | cons b bs => exact h

/-! ### The loops -/

/-- The address of the first block that is free and large enough. -/
def firstFit (needed : ℕ) : ℕ → List Block → Option ℕ
  | _, [] => none
  | a, b :: bs =>
    if b.free = true ∧ needed ≤ b.size then some a else firstFit needed (a + b.size) bs

lemma findFit_eq (h : Chain mem prev a bs 0) (ha : 0 < a) (hfuel : bs.length < fuel) :
    findFit mem needed fuel (link bs a 0) = some (firstFit needed a bs) := by
  induction bs generalizing prev a fuel with
  | nil =>
    obtain ⟨k, rfl⟩ := Nat.exists_eq_add_of_lt hfuel
    rfl
  | cons b bs ih =>
    obtain ⟨k, rfl⟩ := Nat.exists_eq_add_of_lt hfuel
    have hfree : get mem a .free ≠ 0 ↔ b.free = true := by
      rw [h.1.free]
      cases b.free <;> decide
    rw [link_cons, findFit, if_neg (by omega), firstFit]
    simp only [hfree, h.1.size, h.1.next]
    split
    · rfl
    · exact ih h.2 (by omega) (Nat.lt_add_right k (Nat.lt_succ_self _))

lemma firstFit_eq_some {m : ℕ} (h : firstFit needed a bs = some m) :
    ∃ b, (m, b) ∈ placed Block.size a bs ∧ b.free = true ∧ needed ≤ b.size := by
  induction bs generalizing a with
  | nil => cases h
  | cons b bs ih =>
    rw [firstFit] at h
    split at h
    · rename_i hfit
      cases h
      exact ⟨b, by simp, hfit⟩
    · obtain ⟨c, hc, hfit⟩ := ih h
      exact ⟨c, mem_cons_of_mem _ hc, hfit⟩

lemma firstFit_eq_none (h : firstFit needed a bs = none) :
    ∀ b ∈ bs, ¬ (b.free = true ∧ needed ≤ b.size) := by
  induction bs generalizing a with
  | nil => simp
  | cons b bs ih =>
    rw [firstFit] at h
    split_ifs at h with hfit
    intro c hc
    obtain rfl | hc := mem_cons.1 hc
    · exact hfit
    · exact ih h c hc

lemma findTail_eq (h : Chain mem prev a (B :: bs) 0) (ha : 0 < a) (hfuel : bs.length < fuel) :
    findTail mem fuel a = some (lastAt prev a (B :: bs)) := by
  induction bs generalizing prev a B fuel with
  | nil =>
    obtain ⟨k, rfl⟩ := Nat.exists_eq_add_of_lt hfuel
    have hnext : get mem a .next = 0 := h.1.next
    rw [findTail, if_pos hnext]
    rfl
  | cons c _ ih =>
    obtain ⟨k, rfl⟩ : ∃ k, fuel = k + 1 := ⟨fuel - 1, by omega⟩
    have hnext : get mem a .next = a + B.size := h.1.next
    rw [findTail, hnext, if_neg (by omega), ih h.2 (by omega) (by simpa using hfuel)]
    rfl

/-! ### A block is taken -/

/-- The parts of a free block from which `needed` bytes are taken. -/
def carve (B : Block) (needed : ℕ) : List Block :=
  if needed + headerSize + 16 ≤ B.size then [⟨needed, false⟩, ⟨B.size - needed, true⟩]
  else [⟨B.size, false⟩]

lemma extent_carve (h : needed ≤ B.size) : extent Block.size (carve B needed) = B.size := by
  unfold carve
  split
  · simp only [extent_cons, extent_nil]
    omega
  · simp

/-- A free block is cut in two. -/
lemma Chain.splitBlock (h : Chain mem prev a (B :: bs) 0) (ha : 0 < a)
    (hneeded : headerSize ≤ needed) (hsize : needed + headerSize + 16 ≤ B.size)
    (hend : a + B.size < 2 ^ 64) :
    Chain (splitBlock mem a needed) prev a
      (⟨needed, B.free⟩ :: ⟨B.size - needed, true⟩ :: bs) 0 := by
  obtain ⟨hB, hbs⟩ := h
  have hmod : (a + needed) % 2 ^ 64 = a + needed := Nat.mod_eq_of_lt (by omega)
  have hrest : (B.size + 2 ^ 64 - needed) % 2 ^ 64 = B.size - needed := by omega
  have hnxt : link bs (a + B.size) 0 < 2 ^ 64 := link_lt bs hend
  have hfar : link bs (a + B.size) 0 ≠ 0 → link bs (a + B.size) 0 = a + B.size :=
    link_eq_of_ne_zero bs _
  have hnew : a + needed + headerSize ≤ a + B.size := by omega
  rw [User.splitBlock]
  simp only [hmod, get_set_of_far (.inr (Nat.add_le_add_left hneeded a)), hB.size, hB.next, hrest]
  set mem1 := set (set (set (set mem (a + needed) .size (B.size - needed))
    (a + needed) .free 1) (a + needed) .next (link bs (a + B.size) 0)) (a + needed) .prev a
    with hmem1
  have hhead : a + headerSize ≤ a + needed := by omega
  have hB1 : IsBlock mem1 a B (link bs (a + B.size) 0) prev := by
    rw [hmem1]
    exact (((hB.set_of_far (.inr hhead)).set_of_far (.inr hhead)).set_of_far
      (.inr hhead)).set_of_far (.inr hhead)
  have hN1 : IsBlock mem1 (a + needed) ⟨B.size - needed, true⟩ (link bs (a + B.size) 0) a := by
    rw [hmem1]
    exact isBlock_new mem (a + needed) (by omega) (by omega) true hnxt (by omega)
  have hbs1 : Chain mem1 a (a + B.size) bs 0 := by
    rw [hmem1]
    exact (((hbs.set_of_far (.inl hnew)).set_of_far (.inl hnew)).set_of_far
      (.inl hnew)).set_of_far (.inl hnew)
  have hB2 := hB1.relink_of_far (q := a + needed) fun hn => .inr (by rw [hfar hn]; omega)
  have hN2 := hN1.relink_of_far (q := a + needed) fun hn => .inr (by rw [hfar hn]; omega)
  have hbs2 := hbs1.relink (by omega) (by omega : a + needed < 2 ^ 64)
  have hrest' : a + needed + (B.size - needed) = a + B.size := by omega
  refine ⟨(hB2.setNext (by omega)).setSize (by omega) hneeded, ?_⟩
  rw [Chain, hrest']
  exact ⟨(hN2.set_of_far (.inl hhead)).set_of_far (.inl hhead),
    (hbs2.set_of_far (.inl (by omega))).set_of_far (.inl (by omega))⟩

/-- A free block is taken. -/
lemma Chain.takeBlock (h : Chain mem prev a (B :: bs) 0) (ha : 0 < a)
    (hneeded : headerSize ≤ needed) (hsize : needed ≤ B.size) (hend : a + B.size < 2 ^ 63) :
    Chain (takeBlock mem a needed) prev a (carve B needed ++ bs) 0 := by
  have hmod : (needed + headerSize + 16) % 2 ^ 64 = needed + headerSize + 16 :=
    Nat.mod_eq_of_lt (by simp only [headerSize]; omega)
  rw [User.takeBlock, hmod, h.1.size, carve]
  split
  · rename_i hcut
    obtain ⟨hB, hN, hbs⟩ := h.splitBlock ha hneeded hcut (by omega)
    have hrest : a + headerSize ≤ a + needed + (B.size - needed) := by omega
    exact ⟨hB.setFree false, hN.set_of_far (.inl (Nat.add_le_add_left hneeded a)),
      hbs.set_of_far (.inl hrest)⟩
  · exact ⟨h.1.setFree false, h.2.set_of_far (.inl (Nat.add_le_add_left h.1.fits a))⟩

/-- Where `malloc` writes when it takes a block: in the block, and in the header of the next
one. -/
lemma takeBlock_apply {x : ℕ} (h : Chain mem prev a (B :: bs) 0)
    (hneeded : headerSize ≤ needed) (hsize : needed ≤ B.size) (hend : a + B.size < 2 ^ 63)
    (hx : x < a ∨ a + B.size ≤ x)
    (hheads : ∀ y c, (y, c) ∈ placed Block.size (a + B.size) bs → x < y ∨ y + headerSize ≤ x) :
    takeBlock mem a needed x = mem x := by
  have hmod : (needed + headerSize + 16) % 2 ^ 64 = needed + headerSize + 16 :=
    Nat.mod_eq_of_lt (by simp only [headerSize]; omega)
  rw [User.takeBlock, hmod, h.1.size, set_apply_of_far (by omega)]
  split
  · rename_i hcut
    have hmod' : (a + needed) % 2 ^ 64 = a + needed := Nat.mod_eq_of_lt (by omega)
    have hlink : link bs (a + B.size) 0 ≠ 0 → x < link bs (a + B.size) 0 ∨
        link bs (a + B.size) 0 + headerSize ≤ x := by
      intro hne
      obtain ⟨c, hc⟩ := link_mem_placed hne
      exact hheads _ c hc
    have hnew : x < a + needed ∨ a + needed + headerSize ≤ x := by omega
    have hold : x < a ∨ a + headerSize ≤ x := by omega
    rw [User.splitBlock]
    simp only [hmod', get_set_of_far (.inr (Nat.add_le_add_left hneeded a)), h.1.size, h.1.next]
    rw [set_apply_of_far hold, set_apply_of_far hold, relink_apply_of_far hlink,
      set_apply_of_far hnew, set_apply_of_far hnew, set_apply_of_far hnew, set_apply_of_far hnew]
  · rfl

/-! ### A block is appended -/

/-- The header of a new block behind the last one. -/
lemma Chain.snoc (h : Chain mem prev a bs 0) (hbs : bs ≠ []) (hv : v < 2 ^ 64)
    (hfits : headerSize ≤ v) (hend : a + extent Block.size bs < 2 ^ 64) :
    Chain (set (set (set (set (set mem (a + extent Block.size bs) .size v)
      (a + extent Block.size bs) .free 0) (a + extent Block.size bs) .next 0)
      (lastAt prev a bs) .next (a + extent Block.size bs)) (a + extent Block.size bs) .prev
      (lastAt prev a bs)) prev a (bs ++ [⟨v, false⟩]) 0 := by
  set e := a + extent Block.size bs with he
  have hlast : lastAt prev a bs + headerSize ≤ e := by
    obtain ⟨c, hc⟩ := lastAt_mem_placed prev a hbs
    have hfits := h.fits hc
    have hbounds := placed_bounds hc
    omega
  have hframe := ((h.set_of_far (f := .size) (v := v) (.inr he.ge)).set_of_far (f := .free) (v := 0)
    (.inr he.ge)).set_of_far (f := .next) (v := 0) (.inr he.ge)
  refine chain_append.2 ⟨?_, ?_, trivial⟩
  · rw [link_cons, ← he]
    exact (hframe.setNext hbs hend).set_of_far (.inr he.ge)
  · rw [← he]
    exact
      { size := by
          simp only [get_set, get_set_of_far (.inl hlast), reduceCtorEq, if_false, if_true]
          exact Nat.mod_eq_of_lt hv
        free := by
          simp only [get_set, get_set_of_far (.inl hlast), reduceCtorEq, if_false, if_true]
          rfl
        next := by
          simp only [get_set, get_set_of_far (.inl hlast), reduceCtorEq, if_false, if_true]
          rfl
        prev := by
          simp only [get_set, if_true]
          exact Nat.mod_eq_of_lt (by simp only [Field.width]; omega)
        fits := hfits }

/-! ### A block is freed -/

/-- Two neighbours become one block: what `free` writes when it joins them. -/
def joined (mem : ℕ → UInt8) (a size next : ℕ) : ℕ → UInt8 :=
  relink (set (set mem a .size size) a .next next) next a

section

variable (h : Chain mem prev a (B :: C :: bs) 0) (ha : 0 < a) (hend : a + B.size + C.size < 2 ^ 64)

include h ha hend

/-- **Joining two neighbours.** -/
lemma Chain.joined : Chain (joined mem a (B.size + C.size) (link bs (a + B.size + C.size) 0)) prev a
      (⟨B.size + C.size, B.free⟩ :: bs) 0 := by
  obtain ⟨hB, hC, hbs⟩ := h
  have hfitsC := hC.fits
  have hlink := link_eq_of_ne_zero bs (a + B.size + C.size)
  have hB1 := (hB.setSize (v := B.size + C.size) (by omega) (by omega)).setNext (link_lt bs hend)
  have hbs1 : Chain (set (set mem a .size (B.size + C.size)) a .next
      (link bs (a + B.size + C.size) 0)) (a + B.size) (a + B.size + C.size) bs 0 :=
    (hbs.set_of_far (.inl (by omega))).set_of_far (.inl (by omega))
  refine ⟨?_, ?_⟩
  · rw [← Nat.add_assoc]
    exact hB1.relink_of_far fun hne => .inr (by rw [hlink hne]; omega)
  · rw [← Nat.add_assoc]
    exact hbs1.relink (by omega) (by omega)

omit h ha hend in
/-- Where joining writes: in the header of the first block and in that of the block behind. -/
lemma joined_apply {x size next : ℕ} (hx : x < a ∨ a + headerSize ≤ x)
    (hnext : next ≠ 0 → x < next ∨ next + headerSize ≤ x) : joined mem a size next x = mem x := by
  rw [User.joined, relink_apply_of_far hnext, set_apply_of_far hx, set_apply_of_far hx]

/-- `free` and the next block. -/
lemma Chain.joinNext_eq : joinNext mem a = if C.free = true
      then User.joined mem a (B.size + C.size) (link bs (a + B.size + C.size) 0) else mem := by
  obtain ⟨hB, hC, -⟩ := h
  have hnext : get mem a .next = a + B.size := hB.next
  have hfree : get mem (a + B.size) .free ≠ 0 ↔ C.free = true := by
    rw [hC.free]
    cases C.free <;> decide
  have hfar : a + headerSize ≤ a + B.size := Nat.add_le_add_left hB.fits a
  have hsum : (B.size + C.size) % 2 ^ 64 = B.size + C.size := Nat.mod_eq_of_lt (by omega)
  have hlink : link bs (a + B.size + C.size) 0 % 256 ^ 8 = link bs (a + B.size + C.size) 0 :=
    Nat.mod_eq_of_lt (by simpa using link_lt bs hend)
  have hcond : (a + B.size ≠ 0 ∧ get mem (a + B.size) .free ≠ 0) ↔ C.free = true := by
    rw [hfree]
    exact and_iff_right (by omega)
  rw [joinNext]
  simp only [hnext, hcond, get_set_of_far (.inl hfar), hB.size, hC.size, hC.next, hsum, get_set,
    if_true, Field.width, hlink]
  rfl

/-- `free` and the block before. -/
lemma Chain.joinPrev_eq : joinPrev mem (a + B.size) = if B.free = true
      then User.joined mem a (B.size + C.size) (link bs (a + B.size + C.size) 0) else mem := by
  obtain ⟨hB, hC, -⟩ := h
  have hprev : get mem (a + B.size) .prev = a := hC.prev
  have hfree : get mem a .free ≠ 0 ↔ B.free = true := by
    rw [hB.free]
    cases B.free <;> decide
  have hfar : a + headerSize ≤ a + B.size := Nat.add_le_add_left hB.fits a
  have hsum : (B.size + C.size) % 2 ^ 64 = B.size + C.size := Nat.mod_eq_of_lt (by omega)
  have hcond : (a ≠ 0 ∧ get mem a .free ≠ 0) ↔ B.free = true := by
    rw [hfree]
    exact and_iff_right (by omega)
  rw [joinPrev]
  simp only [hprev, hcond, get_set_of_far (.inl hfar), hB.size, hC.size, hC.next, hsum]
  rfl

end

end Aurora.User
