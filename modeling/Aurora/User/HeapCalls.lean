import Aurora.User.HeapChain

/-!
# What the calls do to the list of blocks

Each call of `malloc` and `free` keeps the list of blocks, never leaves two neighbours free, and
leaves the contents of the blocks in use alone.

## Main definitions

* `Rep h bs`: the heap has the blocks `bs`, which tile the memory up to the break.
* `Apart`: no two neighbours are free.
* `Kept`: the blocks in use stay where they are, with their contents.
* `Rep.malloc`, `Rep.free`: the two functions.
-/

namespace Aurora.User

open Lib List Block

variable {h : Heap} {mem mem' : ℕ → UInt8} {a prev needed x y : ℕ} {b c B C : Block}
  {bs cs ds : List Block}

/-- The heap has the blocks `bs`: the first one starts at the start of the heap, each one ends
where the next one starts, and the last one ends at the break. -/
structure Rep (h : Heap) (bs : List Block) : Prop where
  chain : Chain h.mem 0 heapStart bs 0
  head : h.head = link bs heapStart 0
  brk : h.brk = heapStart + extent size bs
  limit : h.brk ≤ heapEnd
  init : bs ≠ [] → h.initialized = true

/-- No two neighbours are free. -/
def Apart (bs : List Block) : Prop :=
  bs.IsChain fun b c => ¬ (b.free = true ∧ c.free = true)

/-- The blocks in use, apart from that at `z`, are still there and have the same contents. -/
def Kept (z : Option ℕ) (bs bs' : List Block) (mem mem' : ℕ → UInt8) : Prop :=
  ∀ x b, (x, b) ∈ placed size heapStart bs → b.free = false → z ≠ some x →
    (x, b) ∈ placed size heapStart bs' ∧
      ∀ y, x + headerSize ≤ y → y < x + b.size → mem' y = mem y

lemma Kept.refl (z : Option ℕ) (bs : List Block) (mem : ℕ → UInt8) : Kept z bs bs mem mem :=
  fun _ _ hx _ _ => ⟨hx, fun _ _ _ => rfl⟩

lemma Kept.trans {z : Option ℕ} {mem'' : ℕ → UInt8} (h : Kept z bs cs mem mem')
    (h' : Kept z cs ds mem' mem'') : Kept z bs ds mem mem'' := by
  intro x b hx hused hne
  obtain ⟨hx1, hsame1⟩ := h x b hx hused hne
  obtain ⟨hx2, hsame2⟩ := h' x b hx1 hused hne
  exact ⟨hx2, fun y hlow hhigh => (hsame2 y hlow hhigh).trans (hsame1 y hlow hhigh)⟩

section

variable (h' : Rep h bs) (hx : (x, b) ∈ placed size heapStart bs)

include h' hx

lemma Rep.fits : headerSize ≤ b.size :=
  h'.chain.fits hx

lemma Rep.bounds : heapStart ≤ x ∧ x + b.size ≤ h.brk := by
  rw [h'.brk]
  exact placed_bounds hx

omit h' hx in
/-- The contents of a block are not in a header. -/
lemma Chain.payload_not_header {nxt z : ℕ} (h : Chain mem prev a bs nxt)
    (hx : (x, b) ∈ placed size a bs) (hlow : x + headerSize ≤ y) (hhigh : y < x + b.size)
    (hz : (z, c) ∈ placed size a bs) : y < z ∨ z + headerSize ≤ y := by
  have hfits := h.fits hz
  obtain ⟨rfl, rfl⟩ | hdisj := placed_disjoint hx hz
  · exact .inr hlow
  · omega

omit hx in
/-- The loops over the list have enough fuel. -/
lemma Rep.length_lt : bs.length < maxBlocks := by
  have hfew : bs.length * headerSize ≤ extent size bs := by
    refine length_mul_le_extent fun b hb => ?_
    obtain ⟨cs, _, rfl⟩ := append_of_mem hb
    exact h'.fits (x := heapStart + extent size cs) (by simp)
  have hlimit := h'.limit
  rw [h'.brk] at hlimit
  simp only [heapStart, heapEnd, headerSize, maxBlocks] at *
  omega

/-- The program may write into a block. -/
lemma Rep.write (hmem : ∀ y, y < x + headerSize ∨ x + b.size ≤ y → mem' y = h.mem y) :
    Rep { h with mem := mem' } bs := by
  refine ⟨h'.chain.congr fun z c hz y hzy hy => hmem y ?_, h'.head, h'.brk, h'.limit, h'.init⟩
  by_contra hin
  have hnot := h'.chain.payload_not_header hx (y := y) (by omega) (by omega) hz
  omega

/-! ### Allocation -/

omit hx in
lemma Rep.heapInit (hapart : Apart bs) (ok : Bool) : ∃ bs', Rep (heapInit h ok) bs' ∧ Apart bs' ∧
      Kept none bs bs' h.mem (User.heapInit h ok).mem := by
  unfold User.heapInit
  split
  · exact ⟨bs, h', hapart, .refl _ _ _⟩
  · rename_i hinit
    have hbs : bs = [] := by
      by_contra hne
      exact hinit (h'.init hne)
    subst hbs
    have hbrk : h.brk = heapStart := h'.brk
    have hkept : ∀ bs' mem', Kept none [] bs' h.mem mem' := fun _ _ _ _ hx => by simp at hx
    split
    · exact ⟨[], ⟨trivial, h'.head, h'.brk, h'.limit, nofun⟩, hapart, hkept _ _⟩
    · rename_i h1 block hsbrk
      simp only [sbrk, hbrk] at hsbrk
      split_ifs at hsbrk
      cases hsbrk
      have hlimit : (heapStart + chunkSize) % 2 ^ 64 ≤ heapEnd := by decide
      refine ⟨[⟨chunkSize, true⟩], ⟨⟨?_, trivial⟩, rfl, rfl, hlimit, fun _ => rfl⟩,
        isChain_singleton _, hkept _ _⟩
      exact isBlock_new h.mem heapStart (by decide) (by decide) true (by decide) (by decide)

end

/-- The request is so large that the arithmetic of `unsigned long` wraps around: rounded up and
with a header, it cannot be added to an address of the heap. -/
def Wraps (n : ℕ) : Prop := 2 ^ 64 ≤ (n + 7) / 8 * 8 + headerSize + heapEnd

lemma neededFor_eq {n : ℕ} (hn : ¬ Wraps n) :
    neededFor n = (n + 7) / 8 * 8 + headerSize ∧ neededFor n + heapEnd < 2 ^ 64 := by
  simp only [Wraps, neededFor, headerSize, heapEnd] at *
  omega

/-- A block for `n` bytes that was not in use. -/
def Fresh (bs bs' : List Block) (n r : ℕ) : Prop :=
  ∃ x b, r = x + headerSize ∧ (x, b) ∈ placed size heapStart bs' ∧ b.free = false ∧
    n + headerSize ≤ b.size ∧ ∀ c, (x, c) ∈ placed size heapStart bs → c.free = true

lemma Fresh.of_kept {n r : ℕ} (h : Fresh cs ds n r) (hkept : Kept none bs cs mem mem') :
    Fresh bs ds n r := by
  obtain ⟨x, b, hr, hx, hused, hsize, hfree⟩ := h
  refine ⟨x, b, hr, hx, hused, hsize, fun c hc => ?_⟩
  by_contra hcfree
  have hcused := Bool.eq_false_iff.2 hcfree
  exact hcfree (hfree c (hkept x c hc hcused nofun).1)

lemma apart_append : Apart (bs ++ cs) ↔ Apart bs ∧ Apart cs ∧
    ∀ b ∈ bs.getLast?, ∀ c ∈ cs.head?, ¬ (b.free = true ∧ c.free = true) :=
  isChain_append

lemma apart_cons : Apart (b :: bs) ↔
    (∀ c ∈ bs.head?, ¬ (b.free = true ∧ c.free = true)) ∧ Apart bs :=
  isChain_cons

/-- What is left of a free block is free, so its neighbours are in use. -/
lemma Apart.carve (h : Apart (bs ++ B :: cs)) (hB : B.free = true) (needed : ℕ) :
    Apart (bs ++ (carve B needed ++ cs)) := by
  obtain ⟨hbs, hcs, -⟩ := apart_append.1 h
  obtain ⟨hnext, hcs⟩ := apart_cons.1 hcs
  have hused : ∀ n (es : List Block), Apart es → Apart (⟨n, false⟩ :: es) :=
    fun n es hes => apart_cons.2 ⟨fun _ _ hfree => absurd hfree.1 nofun, hes⟩
  unfold User.carve
  split
  · refine apart_append.2 ⟨hbs, hused _ _ (apart_cons.2 ⟨fun c hc hfree => ?_, hcs⟩),
      fun b _ c hc hfree => ?_⟩
    · exact hnext c hc ⟨hB, hfree.2⟩
    · cases hc
      exact absurd hfree.2 nofun
  · refine apart_append.2 ⟨hbs, hused _ _ hcs, fun b _ c hc hfree => ?_⟩
    cases hc
    exact absurd hfree.2 nofun

/-- A free block is taken. -/
lemma Rep.takeBlock (h' : Rep h bs) (hapart : Apart bs)
    (hx : (x, B) ∈ placed size heapStart bs) (hfree : B.free = true)
    (hneeded : headerSize ≤ needed) (hsize : needed ≤ B.size) {n : ℕ}
    (hn : n + headerSize ≤ needed) :
    ∃ bs', Rep { h with mem := takeBlock h.mem x needed } bs' ∧ Apart bs' ∧
      Kept none bs bs' h.mem (takeBlock h.mem x needed) ∧ Fresh bs bs' n (x + headerSize) := by
  have hbounds := h'.bounds hx
  have hlimit := h'.limit
  obtain ⟨cs, ds, rfl, rfl⟩ := mem_placed_iff.1 hx
  obtain ⟨hcs, hds⟩ := chain_append.1 h'.chain
  have hpos : 0 < heapStart + extent size cs := Nat.add_pos_left (by decide) _
  have hend : heapStart + extent size cs + B.size < 2 ^ 63 := by
    simp only [heapEnd] at hlimit
    omega
  obtain ⟨C, cs', hcarve, hC, hCsize⟩ : ∃ C cs', carve B needed = C :: cs' ∧ C.free = false ∧
      needed ≤ C.size := by
    unfold carve
    split
    · exact ⟨_, _, rfl, rfl, le_rfl⟩
    · exact ⟨_, _, rfl, rfl, hsize⟩
  have hextent := extent_carve hsize
  have htake := hds.takeBlock hpos hneeded hsize hend
  -- the blocks before are not written to, and those behind only in their headers
  have happly := fun y => takeBlock_apply (x := y) hds hneeded hsize hend
  have hcs' : Chain (User.takeBlock h.mem (heapStart + extent size cs) needed) 0 heapStart cs
      (heapStart + extent size cs) := by
    refine hcs.frame fun y hlow hhigh => happly y (.inl hhigh) fun z c hz => ?_
    have := placed_bounds hz
    omega
  refine ⟨cs ++ (carve B needed ++ ds), ⟨?_, ?_, ?_, hlimit, fun _ => h'.init (by simp)⟩, ?_, ?_,
    ?_⟩
  · refine chain_append.2 ⟨?_, htake⟩
    rwa [hcarve]
  · rw [h'.head, hcarve]
    cases cs <;> rfl
  · rw [h'.brk]
    simp only [extent_append, extent_cons, hextent]
  · exact hapart.carve hfree needed
  · intro z c hz hused _
    have hin : (z, c) ∈ placed size heapStart cs ∨
        (z, c) ∈ placed size (heapStart + extent size cs + B.size) ds := by
      rw [placed_append, mem_append, placed_cons, mem_cons, Prod.mk.injEq] at hz
      obtain hz | ⟨-, rfl⟩ | hz := hz
      · exact .inl hz
      · exact absurd (hfree.symm.trans hused) nofun
      · exact .inr hz
    refine ⟨?_, fun y hlow hhigh => happly y ?_ fun w d hw => ?_⟩
    · simp only [placed_append, mem_append, hextent]
      tauto
    · obtain hz | hz := hin
      · have := placed_bounds hz
        omega
      · have := placed_bounds hz
        omega
    · exact h'.chain.payload_not_header (c := d) hz hlow hhigh (by simp [hw])
  · refine ⟨_, C, rfl, by simp [hcarve], hC, hn.trans hCsize, fun c hc => ?_⟩
    obtain ⟨-, rfl⟩ | hdisj := placed_disjoint hc hx
    · exact hfree
    · have hfitsB := h'.fits hx
      have hfitsc := h'.fits hc
      simp only [headerSize] at *
      omega

/-- The heap grows by a block. -/
lemma Rep.appendBlock (h' : Rep h bs) (hapart : Apart bs) (hbs : bs ≠ []) {v n : ℕ}
    (hv : headerSize ≤ v) (hend : h.brk + v ≤ heapEnd) (hn : n + headerSize ≤ v) :
    ∃ h1 bs', appendBlock { h with brk := h.brk + v } h.brk v = some (h1, h.brk + headerSize) ∧
      Rep h1 bs' ∧ Apart bs' ∧ Kept none bs bs' h.mem h1.mem ∧
      Fresh bs bs' n (h.brk + headerSize) := by
  have hbrk := h'.brk
  have hlimit : heapEnd < 2 ^ 64 := by decide
  obtain ⟨b, cs, rfl⟩ : ∃ b cs, bs = b :: cs := exists_cons_of_ne_nil hbs
  have hhead : h.head = heapStart := h'.head
  have hfar : ∀ {f : Field} {w : ℕ} {mem : ℕ → UInt8}, Chain mem 0 heapStart (b :: cs) 0 →
      Chain (set mem h.brk f w) 0 heapStart (b :: cs) 0 :=
    fun hchain => hchain.set_of_far (.inr hbrk.ge)
  have htail := findTail_eq
    (hfar (f := .next) (w := 0) (hfar (f := .free) (w := 0) (hfar (f := .size) (w := v) h'.chain)))
    (by decide) (Nat.lt_of_succ_lt h'.length_lt)
  have hne : ¬ h.head = 0 := by
    rw [hhead]
    decide
  have hmod : (h.brk + headerSize) % 2 ^ 64 = h.brk + headerSize := Nat.mod_eq_of_lt (by omega)
  have hsnoc := h'.chain.snoc hbs (v := v) (by omega) hv (by omega)
  rw [← hbrk] at hsnoc
  set mem1 := set (set (set (set (set h.mem h.brk .size v) h.brk .free 0)
    h.brk .next 0) (lastAt 0 heapStart (b :: cs)) .next h.brk) h.brk .prev
    (lastAt 0 heapStart (b :: cs)) with hmem1
  refine ⟨{ h with brk := h.brk + v, mem := mem1 }, (b :: cs) ++ [⟨v, false⟩], ?_, ?_, ?_, ?_, ?_⟩
  · rw [User.appendBlock]
    simp only [if_neg hne]
    rw [hhead, htail, hmod, hmem1]
  · refine ⟨?_, h'.head, ?_, hend, fun _ => h'.init hbs⟩
    · rwa [hmem1]
    · rw [extent_append, ← Nat.add_assoc, ← hbrk]
      simp
  · refine apart_append.2 ⟨hapart, isChain_singleton _, fun _ _ c hc hfree => ?_⟩
    cases hc
    exact absurd hfree.2 nofun
  · intro z c hz _ _
    have hbounds := h'.bounds hz
    refine ⟨by rw [placed_append]; exact mem_append_left _ hz, fun y hlow hhigh => ?_⟩
    obtain ⟨d, hd⟩ := lastAt_mem_placed 0 heapStart hbs
    have hnot := h'.chain.payload_not_header hz hlow hhigh hd
    have hnew : y < h.brk ∨ h.brk + headerSize ≤ y := by omega
    show mem1 y = h.mem y
    rw [hmem1, set_apply_of_far hnew, set_apply_of_far hnot, set_apply_of_far hnew,
      set_apply_of_far hnew, set_apply_of_far hnew]
  · refine ⟨h.brk, ⟨v, false⟩, rfl, by rw [placed_append, ← hbrk]; simp, rfl, hn, fun c hc => ?_⟩
    have hbounds := h'.bounds hc
    have hfits := h'.fits hc
    simp only [headerSize] at hfits
    omega

/-- `malloc` after `heap_init`, when the search has its answer. -/
lemma malloc_eq_of_rep {env : Env} (h' : Rep (heapInit h env.init) bs) (n : ℕ) :
    malloc h n env = if (heapInit h env.init).head = 0 ∨ n = 0 then some (heapInit h env.init, 0)
      else match firstFit (neededFor n) heapStart bs with
        | some block => some ({ heapInit h env.init with
            mem := User.takeBlock (heapInit h env.init).mem block (neededFor n) },
            (block + headerSize) % 2 ^ 64)
        | none =>
          match sbrk (heapInit h env.init) (expandFor (neededFor n)) env.grow with
          | none => some (heapInit h env.init, 0)
          | some (h, newBlock) => User.appendBlock h newBlock (expandFor (neededFor n)) := by
  have hfind : findFit (heapInit h env.init).mem (neededFor n) maxBlocks
    (heapInit h env.init).head =
      some (firstFit (neededFor n) heapStart bs) := by
    rw [h'.head]
    exact findFit_eq h'.chain (by decide) h'.length_lt
  rw [User.malloc]
  simp only [hfind]
  cases firstFit (neededFor n) heapStart bs <;> rfl

/-- **`malloc`** returns; it keeps the blocks in use, and gives out null or a block that is large
enough. -/
lemma Rep.malloc (h' : Rep h bs) (hapart : Apart bs) {n : ℕ} (hn : ¬ Wraps n) (env : Env) :
    ∃ h1 r bs', malloc h n env = some (h1, r) ∧ Rep h1 bs' ∧ Apart bs' ∧
      Kept none bs bs' h.mem h1.mem ∧ (r ≠ 0 → Fresh bs bs' n r) := by
  obtain ⟨bs1, h1, hapart1, hkept1⟩ := h'.heapInit hapart env.init
  obtain ⟨hneeded, hneededLt⟩ := neededFor_eq hn
  have hround : n + headerSize ≤ neededFor n := by
    rw [hneeded]
    omega
  have hleast : headerSize ≤ neededFor n := le_trans (Nat.le_add_left _ _) hround
  rw [malloc_eq_of_rep h1]
  generalize User.heapInit h env.init = g at h1 hkept1 ⊢
  split
  · exact ⟨_, _, _, rfl, h1, hapart1, hkept1, fun hr => absurd rfl hr⟩
  · rename_i hhead
    rw [not_or] at hhead
    have hbs1 : bs1 ≠ [] := by
      rintro rfl
      exact hhead.1 h1.head
    cases hfit : firstFit (neededFor n) heapStart bs1 with
    | some x =>
      obtain ⟨b, hb, hfree, hsize⟩ := firstFit_eq_some hfit
      obtain ⟨bs', h2, hapart2, hkept2, hfresh2⟩ :=
        h1.takeBlock hapart1 hb hfree hleast hsize hround
      have hbounds := h1.bounds hb
      have hlimit := h1.limit
      have hmod : (x + headerSize) % 2 ^ 64 = x + headerSize :=
        Nat.mod_eq_of_lt (by simp only [heapEnd, headerSize] at *; omega)
      refine ⟨_, _, bs', rfl, h2, hapart2, hkept1.trans hkept2, fun _ => ?_⟩
      rw [hmod]
      exact hfresh2.of_kept hkept1
    | none =>
      have hexpand : neededFor n ≤ expandFor (neededFor n) ∧
          expandFor (neededFor n) + heapEnd < 2 ^ 64 := by
        unfold expandFor
        split
        · exact ⟨le_rfl, hneededLt⟩
        · exact ⟨not_lt.1 ‹_›, by decide⟩
      have hlimit := h1.limit
      have hmod : (g.brk + expandFor (neededFor n)) % 2 ^ 64 = g.brk + expandFor (neededFor n) :=
        Nat.mod_eq_of_lt (by omega)
      simp only [sbrk, hmod]
      split
      · rename_i hnone
        exact ⟨_, _, _, rfl, h1, hapart1, hkept1, fun hr => absurd rfl hr⟩
      · rename_i h2 newBlock hsome
        split_ifs at hsome with hok
        cases hsome
        rw [not_or] at hok
        obtain ⟨h3, bs', hrun, h3', hapart3, hkept3, hfresh3⟩ := h1.appendBlock hapart1 hbs1
          (hleast.trans hexpand.1) (not_lt.1 hok.2) (hround.trans hexpand.1)
        exact ⟨h3, _, bs', hrun, h3', hapart3, hkept1.trans hkept3, fun _ => hfresh3.of_kept hkept1⟩

/-! ### Release -/

/-- What the surgery on a list of blocks keeps: they tile the same memory, no two neighbours are
free, the blocks in use stay, and only headers are written. -/
structure Relinked (a : ℕ) (bs bs' : List Block) (mem mem' : ℕ → UInt8) : Prop where
  apart : Apart bs'
  extent : extent size bs' = extent size bs
  used : ∀ x c, (x, c) ∈ placed size a bs → c.free = false →
    (x, c) ∈ placed size a bs'
  apply : ∀ y, (∀ z c, (z, c) ∈ placed size a bs → y < z ∨ z + headerSize ≤ y) →
    mem' y = mem y

lemma Relinked.refl (hapart : Apart bs) (a : ℕ) (mem : ℕ → UInt8) : Relinked a bs bs mem mem :=
  ⟨hapart, rfl, fun _ _ hx _ => hx, fun _ _ => rfl⟩

/-- Two free neighbours are joined. -/
lemma relinked_joined (mem : ℕ → UInt8) (a : ℕ) (hB : B.free = true) (hC : C.free = true)
    (hapart : Apart (C :: cs)) :
    Relinked a (B :: C :: cs) (⟨B.size + C.size, B.free⟩ :: cs) mem
      (joined mem a (B.size + C.size) (link cs (a + B.size + C.size) 0)) := by
  refine ⟨?_, ?_, ?_, ?_⟩
  · obtain ⟨hnext, hcs⟩ := apart_cons.1 hapart
    exact apart_cons.2 ⟨fun c hc hfree => hnext c hc ⟨hC, hfree.2⟩, hcs⟩
  · simp only [extent_cons, Nat.add_assoc]
  · intro x c hx hused
    simp only [placed_cons, mem_cons, Prod.mk.injEq] at hx
    obtain ⟨-, rfl⟩ | ⟨-, rfl⟩ | hx := hx
    · exact absurd (hB.symm.trans hused) nofun
    · exact absurd (hC.symm.trans hused) nofun
    · rw [placed_cons, ← Nat.add_assoc]
      exact mem_cons_of_mem _ hx
  · intro y hy
    refine joined_apply (hy a B (by simp)) fun hne => ?_
    obtain ⟨c, hc⟩ := link_mem_placed hne
    exact hy _ c (by simp [hc])

/-- `free` and the next block. -/
lemma Chain.joinNext (h : Chain mem prev a (B :: bs) 0) (ha : 0 < a) (hB : B.free = true)
    (hapart : Apart bs) (hend : a + B.size + extent size bs < 2 ^ 64) :
    ∃ C cs, C.free = true ∧ Chain (joinNext mem a) prev a (C :: cs) 0 ∧
      Relinked a (B :: bs) (C :: cs) mem (User.joinNext mem a) := by
  cases bs with
  | nil =>
    have hnext : get mem a .next = 0 := h.1.next
    have hsame : User.joinNext mem a = mem := by
      rw [User.joinNext, hnext]
      exact if_neg fun hne => hne.1 rfl
    rw [hsame]
    exact ⟨B, [], hB, h, .refl (isChain_singleton _) _ _⟩
  | cons C cs =>
    rw [extent_cons] at hend
    rw [h.joinNext_eq ha (by omega)]
    split
    · rename_i hC
      exact ⟨⟨B.size + C.size, B.free⟩, cs, hB, h.joined ha (by omega),
        relinked_joined mem a hB hC hapart⟩
    · rename_i hC
      have hfirst : ∀ c ∈ (C :: cs).head?, ¬ (B.free = true ∧ c.free = true) := by
        intro c hc hfree
        cases hc
        exact hC hfree.2
      exact ⟨B, C :: cs, hB, h, .refl (apart_cons.2 ⟨hfirst, hapart⟩) _ _⟩

/-- `free` and the block before. -/
lemma Chain.joinPrev (h : Chain mem 0 a (bs ++ C :: cs) 0) (ha : 0 < a) (hC : C.free = true)
    (hbs : Apart bs) (hcs : Apart (C :: cs))
    (hend : a + extent size (bs ++ C :: cs) < 2 ^ 64) :
    ∃ bs', Chain (joinPrev mem (a + extent size bs)) 0 a bs' 0 ∧
      Relinked a (bs ++ C :: cs) bs' mem (User.joinPrev mem (a + extent size bs)) := by
  obtain rfl | ⟨ds, B, rfl⟩ := eq_nil_or_concat' bs
  · have hprev : get mem (a + extent size []) .prev = 0 := h.1.prev
    have hsame : User.joinPrev mem (a + extent size []) = mem := by
      rw [User.joinPrev, hprev]
      exact if_neg fun hne => hne.1 rfl
    rw [hsame]
    exact ⟨C :: cs, h, .refl hcs _ _⟩
  · rw [append_assoc, singleton_append] at h hend ⊢
    obtain ⟨hds, hB⟩ := chain_append.1 h
    have hpos : 0 < a + extent size ds := by omega
    have haddr : a + extent size (ds ++ [B]) = a + extent size ds + B.size := by
      simp [Nat.add_assoc]
    have hend' : a + extent size ds + B.size + C.size < 2 ^ 64 := by
      simp only [extent_append, extent_cons] at hend
      omega
    obtain ⟨hapartDs, -, hborder⟩ := apart_append.1 hbs
    rw [haddr, hB.joinPrev_eq hpos hend']
    split
    · rename_i hfree
      have hjoin := relinked_joined mem (a + extent size ds) hfree hC hcs
      refine ⟨ds ++ ⟨B.size + C.size, B.free⟩ :: cs, chain_append.2 ⟨?_, hB.joined hpos hend'⟩,
        ⟨?_, ?_, ?_, ?_⟩⟩
      · refine hds.frame fun y _ hhigh => hjoin.apply y fun z c hz => ?_
        have := placed_bounds hz
        omega
      · refine apart_append.2 ⟨hapartDs, hjoin.apart, fun d hd c hc hboth => ?_⟩
        exact hborder d hd B rfl ⟨hboth.1, hfree⟩
      · rw [extent_append, extent_append, hjoin.extent]
      · intro x c hx hused
        rw [placed_append, mem_append] at hx ⊢
        exact hx.imp_right fun hx => hjoin.used x c hx hused
      · intro y hy
        refine hjoin.apply y fun z c hz => hy z c ?_
        rw [placed_append, mem_append]
        exact .inr hz
    · rename_i hused
      refine ⟨ds ++ B :: C :: cs, h, .refl ?_ _ _⟩
      rw [← singleton_append, ← append_assoc]
      refine apart_append.2 ⟨hbs, hcs, fun d hd c hc hboth => ?_⟩
      rw [List.getLast?_append, List.getLast?_singleton] at hd
      cases hd
      exact hused hboth.1

lemma headerOf_add (hx : x < 2 ^ 63) : headerOf (x + headerSize) = x := by
  simp only [headerOf, headerSize]
  omega

/-- **`free`** keeps the other blocks in use. -/
lemma Rep.free (h' : Rep h bs) (hapart : Apart bs) (hx : (x, b) ∈ placed size heapStart bs) :
    ∃ bs', Rep (free h (x + headerSize)) bs' ∧ Apart bs' ∧
      Kept (some x) bs bs' h.mem (free h (x + headerSize)).mem := by
  have hbounds := h'.bounds hx
  have hlimit := h'.limit
  have hfits := h'.fits hx
  have hlast : heapEnd < 2 ^ 63 := by decide
  have hstart : 0 < heapStart := by decide
  obtain ⟨cs, ds, rfl, hxeq⟩ := mem_placed_iff.1 hx
  have hhead : h.head = heapStart := by
    rw [h'.head]
    cases cs <;> rfl
  have hfree : User.free h (x + headerSize) =
      { h with mem := User.joinPrev (User.joinNext (set h.mem x .free 1) x) x } := by
    rw [User.free, if_neg, headerOf_add (by omega)]
    rw [hhead]
    omega
  have hbrk := h'.brk
  rw [extent_append, extent_cons] at hbrk
  -- the block is marked
  obtain ⟨mem1, hmem1⟩ : ∃ mem1, mem1 = set h.mem x .free 1 := ⟨_, rfl⟩
  obtain ⟨hcs, hb, hds⟩ := chain_append.1 h'.chain
  rw [← hxeq] at hcs hb hds
  have hcs1 : Chain mem1 0 heapStart cs x := by
    rw [hmem1]
    exact hcs.set_of_far (.inr hxeq.ge)
  have hb1 : Chain mem1 (lastAt 0 heapStart cs) x (⟨b.size, true⟩ :: ds) 0 := by
    rw [hmem1]
    exact ⟨hb.setFree true, hds.set_of_far (.inl (by omega))⟩
  have hall1 : Chain mem1 0 heapStart (cs ++ ⟨b.size, true⟩ :: ds) 0 := by
    rw [chain_append, ← hxeq]
    exact ⟨hcs1, hb1⟩
  -- it is joined with the next one
  obtain ⟨hapartCs, hapartDs, -⟩ := apart_append.1 hapart
  obtain ⟨C, es, hC, hC2, hnext⟩ := hb1.joinNext (by omega) rfl (apart_cons.1 hapartDs).2
    (by simp only; omega)
  set mem2 := User.joinNext mem1 x with hmem2
  have hcs2 : Chain mem2 0 heapStart cs x := by
    refine hcs1.frame fun y _ hhigh => hnext.apply y fun z c hz => ?_
    have := placed_bounds hz
    omega
  have hall2 : Chain mem2 0 heapStart (cs ++ C :: es) 0 := by
    rw [chain_append, ← hxeq]
    exact ⟨hcs2, hC2⟩
  have hextent : extent size (cs ++ C :: es) = extent size (cs ++ b :: ds) := by
    rw [extent_append, hnext.extent, extent_append]
    rfl
  -- and with the one before
  obtain ⟨bs', hall3, hprev⟩ := hall2.joinPrev hstart hC hapartCs hnext.apart
    (by rw [hextent, ← h'.brk]; omega)
  rw [← hxeq] at hall3 hprev
  rw [hfree, ← hmem1, ← hmem2]
  generalize User.joinPrev mem2 x = mem3 at hall3 hprev ⊢
  refine ⟨bs', ⟨hall3, ?_, ?_, hlimit, fun _ => h'.init (by simp)⟩, hprev.apart, ?_⟩
  · rw [hhead]
    cases bs' with
    | nil =>
      have hzero := hprev.extent
      rw [hextent, extent_nil, extent_append, extent_cons] at hzero
      simp only [headerSize] at hfits
      omega
    | cons c cs => rfl
  · rw [hprev.extent, hextent]
    exact h'.brk
  · intro z c hz hcused hne
    have hzx : x ≠ z := fun heq => hne (congrArg some heq)
    have hz1 : (z, c) ∈ placed size heapStart (cs ++ ⟨b.size, true⟩ :: ds) := by
      rw [placed_append, ← hxeq, mem_append, placed_cons, mem_cons, Prod.mk.injEq] at hz ⊢
      exact hz.imp_right fun hz => hz.imp_left fun hb => absurd hb.1.symm hzx
    have hz2 : (z, c) ∈ placed size heapStart (cs ++ C :: es) := by
      rw [placed_append, mem_append, ← hxeq] at hz1 ⊢
      exact hz1.imp_right fun hz => hnext.used z c hz hcused
    refine ⟨hprev.used z c hz2 hcused, fun y hlow hhigh => ?_⟩
    have happly3 := hprev.apply y fun w d hw => hall2.payload_not_header hz2 hlow hhigh hw
    have happly2 : mem2 y = mem1 y := by
      refine hnext.apply y fun w d hw => hall1.payload_not_header (c := d) hz1 hlow hhigh ?_
      rw [placed_append, mem_append, ← hxeq]
      exact .inr hw
    have happly1 : mem1 y = h.mem y := by
      rw [hmem1]
      exact set_apply_of_far (h'.chain.payload_not_header hz hlow hhigh hx)
    exact happly3.trans (happly2.trans happly1)

end Aurora.User
