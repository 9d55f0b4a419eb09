import Aurora.Kernel.PageMap
import Mathlib.Tactic.IntervalCases

/-!
# A small address space

A process without pages, and the one that it becomes when `map_page` gives it a page at 1 GiB.
There is enough memory to clone it. The statements about address spaces are tried out on these
two.

## Main definitions

* `bareVm`, `onePageVm`: the address space without and with a page.
* `bareVm_sharing`, `onePageVm_sharing`: they keep the invariant of address spaces.
* `Stocked.exists_clone`: the address space can be cloned.
-/

namespace Aurora.Paging

open Lib Function List Option

/-! ## A process without pages -/

/-- A process with two tables, which also has the page directory 6 of the identity mapping; the
allocator hands out frames 5, 3 and 4 and then those from 10 on. -/
def bareVm : Vm where
  mem f i :=
    if f = 1 ∧ i = 0 then structEntry 2 else if f = 2 ∧ i = 0 then structEntry 6 else {}
  state f := if f = 1 ∨ f = 2 ∨ f = 6 then .used else .free
  refCount _ := 0
  answers n := if n = 0 then some 5 else if n < 3 then some (2 + n) else some (7 + n)
  asked := 0

def bareOwner : Owner := fun f =>
  if f = 1 then some (1, []) else if f = 2 then some (1, [0]) else none

lemma bareOwner_cases {f r : ℕ} {q : List ℕ} (h : bareOwner f = some (r, q)) :
    (f = 1 ∧ r = 1 ∧ q = []) ∨ (f = 2 ∧ r = 1 ∧ q = [0]) := by
  unfold bareOwner at h
  split_ifs at h with h1 h2
  · cases h; exact .inl ⟨h1, rfl, rfl⟩
  · cases h; exact .inr ⟨h2, rfl, rfl⟩

lemma bareVm_present {f r i : ℕ} {q : List ℕ} (hf : bareOwner f = some (r, q))
    (hi : i ∈ privateIndices q) (h : (bareVm.mem f i).present = true) : f = 1 ∧ i = 0 := by
  simp only [bareVm] at h
  split_ifs at h with h1 h2
  · exact h1
  · obtain ⟨rfl, rfl⟩ := h2
    cases hf
    exact absurd hi zero_not_mem

lemma bareVm_tables : Tables bareVm bareOwner where
  depth := fun h => by
    obtain ⟨-, -, rfl⟩ | ⟨-, -, rfl⟩ := bareOwner_cases h <;> decide
  inside := fun h => by
    obtain ⟨rfl, -⟩ | ⟨rfl, -⟩ := bareOwner_cases h <;> decide
  busy := fun h => by
    obtain ⟨rfl, -⟩ | ⟨rfl, -⟩ := bareOwner_cases h <;> nofun
  rooted := fun h => by
    obtain ⟨-, rfl, -⟩ | ⟨-, rfl, -⟩ := bareOwner_cases h <;> nofun
  small := fun h _ hi hp => by
    obtain ⟨rfl, rfl⟩ := bareVm_present h hi hp
    rfl
  child := fun h _ hi ht => by
    obtain ⟨hp, -, rfl⟩ := Entry.table_eq_some.1 ht
    obtain ⟨rfl, rfl⟩ := bareVm_present h hi hp
    cases h
    rfl
  data := fun h hq hi hp => by
    obtain ⟨rfl, rfl⟩ := bareVm_present h hi hp
    cases h
    cases hq

lemma bareVm_lookup {p : List ℕ} (hp : p ∈ userPaths) : lookup bareVm.mem 1 p = none := by
  cases he : lookup bareVm.mem 1 p with
  | none => rfl
  | some e =>
    obtain ⟨_, l, g, rfl, -, hg, hl, hgl, hpres⟩ :=
      bareVm_tables.exists_of_lookup (q := []) rfl rfl hp he
    have hlen := length_of_mem_pathsFrom hp
    rw [← hgl] at hpres
    obtain ⟨rfl, rfl⟩ := bareVm_present hg hl hpres
    cases hg
    cases hlen

lemma bareVm_sharing : Sharing bareVm bareOwner [1] := by
  have hnone : ∀ k ∈ spots [1], frameAt bareVm k = none := by
    intro k hk
    obtain ⟨hr, hp⟩ := mem_spots.1 hk
    rw [frameAt, mem_singleton.1 hr, bareVm_lookup hp]
    rfl
  refine ⟨bareVm_tables, nodup_singleton 1, forall_mem_singleton.2 rfl,
    forall_mem_singleton.2 rfl, ?_, fun k hk g hg => ?_, fun g => ?_, fun k hk e he => ?_⟩
  · intro r hr f q i hf _ hi hp
    obtain ⟨rfl, rfl⟩ := bareVm_present hf hi hp
    rfl
  · simp [hnone k hk] at hg
  · rw [holders_eq_zero.2 fun k hk => by simp [hnone k hk]]
    exact Nat.zero_le _
  · obtain ⟨hr, hp⟩ := mem_spots.1 hk
    simp [mem_singleton.1 hr, bareVm_lookup hp] at he

/-! ## A process with one page -/

/-- The process with a page at 1 GiB. -/
def onePageVm (flags : Entry) : Vm :=
  ((((((bareVm.give 5).give 3).write 2 1 (structEntry 3)).give 4).write 3 0 (structEntry 4)).write
    4 0 (pteOf 5 flags)).setCount 5 2

lemma mapPage_bareVm (flags : Entry) :
    mapPage (bareVm.give 5) 1 (2 ^ 30) 5 flags = some (onePageVm flags, true) := rfl

lemma onePageVm_sharing (flags : Entry) : ∃ own, Sharing (onePageVm flags) own [1] ∧
    ∀ p ∈ userPaths, ∀ e, lookup (onePageVm flags).mem 1 p = some e →
      p = pathOf (2 ^ 30) ∧ e = pteOf 5 flags := by
  have hpath : pathOf (2 ^ 30) ∈ userPaths := pathOf_mem (by decide) (by decide)
  have hr := mem_singleton_self 1
  have hfree : bareVm.state 5 = .free := rfl
  obtain ⟨_, _, hext, ⟨-, hno⟩ | ⟨-, _, _, _, hroute, hyes⟩⟩ :=
    mapPage_cases (bareVm_sharing.give hfree) hr hpath 5 flags
  · rw [mapPage_bareVm] at hno
    cases hno
  rw [mapPage_bareVm] at hyes
  obtain ⟨own, hm⟩ := hext.setPte bareVm_sharing hfree hr hpath hroute flags
  rw [← (Prod.mk.inj (some.inj hyes)).1] at hm
  refine ⟨own, hm.sharing, fun p hp e he => ?_⟩
  by_cases hpage : p = pathOf (2 ^ 30)
  · rw [hpage, hm.entry] at he
    exact ⟨hpage, (some.inj he).symm⟩
  · have hspot : (1, p) ∈ spots [1] := mem_spots.2 ⟨hr, hp⟩
    simp [hm.others _ hspot (by simpa using hpage), hext.lookups _ hspot,
      bareVm_sharing.lookup_give hfree hspot, bareVm_lookup hp] at he

/-! ## A clone of it -/

/-- The tables above the last level are those of the process with one page. -/
def SameTables (v : Vm) : Prop := ∀ f, f < 4 → v.mem f = (onePageVm {}).mem f

lemma onePageVm_mem {f : ℕ} (hf : f < 4) (flags : Entry) (i : ℕ) : (onePageVm flags).mem f i =
    if f = 1 ∧ i = 0 then structEntry 2 else if f = 2 ∧ i = 1 then structEntry 3
    else if f = 2 ∧ i = 0 then structEntry 6 else if f = 3 ∧ i = 0 then structEntry 4
    else {} := by
  interval_cases f <;>
    simp [onePageVm, bareVm, Vm.setCount, Vm.write, setWord, Vm.give, update_apply]

lemma onePageVm_empty {f i : ℕ} (hf : f < 4) (h1 : f = 1 → i ≠ 0) (h2 : f = 2 → 1 < i)
    (h3 : f = 3 → i ≠ 0) : (onePageVm {}).mem f i = {} := by
  rw [onePageVm_mem hf, if_neg (by omega), if_neg (by omega), if_neg (by omega),
    if_neg (by omega)]

section

variable {v : Vm} {n s t : ℕ}

lemma SameTables.write (h : SameTables v) (ht : 4 ≤ t) (i : ℕ) (e : Entry) :
    SameTables (v.write t i e) := fun f hf => by
  rw [v.write_frame _ _ (by omega), h f hf]

lemma SameTables.clonePte (h : SameTables v) (hs : 4 ≤ s) (ht : 4 ≤ t) (l : ℕ) :
    SameTables (clonePte s t l v) := by
  simp only [Paging.clonePte]
  split
  · exact h.write ht _ _
  · refine SameTables.write (SameTables.write ?_ hs _ _) ht _ _
    rwa [SameTables, Vm.refInc_mem]

lemma loop_cons {body : ℕ → Vm → Option (Vm × Bool)} {i : ℕ} {is : List ℕ} {v v' : Vm}
    (h : body i v = some (v', true)) : loop body (i :: is) v = loop body is v' := by
  simp [loop, h, bind_eq_bind, bind_some]

/-- A loop over entries that are empty succeeds. -/
lemma SameTables.loop_clears (body : ℕ → Vm → Option (Vm × Bool)) (k n : ℕ)
    (h : SameTables v) (hs : s < 4) (ht : 4 ≤ t)
    (hempty : ∀ i, k ≤ i → (onePageVm {}).mem s i = {})
    (hbody : ∀ i w, w.mem s i = {} → body i w = some (w.write t i {}, true)) :
    ∃ v', loop body (range' k n) v = some (v', true) ∧ SameTables v' := by
  induction n generalizing v k with
  | zero => exact ⟨v, rfl, h⟩
  | succ n ih =>
    have hfirst := hbody k v (by rw [h s hs, hempty k le_rfl])
    obtain ⟨v', hrun, h'⟩ := ih (k + 1) (h.write ht k {}) fun i hi => hempty i (by omega)
    exact ⟨v', by rw [range'_succ, loop_cons hfirst, hrun], h'⟩

/-- Moreover, the page frames from `n` on are handed out next. -/
structure Stocked (v : Vm) (n : ℕ) : Prop where
  same : SameTables v
  free : ∀ f, n ≤ f → v.state f = .free
  answers : ∀ k, v.answers (v.asked + k) = some (n + k)

lemma Stocked.write (h : Stocked v n) (ht : 4 ≤ t) (i : ℕ) (e : Entry) :
    Stocked (v.write t i e) n :=
  ⟨h.same.write ht i e, h.free, h.answers⟩

lemma Stocked.alloc (h : Stocked v n) (hlow : 4 ≤ n) (hlt : InReach n) :
    v.allocPage = (v.give n, some n) ∧ Stocked (v.give n) (n + 1) := by
  refine ⟨?_, fun f hf => ?_, fun f hf => ?_, fun k => ?_⟩
  · have ha : v.answers v.asked = some n := h.answers 0
    have hoffer : v.offered = some n := by
      rw [Vm.offered, ha]
      exact if_pos ⟨h.free n le_rfl, hlt⟩
    rw [Vm.allocPage, hoffer]
    rfl
  · rw [v.give_frame (by omega), h.same f hf]
  · rw [v.give_state (by omega), h.free f (by omega)]
  · show v.answers (v.asked + 1 + k) = some (n + 1 + k)
    rw [Nat.add_assoc, h.answers, Nat.add_assoc]

lemma Stocked.copyKernelHalf (h : Stocked v n) (ht : 4 ≤ t) (s : ℕ) :
    Stocked (copyKernelHalf s t v) n :=
  foldlRecOn (motive := (Stocked · n)) _ _ h fun v h i _ => h.write ht i (v.mem s i)

end

/-- The page directory of the small address space is cloned. -/
lemma Stocked.clonePd {v : Vm} (h : Stocked v 12) :
    ∃ v', clonePd 11 1 (structEntry 3) v = some (v', true) ∧ SameTables v' := by
  obtain ⟨halloc, h⟩ := h.alloc (by decide) (by decide)
  replace h := h.write (by decide : 4 ≤ 11) 1 (structEntry 12)
  generalize hy : (v.give 12).write 11 1 (structEntry 12) = y at h
  obtain ⟨halloc', h'⟩ := h.alloc (by decide) (by decide)
  have hfirst : ∃ v', clonePde 3 12 0 y = some (v', true) ∧ SameTables v' := by
    have hword : y.mem 3 0 = structEntry 4 := congrFun (h.same 3 (by decide)) 0
    refine ⟨_, ?_, foldlRecOn (List.range 512) (fun v l => clonePte 4 13 l v)
      (h'.same.write (by decide : 4 ≤ 12) 0 (structEntry 13)) fun v hv l _ =>
        hv.clonePte (by decide) (by decide) l⟩
    simp [clonePde, hword, halloc', structEntry,
      physToVirt_of_inReach (by decide : InReach 4), bind_eq_bind, bind_some]
  obtain ⟨_, hv1, h1⟩ := hfirst
  obtain ⟨v₂, hv2, h2⟩ :=
    h1.loop_clears (clonePde 3 12) 1 511 (by decide : 3 < 4) (by decide : 4 ≤ 12)
    (fun i hi => onePageVm_empty (by omega) (by omega) (by omega) (by omega))
    fun i w hw => by simp [clonePde, hw]
  refine ⟨v₂, ?_, h2⟩
  simp only [Paging.clonePd, halloc, hy, physToVirt_of_inReach (by decide : InReach 3),
    show (structEntry 3).frame = 3 from rfl, bind_eq_bind, bind_some]
  rw [range_eq_range', range'_succ, loop_cons hv1, hv2]

/-- With memory from frame 10 on, the small address space can be cloned. -/
lemma Stocked.exists_clone {v : Vm} (h : Stocked v 10) :
    ∃ v', cloneCurrentPml4 v 1 = some (v', some 10) := by
  obtain ⟨halloc, h⟩ := h.alloc (by decide) (by decide)
  replace h := h.copyKernelHalf (by decide : 4 ≤ 10) 1
  generalize hv1 : Paging.copyKernelHalf 1 10 (v.give 10) = v₁ at h
  replace h := h.write (by decide : 4 ≤ 10) 0 (v₁.mem 1 0)
  have hframe : ((v₁.write 10 0 (v₁.mem 1 0)).mem 1 0).frame = 2 := by
    rw [h.same 1 (by decide)]
    rfl
  generalize hw : v₁.write 10 0 (v₁.mem 1 0) = w at h hframe
  obtain ⟨halloc_w, h⟩ := h.alloc (by decide) (by decide)
  replace h := h.write (by decide : 4 ≤ 11) 0 ((w.give 11).mem 2 0)
  generalize hx : (w.give 11).write 11 0 ((w.give 11).mem 2 0) = x at h
  obtain ⟨v₂, hv2, h2⟩ := h.clonePd
  have hfirst : clonePdpte0 2 11 1 x = some (v₂, true) := by
    have hword : x.mem 2 1 = structEntry 3 := by
      rw [h.same 2 (by decide)]
      rfl
    simp only [clonePdpte0, hword, show (structEntry 3).present = true from rfl,
      show (structEntry 3).ps = false from rfl, Bool.not_true, Bool.false_eq_true, if_false]
    exact hv2
  obtain ⟨v3, hv3, h3⟩ :=
    h2.loop_clears (clonePdpte0 2 11) 2 510 (by decide : 2 < 4) (by decide : 4 ≤ 11)
    (fun i hi => onePageVm_empty (by omega) (by omega) (by omega) (by omega))
    fun i w hw => by simp [clonePdpte0, hw]
  have hlow : cloneLow 1 10 v₁ = some (v3.write 10 0 (structEntry 11), true) := by
    unfold cloneLow
    simp only [hw, hframe, physToVirt_of_inReach (by decide : InReach 2), halloc_w, hx,
      bind_eq_bind, bind_some]
    rw [range'_succ, loop_cons hfirst, hv3]
    rfl
  -- the rest of the PML4
  obtain ⟨v', hv', -⟩ := (h3.write (by decide : 4 ≤ 10) 0 (structEntry 11)).loop_clears
    (clonePml4e 1 10) 1 255 (by decide : 1 < 4) (by decide : 4 ≤ 10)
    (fun i hi => onePageVm_empty (by omega) (by omega) (by omega) (by omega))
    fun i w hw => by simp [clonePml4e, hw]
  refine ⟨v', ?_⟩
  unfold cloneCurrentPml4
  simp [halloc, physToVirt_of_inReach (by decide : InReach 1), hv1, hlow, hv', bind_eq_bind,
    bind_some]

lemma onePageVm_stocked (flags : Entry) : Stocked (onePageVm flags) 10 := by
  refine ⟨fun f hf => ?_, fun f hf => ?_, fun n => ?_⟩
  · funext i
    rw [onePageVm_mem hf, onePageVm_mem hf]
  · show (((bareVm.give 5).give 3).give 4).state f = .free
    rw [Vm.give_state _ (by omega), Vm.give_state _ (by omega), Vm.give_state _ (by omega)]
    exact if_neg (by omega)
  · show (if 3 + n = 0 then some 5 else if 3 + n < 3 then some (2 + (3 + n)) else
      some (7 + (3 + n))) = some (10 + n)
    rw [if_neg (by omega), if_neg (by omega), ← Nat.add_assoc]

end Aurora.Paging
