import Aurora.Kernel.PageClone

/-!
# A cloned address space (`clone_current_pml4`)

When `clone_current_pml4` succeeds, parent and child map the same page frames at the same
paths, both without write permission, and each mapping has been counted once more. The first
entry of the PML4 is special: the child's PML4 holds the parent's entry while the new PDPT is
built, and is linked to it at the end.

## Main definitions

* `Forked`: what a successful clone has done.
* `cloneCurrentPml4_forked`: it has done it.
-/

namespace Aurora.Paging

open Function List Option Vm Owner

/-! ## Closure of the tables -/

variable {t i : ℕ}

lemma write_shared {v : Vm} {own : Owner} {r : ℕ} {q : List ℕ} (ht : own t = some (r, q))
    (hi : i ∉ privateIndices q) (e : Entry) {f x j : ℕ} {q' : List ℕ} (hf : own f = some (x, q'))
    (hj : j ∈ privateIndices q') : (v.write t i e).mem f j = v.mem f j := by
  by_cases hft : f = t
  · subst hft
    rw [ht] at hf
    cases hf
    refine v.write_index _ _ ?_
    rintro rfl
    exact hi hj
  · rw [v.write_frame _ _ hft]

namespace Tables

variable {v : Vm} {own : Owner}

/-- An entry that does not belong to the address space alone may be anything. -/
lemma setShared (h : Tables v own) {r : ℕ} {q : List ℕ} (ht : own t = some (r, q))
    (hi : i ∉ privateIndices q) (e : Entry) : Tables (v.write t i e) own :=
  h.of_words (write_shared ht hi e) fun hf => hf

end Tables

/-! ## The kernel half -/

variable {f : ℕ}

section KernelHalf

variable (v : Vm) (src dst : ℕ)

lemma foldl_copy (is : List ℕ) :
    (is.foldl (fun v i => v.write dst i (v.mem src i)) v).state = v.state ∧
    (is.foldl (fun v i => v.write dst i (v.mem src i)) v).refCount = v.refCount ∧
    (∀ f, f ≠ dst → (is.foldl (fun v i => v.write dst i (v.mem src i)) v).mem f = v.mem f) ∧
    ∀ i, i ∉ is → (is.foldl (fun v i => v.write dst i (v.mem src i)) v).mem dst i =
      v.mem dst i := by
  induction is generalizing v with
  | nil => exact ⟨rfl, rfl, fun _ _ => rfl, fun _ _ => rfl⟩
  | cons i is ih =>
    obtain ⟨hstate, hcount, hmem, hself⟩ := ih (v.write dst i (v.mem src i))
    refine ⟨hstate, hcount, ?_, ?_⟩
    · intro f hf
      rw [foldl_cons, hmem f hf, v.write_frame _ _ hf]
    · intro x hx
      rw [mem_cons, not_or] at hx
      rw [foldl_cons, hself x hx.2, v.write_index _ _ hx.1]

lemma copyKernelHalf_state : (copyKernelHalf src dst v).state = v.state :=
  (foldl_copy v src dst _).1

lemma copyKernelHalf_refCount : (copyKernelHalf src dst v).refCount = v.refCount :=
  (foldl_copy v src dst _).2.1

lemma copyKernelHalf_frame (hf : f ≠ dst) : (copyKernelHalf src dst v).mem f = v.mem f :=
  (foldl_copy v src dst _).2.2.1 f hf

lemma copyKernelHalf_user (hi : i ∈ privateIndices []) :
    (copyKernelHalf src dst v).mem dst i = v.mem dst i := by
  refine (foldl_copy v src dst _).2.2.2 i ?_
  rw [mem_range'_1]
  have hi : i < 256 := mem_range.1 hi
  omega

end KernelHalf

/-! ## The first entry of the PML4 -/

variable {v₁ : Vm}

section Low

variable {v : Vm} {own : Owner} {r d : ℕ}

/-- The state in which the loop over the first PDPT starts: the child's PML4 still holds the
parent's entry, and its PDPT the shared one. -/
def lowStart (v : Vm) (r d t : ℕ) : Vm :=
  ((v.write d 0 (v.mem r 0)).give t).write t 0 (v.mem (v.mem r 0).frame 0)

lemma zero_not_mem : 0 ∉ privateIndices [0] := by
  simp [privateIndices]

lemma zero_mem : 0 ∈ privateIndices [] := by
  simp [privateIndices]

section

variable (h : Tables v own) (hr : own r = some (r, [])) (h0 : (v.mem r 0).present = true)

include h hr h0

lemma first_table : (v.mem r 0).table = some (v.mem r 0).frame :=
  Entry.table_eq_some.2 ⟨h0, h.small hr (by decide) zero_mem h0, rfl⟩

lemma first_own : own (v.mem r 0).frame = some (r, [0]) :=
  h.child hr (by decide) zero_mem (first_table h hr h0)

omit hr h0 in
lemma lowStart_tables (hd : own d = none) (hbusy : v.state d ≠ .free) (hfree : v.state t = .free)
    (hlt : InReach t) : Tables (lowStart v r d t) (own.grow t d [0]) := by
  have h1 : Tables (v.write d 0 (v.mem r 0)) own :=
    h.of_owned (fun hf => v.write_frame _ _ (ne_of_none hf hd)) fun hf => hf
  exact (h1.give hfree hlt (.inr hbusy) (by decide)).setShared (grow_self ..) zero_not_mem _

omit h hr h0 in
lemma lowStart_word (v : Vm) (r d t : ℕ) (hi : i ∈ privateIndices [0]) :
    (lowStart v r d t).mem t i = {} := by
  have hi0 : i ≠ 0 := by
    rintro rfl
    exact zero_not_mem hi
  rw [lowStart, write_index _ _ _ hi0, give_blank]

lemma cloneLow_cases (hd : own d = none) (hbusy : v.state d ≠ .free) :
    cloneLow r d v = some ((v.write d 0 (v.mem r 0)).refuse.write d 0 {}, false) ∨
    ∃ t v₁ own₁ ok ps, v.state t = .free ∧ InReach t ∧
      ps.Sublist (pathsFrom 3 [0]) ∧ (ok = true → ps = pathsFrom 3 [0]) ∧
      Cloned r d [0] (v.mem r 0).frame t ps (lowStart v r d t) (own.grow t d [0]) v₁ own₁ ∧
      cloneLow r d v = if ok then some (v₁.write d 0 (structEntry t), true)
        else (freePagetableSubtree v₁ t 1).bind fun v => some (v.write d 0 {}, false) := by
  have hs := first_own h hr h0
  have hrd := ne_of_none hr hd
  have hsd := ne_of_none hs hd
  unfold cloneLow
  simp only [v.write_frame 0 (v.mem r 0) hrd, physToVirt_of_inReach (h.inside hs), bind_eq_bind,
    bind_some]
  obtain hno | ⟨t, hfree, hlt, hyes⟩ := (v.write d 0 (v.mem r 0)).allocPage_cases
  · rw [hno]
    exact .inl rfl
  · refine .inr ?_
    rw [hyes]
    have hst : (v.mem r 0).frame ≠ t := h.ne_of_free hfree hs
    have hword : ((v.write d 0 (v.mem r 0)).give t).mem (v.mem r 0).frame 0 =
        v.mem (v.mem r 0).frame 0 := by
      rw [give_frame _ hst, v.write_frame _ _ hsd]
    obtain ⟨v₁, own₁, ok, ps, hrun, hsub, hall, -, hc⟩ := loop_clones_all (s := (v.mem r 0).frame)
      (clonePdpte0_clones (q := [0]) hrd rfl) (lowStart_tables (r := r) h hd hbusy hfree hlt)
      (by rw [own.grow_of_ne _ _ hst, hs]) (grow_self ..)
      fun p hp => lookup_of_blank (fun i hi => lowStart_word v r d t hi) hp
    refine ⟨t, v₁, own₁, ok, ps, hfree, hlt, hsub, hall, hc, ?_⟩
    simp only [hword]
    have hloop : loop (clonePdpte0 (v.mem r 0).frame t) (range' 1 511)
        (((v.write d 0 (v.mem r 0)).give t).write t 0 (v.mem (v.mem r 0).frame 0)) =
        some (v₁, ok) := hrun
    rw [hloop]
    cases ok <;> rfl

end

/-- What the loop below does not touch may be added to the tables: a root, whose first entry is
then linked. -/
lemma Cloned.addRoot {s : ℕ} {w : Vm} {ownS own₁ : Owner} {ps : List (List ℕ)}
    (hc : Cloned r d [0] s t ps w ownS v₁ own₁) (hw : Tables w ownS) (hrd : r ≠ d)
    (hd : ownS d = none) (hbusy : w.state d ≠ .free) (hlt : InReach d)
    (hmap : NotMapped w ownS d) (hs : ownS s = some (r, [0])) (ht : ownS t = some (d, [0]))
    (hrest : ∀ i ∈ privateIndices [], i ≠ 0 → w.mem d i = {}) (hps : ps ⊆ pathsFrom 3 [0]) :
    Cloned r d [0] s t ps (w.write d 0 (structEntry t)) (ownS.grow d d [])
      (v₁.write d 0 (structEntry t)) (own₁.grow d d []) := by
  have hd1 : own₁ d = none := by rw [hc.kept d hbusy, hd]
  have hroot : v₁.mem d = w.mem d := hc.outer d hbusy fun q' _ => by
    rw [hd]
    exact ⟨nofun, nofun⟩
  have hroot' : (v₁.write d 0 (structEntry t)).mem d = (w.write d 0 (structEntry t)).mem d := by
    simp [write, setWord, hroot]
  have hmem : ∀ {u : Vm} {f}, f ≠ d → (u.write d 0 (structEntry t)).mem f = u.mem f :=
    fun {u} _ hf => u.write_frame _ _ hf
  have hgrow : ∀ {o : Owner} {f}, f ≠ d → o.grow d d [] f = o f :=
    fun {o} _ hf => o.grow_of_ne _ _ hf
  have hback : ∀ {f}, own₁.grow d d [] f = ownS.grow d d [] f → own₁ f = ownS f := by
    intro f hf
    by_cases hfd : f = d
    · rw [hfd, hd1, hd]
    · rwa [hgrow hfd, hgrow hfd] at hf
  have hne : ∀ {f x}, ownS f = some x → f ≠ d := fun hf => ne_of_none hf hd
  have hne1 : ∀ {f x}, own₁ f = some x → f ≠ d := fun hf => ne_of_none hf hd1
  -- the paths below do not lead through the root
  have hlookup : ∀ {f x}, ownS f = some (x, [0]) → ∀ p ∈ pathsFrom 3 [0],
      lookup (w.write d 0 (structEntry t)).mem f p = lookup w.mem f p := fun hf p hp =>
    hw.lookup_congr hf rfl hp fun q' i g _ _ hg => by rw [hmem (hne hg)]
  have hlookup1 : ∀ {f x}, ownS f = some (x, [0]) → ∀ p ∈ pathsFrom 3 [0],
      lookup (v₁.write d 0 (structEntry t)).mem f p = lookup v₁.mem f p := fun hf p hp =>
    hc.tables.lookup_congr (hc.own_of_own hw hf) rfl hp fun q' i g _ _ hg => by rw [hmem (hne1 hg)]
  refine ⟨?_, ?_, ?_, ?_, ?_, ?_, ?_, ?_, ?_, ?_, ?_, ?_, ?_, ?_⟩
  · -- an empty root, and then the link
    have h1 : Tables (v₁.write d 0 {}) own₁ :=
      hc.tables.of_owned (fun hf => v₁.write_frame _ _ (hne1 hf)) fun hf => hf
    have h2 : Tables (v₁.write d 0 {}) (own₁.grow d d []) := by
      refine h1.grow hd1 hlt (hc.busy hbusy) (hc.busy hbusy) (by decide) ?_ fun i hi => ?_
      · intro f x q i hf hq hi
        rw [v₁.write_frame _ _ (hne1 hf)]
        exact hc.notMapped d hmap f x q i hf hq hi
      · by_cases hi0 : i = 0
        · rw [hi0, write_self]
        · rw [write_index _ _ _ hi0, hroot, hrest i hi hi0]
    have hlink := h2.link (i := 0) (grow_self ..) (by decide)
      ((hgrow (hne ht)).trans (hc.own_of_own hw ht))
    rwa [write_write] at hlink
  · intro p hp
    rw [hlookup1 hs p (hps hp), hlookup hs p (hps hp), hc.src p hp]
  · intro p hp hnot
    rw [hlookup1 hs p hp, hlookup hs p hp, hc.srcElse p hp hnot]
  · intro p hp
    rw [hlookup1 ht p (hps hp), hlookup hs p (hps hp), hc.dst p hp]
  · intro p hp hnot
    rw [hlookup1 ht p hp, hlookup ht p hp, hc.dstElse p hp hnot]
  · intro f hf hout
    by_cases hfd : f = d
    · rw [hfd, hroot']
    · rw [hmem hfd, hmem hfd, hc.outer f hf (by rwa [hgrow hfd] at hout)]
  · intro f q' hf hq'
    have hfd : f ≠ d := ne_of_root hf (grow_self ..) hrd
    rw [hmem hfd, hmem hfd, hc.stem f q' (by rwa [hgrow hfd] at hf) hq']
  · intro f x q' i hf hi
    by_cases hfd : f = d
    · rw [hfd, hroot']
    · rw [hmem hfd, hmem hfd, hc.shared f x q' i (by rwa [hgrow hfd] at hf) hi]
  · intro hplain f q i hf hq hi hu
    by_cases hfd : f = d
    · subst hfd
      rw [hroot'] at hu ⊢
      rw [grow_self] at hf
      cases hf
      exact hplain f [] i (grow_self ..) hq hi hu
    rw [hgrow hfd] at hf
    rw [hmem hfd] at hu ⊢
    refine hc.plain ?_ f q i hf hq hi hu
    intro g q' y hg
    rw [← hmem (hne hg)]
    exact hplain g q' y (by rw [hgrow (hne hg), hg])
  · intro e hmap' f x q i hf hq hi hp
    have hfd : f ≠ d := ne_of_level hf (grow_self ..) (by rw [hq]; decide)
    rw [hgrow hfd] at hf
    rw [hmem hfd] at hp ⊢
    refine hc.notMapped e ?_ f x q i hf hq hi hp
    intro g y q' z hg
    rw [← hmem (hne hg)]
    exact hmap' g y q' z (by rw [hgrow (hne hg), hg])
  · intro f hf
    by_cases hfd : f = d
    · rw [hfd, grow_self, grow_self]
    · rw [hgrow hfd, hgrow hfd, hc.kept f hf]
  · exact fun f hf => hc.state f (hback hf)
  · intro f hf
    have hfd : f ≠ d := by
      rintro rfl
      rw [grow_self, grow_self] at hf
      exact hf rfl
    rw [hgrow hfd, hgrow hfd] at hf
    rw [hgrow hfd]
    exact hc.grown f hf
  · intro g hg hin
    rw [write_refCount, write_refCount, hc.count g (hback hg) hin]
    exact congrArg _ (uses_congr fun p hp => by rw [hlookup hs p (hps hp)])

/-- The low part as a part of cloning the PML4: the loop over the first PDPT, then the link. -/
lemma lowCloned {own₁ : Owner} {ps : List (List ℕ)} (h : Tables v (own.grow d d []))
    (hd : own d = none) (h₀ : Tables v own) (hr : own r = some (r, []))
    (h0 : (v.mem r 0).present = true) (hrd : r ≠ d)
    (hblank : ∀ i ∈ privateIndices [], v.mem d i = {}) (hfree : v.state t = .free)
    (hlt : InReach t) (hps : ps ⊆ pathsFrom 3 [0])
    (hc : Cloned r d [0] (v.mem r 0).frame t ps (lowStart v r d t) (own.grow t d [0]) v₁ own₁) :
    Cloned r d [] r d (ps.map (0 :: ·)) v (own.grow d d []) (v₁.write d 0 (structEntry t))
      (own₁.grow d d []) := by
  have hroot : own.grow d d [] d = some (d, []) := grow_self ..
  have hbusy := h.busy hroot
  have hdt : d ≠ t := h.ne_of_free hfree hroot
  have hs := first_own h₀ hr h0
  have hmem : ∀ {g}, g ≠ d → g ≠ t → (lowStart v r d t).mem g = v.mem g := by
    intro g hgd hgt
    rw [lowStart, write_frame _ _ _ hgt, give_frame _ hgt, v.write_frame _ _ hgd]
  have hother : ∀ {i}, i ≠ 0 → (lowStart v r d t).mem d i = v.mem d i := by
    intro i hi
    rw [lowStart, write_frame _ _ _ hdt, give_frame _ hdt, v.write_index _ _ hi]
  have hstate : ∀ {g}, g ≠ t → (lowStart v r d t).state g = v.state g := by
    intro g hg
    rw [lowStart, write_state, give_state _ hg, write_state]
  have he : Entered d [] d 0 t v (own.grow d d [])
      ((lowStart v r d t).write d 0 (structEntry t)) ((own.grow t d [0]).grow d d []) :=
    { fresh := hfree
      mem := fun hgd hgt => by rw [write_frame _ _ _ hgd, hmem hgd hgt]
      other := fun hx => by rw [write_index _ _ _ hx, hother hx]
      entry := write_self ..
      blank := fun x hx => by rw [write_frame _ _ _ hdt.symm, lowStart_word v r d t hx]
      state := hstate
      used := give_used ..
      count := give_refCount _
      own_eq := update_comm hdt.symm .. }
  refine Cloned.descend h hrd (by rw [own.grow_of_ne _ _ hrd, hr]) hroot (by decide) zero_mem
    (first_table h₀ hr h0) he (fun p _ => lookup_cons_blank (hblank 0 zero_mem) p) hps ?_
  refine hc.addRoot (lowStart_tables h₀ hd hbusy hfree hlt) hrd ?_ ?_ (h.inside hroot) ?_ ?_
    (grow_self ..) (fun i hi hi0 => by rw [hother hi0, hblank i hi]) hps
  · rw [own.grow_of_ne _ _ hdt, hd]
  · rwa [hstate hdt]
  · intro f x q i hf hq hi hp hfr
    have hft : f ≠ t := ne_of_level hf (grow_self ..) (by rw [hq]; decide)
    rw [own.grow_of_ne _ _ hft] at hf
    have hfd := ne_of_none hf hd
    rw [hmem hfd hft] at hp hfr
    have hdata := (h.data (by rw [own.grow_of_ne _ _ hfd, hf]) hq hi hp).1
    simp [hfr] at hdata
  · rw [own.grow_of_ne _ _ (h₀.ne_of_free hfree hs), hs]

end Low

/-! ## The whole clone -/

/-- The address space `r'` is a clone of `r`. -/
structure Forked (r r' : ℕ) (v : Vm) (own : Owner) (v' : Vm) (own' : Owner) : Prop where
  tables : Tables v' own'
  fresh : v.state r' = .free
  root : own' r' = some (r', [])
  first : (v'.mem r' 0).present = true
  plain : Plain v' own' r'
  parent : ∀ p ∈ userPaths, lookup v'.mem r p = (lookup v.mem r p).map Entry.cow
  child : ∀ p ∈ userPaths, lookup v'.mem r' p = (lookup v.mem r p).map Entry.cow
  outer : ∀ f, v.state f ≠ .free → (∀ q, own f ≠ some (r, q)) → v'.mem f = v.mem f
  stem : ∀ f q, own f = some (r, q) → q.length < 3 → v'.mem f = v.mem f
  low : v'.mem (v'.mem r' 0).frame 0 = v.mem (v.mem r 0).frame 0
  kept : ∀ f, v.state f ≠ .free → own' f = own f
  state : ∀ f, own' f = own f → v'.state f = v.state f
  grown : ∀ f, own' f ≠ own f → v'.state f = .used ∧ ∃ q, own' f = some (r', q)
  count : ∀ g, own' g = own g → v.state g ≠ .outside → v'.refCount g =
    v.refCount g + uses v.mem r userPaths g

lemma userPaths_eq :
    userPaths = (pathsFrom 3 [0]).map (0 :: ·) ++ pathsVia 3 [] (range' 1 255) := by
  have hindices : privateIndices [] = 0 :: range' 1 255 := by
    rw [privateIndices, if_pos rfl, range_eq_range', range'_succ]
  rw [userPaths, pathsFrom_succ, hindices, pathsVia_cons]
  rfl

section Whole

variable {v : Vm} {own : Owner} {r d : ℕ}

/-- The PML4 `d` of the child has been allocated, and the kernel half copied. -/
structure Started (d : ℕ) (v : Vm) (own : Owner) (v₁ : Vm) : Prop where
  fresh : v.state d = .free
  inside : InReach d
  mem : ∀ {f}, f ≠ d → v₁.mem f = v.mem f
  state : ∀ {f}, f ≠ d → v₁.state f = v.state f
  count : ∀ {f}, f ≠ d → v₁.refCount f = v.refCount f
  used : v₁.state d = .used
  blank : ∀ i ∈ privateIndices [], v₁.mem d i = {}
  tables : Tables v₁ (own.grow d d [])

lemma Started.of_alloc (h : Tables v own) (hfree : v.state d = .free)
    (hlt : InReach d) : Started d v own (copyKernelHalf r d (v.give d)) where
  fresh := hfree
  inside := hlt
  mem := fun hf => by rw [copyKernelHalf_frame _ _ _ hf, v.give_frame hf]
  state := fun hf => by rw [copyKernelHalf_state, v.give_state hf]
  count := fun hf => by rw [copyKernelHalf_refCount, v.give_refCount hf]
  used := by rw [copyKernelHalf_state, v.give_used]
  blank := fun i hi => by rw [copyKernelHalf_user _ _ _ hi, v.give_blank]
  tables := by
    refine (h.give hfree hlt (.inl rfl) (by decide)).of_words ?_ ?_
    · intro f x q i hf hi
      by_cases hfd : f = d
      · subst hfd
        rw [grow_self] at hf
        cases hf
        exact copyKernelHalf_user _ _ _ hi
      · rw [copyKernelHalf_frame _ _ _ hfd]
    · intro f hf
      rwa [copyKernelHalf_state]

namespace Started

variable {v₁ : Vm}

section

variable (hs : Started d v own v₁) (h : Tables v own)

include hs h

omit h in
lemma ne_of_busy (hf : v.state f ≠ .free) : f ≠ d := by
  rintro rfl
  exact hf hs.fresh

lemma ne_of_owned {x : ℕ × List ℕ} (hf : own f = some x) : f ≠ d := hs.ne_of_busy (h.busy hf)

lemma own_eq_none : own d = none :=
  h.own_eq_none hs.fresh

lemma owned {x : ℕ × List ℕ} (hf : own f = some x) : own.grow d d [] f = some x := by
  rw [own.grow_of_ne _ _ (hs.ne_of_owned h hf), hf]

lemma lookup_eq (hr : own r = some (r, [])) {p : List ℕ} (hp : p ∈ userPaths) :
    lookup v₁.mem r p = lookup v.mem r p :=
  h.lookup_congr hr rfl hp fun _ _ _ _ _ hg => by rw [hs.mem (hs.ne_of_owned h hg)]

end

end Started

/-- The loop over the other entries of the PML4. -/
lemma pml4_clones (h : Tables v own) (hr : own r = some (r, [])) (hd : own d = some (d, []))
    (hrd : r ≠ d) (hblank : ∀ i ∈ privateIndices [], i ≠ 0 → v.mem d i = {}) :
    Clones r d [] r d (range' 1 255) (pathsVia 3 [] (range' 1 255)) v own
      (loop (clonePml4e r d) (range' 1 255) v) := by
  have hmem : ∀ {i}, i ∈ range' 1 255 → i ∈ privateIndices [] ∧ i ≠ 0 := by
    intro i hi
    rw [mem_range'_1] at hi
    exact ⟨by simpa [privateIndices] using hi.2, by omega⟩
  refine loop_clones (by decide) ?_ nodup_range' (fun i hi => (hmem hi).1) h hr hd ?_
  · exact fun i hi => clonePml4e_clones hrd (hmem hi).1 (hmem hi).2
  · intro p hp
    obtain ⟨i, hi, p', -, rfl⟩ := mem_pathsVia.1 hp
    exact lookup_cons_blank (hblank i (hmem hi).1 (hmem hi).2) p'

/-- There was no memory for the first PDPT; the empty PML4 is freed. -/
def LowRefused (d : ℕ) (v₁ : Vm) (result : Option (Vm × Option ℕ)) : Prop :=
  ∃ w : Vm, (∀ f, f ≠ d → w.mem f = v₁.mem f) ∧ (∀ i ∈ privateIndices [], w.mem d i = {}) ∧
    w.state = v₁.state ∧ w.refCount = v₁.refCount ∧
    result = (freePagetable w d).bind fun v => some (v, none)

/-- The loop over the first PDPT has failed: what has been cloned is freed, then the PML4, which
is not linked to it. -/
def LowFailed (r d : ℕ) (v₁ : Vm) (own₁ : Owner) (result : Option (Vm × Option ℕ)) : Prop :=
  ∃ (t : ℕ) (v₂ : Vm) (own₂ : Owner) (ps : List (List ℕ)), ps.Sublist (pathsFrom 3 [0]) ∧
    Tables v₂ own₂ ∧ own₂ t = some (d, [0]) ∧ own₂ d = none ∧
    (∀ i ∈ privateIndices [], i ≠ 0 → v₂.mem d i = {}) ∧
    Cloned r d [] r d (ps.map (0 :: ·)) v₁ own₁ (v₂.write d 0 (structEntry t))
      (own₂.grow d d []) ∧
    result = (freePagetableSubtree v₂ t 1).bind fun v =>
      (freePagetable (v.write d 0 {}) d).bind fun v => some (v, none)

/-- The loop over the rest of the PML4 has ended; what has been cloned is freed if it failed. -/
def Reached (r d : ℕ) (v₁ : Vm) (own₁ : Owner) (result : Option (Vm × Option ℕ)) : Prop :=
  ∃ (t : ℕ) (v₂ : Vm) (own₂ : Owner) (ok : Bool) (ps : List (List ℕ)), ps.Sublist userPaths ∧
    (ok = true → ps = userPaths) ∧ Cloned r d [] r d ps v₁ own₁ v₂ own₂ ∧
    v₂.mem d 0 = structEntry t ∧
    v₂.mem t 0 = v₁.mem (v₁.mem r 0).frame 0 ∧
    result = if ok then some (v₂, some d) else (freePagetable v₂ d).bind fun v => some (v, none)

section

variable (h : Tables v own) (hr : own r = some (r, [])) (h0 : (v.mem r 0).present = true)

include h hr h0

/-- How `clone_current_pml4` ends. -/
lemma cloneCurrentPml4_cases : cloneCurrentPml4 v r = some (v.refuse, none) ∨
    ∃ d v₁, Started d v own v₁ ∧ (LowRefused d v₁ (cloneCurrentPml4 v r) ∨
      LowFailed r d v₁ (own.grow d d []) (cloneCurrentPml4 v r) ∨
      Reached r d v₁ (own.grow d d []) (cloneCurrentPml4 v r)) := by
  unfold cloneCurrentPml4
  obtain hno | ⟨d, hfree, hlt, hyes⟩ := v.allocPage_cases
  · rw [hno]
    exact .inl rfl
  rw [hyes]
  simp only [physToVirt_of_inReach (h.inside hr), bind_eq_bind, bind_some]
  have hs := Started.of_alloc (r := r) h hfree hlt
  obtain ⟨v₁, hv1⟩ : ∃ v₁, v₁ = copyKernelHalf r d (v.give d) := ⟨_, rfl⟩
  rw [← hv1] at hs ⊢
  refine .inr ⟨d, v₁, hs, ?_⟩
  have hnone := hs.own_eq_none h
  have hrd := hs.ne_of_owned h hr
  have hr1 := hs.owned h hr
  have hd1 : own.grow d d [] d = some (d, []) := grow_self ..
  have h₀ : Tables v₁ own := h.of_owned (fun hf => hs.mem (hs.ne_of_owned h hf)) fun hf => by
    rwa [hs.state (hs.ne_of_busy hf)]
  have h01 : (v₁.mem r 0).present = true := by rwa [hs.mem hrd]
  obtain hlow | ⟨t, v₂, own₂, ok, ps, htfree, htlt, hsub, hall, hc, hlow⟩ :=
    cloneLow_cases h₀ hr h01 hnone (by rw [hs.used]; decide)
  · rw [hlow]
    refine .inl ⟨_, ?_, ?_, ?_, ?_, rfl⟩
    · intro f hf
      rw [write_frame _ _ _ hf]
      exact v₁.write_frame _ _ hf
    · intro i hi
      by_cases hi0 : i = 0
      · subst hi0
        rw [write_self]
      · rw [write_index _ _ _ hi0]
        exact (v₁.write_index _ _ hi0).trans (hs.blank i hi)
    · rfl
    · rfl
  have htd : t ≠ d := by
    rintro rfl
    simp [hs.used] at htfree
  have hdstart : (lowStart v₁ r d t).state d ≠ .free := by
    rw [lowStart, write_state, give_state _ htd.symm, write_state, hs.used]
    decide
  have hd2 : own₂ d = none := by
    rw [hc.kept d hdstart, own.grow_of_ne _ _ htd.symm, hnone]
  have ht2 : own₂ t = some (d, [0]) := by
    rw [hc.kept t, grow_self]
    rw [lowStart, write_state, give_used]
    decide
  have hblank2 : ∀ i ∈ privateIndices [], i ≠ 0 → v₂.mem d i = {} := by
    intro i hi hi0
    have hdv2 : v₂.mem d = (lowStart v₁ r d t).mem d := by
      refine hc.outer d hdstart fun q' _ => ?_
      rw [own.grow_of_ne _ _ htd.symm, hnone]
      exact ⟨by simp, by simp⟩
    rw [hdv2, lowStart, write_frame _ _ _ htd.symm, give_frame _ htd.symm,
      write_index _ _ _ hi0, hs.blank i hi]
  have hlowc := lowCloned hs.tables hnone h₀ hr h01 hrd hs.blank htfree htlt hsub.subset hc
  rw [hlow]
  cases ok with
  | false =>
    refine .inr (.inl ⟨t, v₂, own₂, ps, hsub, hc.tables, ht2, hd2, hblank2, hlowc, ?_⟩)
    cases freePagetableSubtree v₂ t 1 <;> rfl
  | true =>
  have hps := hall rfl
  rw [hps] at hlowc
  set v3 := v₂.write d 0 (structEntry t) with hv3
  have hblank3 : ∀ i ∈ privateIndices [], i ≠ 0 → v3.mem d i = {} := by
    intro i hi hi0
    rw [hv3, write_index _ _ _ hi0, hblank2 i hi hi0]
  obtain ⟨v4, own4, ok, ps', hloop, hsub', hall', hrest, hc'⟩ :=
    pml4_clones hlowc.tables (hlowc.own_of_own hs.tables hr1) (hlowc.own_of_own hs.tables hd1)
      hrd hblank3
  have hsubLow : (pathsFrom 3 [0]).map (0 :: ·) ⊆ pathsFrom (4 - ([] : List ℕ).length) [] := by
    intro p hp
    exact (userPaths_eq ▸ mem_append_left _ hp : p ∈ userPaths)
  have hsubHigh : pathsVia 3 [] (range' 1 255) ⊆ pathsFrom (4 - ([] : List ℕ).length) [] := by
    intro p hp
    exact (userPaths_eq ▸ mem_append_right _ hp : p ∈ userPaths)
  have hdis : ((pathsFrom 3 [0]).map (0 :: ·)).Disjoint (pathsVia 3 [] (range' 1 255)) := by
    have := nodup_pathsFrom 4 []
    rw [← userPaths, userPaths_eq] at this
    exact disjoint_of_nodup_append this
  have hwhole := hlowc.append hs.tables hc' hsubLow (fun p hp => hsubHigh (hsub'.subset hp))
    fun p hp hp' => hdis hp (hsub'.subset hp')
  refine .inr (.inr ⟨t, v4, own4, ok, (pathsFrom 3 [0]).map (0 :: ·) ++ ps', ?_, ?_, hwhole,
    ?_, ?_, ?_⟩)
  · rw [userPaths_eq]
    exact hsub'.append_left _
  · intro hok
    rw [hall' hok, userPaths_eq]
  · -- the second loop does not write the first entry of the child
    rw [hrest 0 (by simp), hv3, write_self]
  · have htow : own₂.grow d d [] t = some (d, [0]) := by rw [grow_of_ne _ _ _ htd, ht2]
    rw [hc'.shared t d [0] 0 htow zero_not_mem, hv3, write_frame _ _ _ htd,
      hc.shared t d [0] 0 (grow_self ..) zero_not_mem, lowStart, write_self]
  · simp [bind_some, hloop]

/-- **A successful clone.** -/
lemma Reached.forked {v' : Vm} {r' : ℕ} (hs : Started d v own v₁)
    (hrun : Reached r d v₁ (own.grow d d []) (some (v', some r'))) :
    ∃ own', Forked r r' v own v' own' := by
  obtain ⟨t, v4, own4, ok, _, -, hall, hwhole, hfirst, hshared, hrun⟩ := hrun
  cases ok with
  | false =>
    obtain ⟨w, -, hw⟩ := bind_eq_some_iff.1 hrun.symm
    cases hw
  | true =>
  obtain ⟨rfl, rfl⟩ : v' = v4 ∧ r' = d := by simpa using hrun
  have hps := hall rfl
  rw [hps] at hwhole
  have hd1 : own.grow r' r' [] r' = some (r', []) := grow_self ..
  have hnone := hs.own_eq_none h
  have hroot := hwhole.own_of_own hs.tables hd1
  refine ⟨own4, hwhole.tables, hs.fresh, hroot, by rw [hfirst]; rfl, hwhole.plain ?_, ?_, ?_, ?_,
    ?_, ?_, ?_, ?_, ?_, ?_⟩
  · intro f q i hf hq hi hu
    by_cases hfd : f = r'
    · subst hfd
      rw [hd1] at hf
      cases hf
      simp [hs.blank i hi] at hu
    · -- the child has no other table yet
      rw [own.grow_of_ne _ _ hfd] at hf
      exact absurd hs.fresh (h.rooted hf)
  · intro p hp
    rw [hwhole.src p hp, hs.lookup_eq h hr hp]
  · intro p hp
    rw [hwhole.dst p hp, hs.lookup_eq h hr hp]
  · intro f hf hout
    have hfd := hs.ne_of_busy hf
    rw [hwhole.outer f (by rwa [hs.state hfd]), hs.mem hfd]
    intro q' _
    rw [own.grow_of_ne _ _ hfd]
    exact ⟨hout q', fun hfd' => h.rooted hfd' hs.fresh⟩
  · intro f q hf hq
    rw [hwhole.stem f q (hs.owned h hf) hq, hs.mem (hs.ne_of_owned h hf)]
  · have hpdpt := first_own h hr h0
    rw [hfirst]
    show v'.mem t 0 = _
    rw [hshared, hs.mem (hs.ne_of_owned h hr), hs.mem (hs.ne_of_owned h hpdpt)]
  · intro f hf
    have hfd := hs.ne_of_busy hf
    rw [hwhole.kept f (by rwa [hs.state hfd]), own.grow_of_ne _ _ hfd]
  · intro f hf
    have hfd : f ≠ r' := by
      rintro rfl
      simp [hroot, hnone] at hf
    rw [hwhole.state f (by rw [hf, own.grow_of_ne _ _ hfd]), hs.state hfd]
  · intro f hf
    by_cases hfd : f = r'
    · subst hfd
      exact ⟨by rw [hwhole.state f (by rw [hroot, hd1]), hs.used], [], hroot⟩
    · obtain ⟨hused', q', -, hq'⟩ := hwhole.grown f (by rwa [own.grow_of_ne _ _ hfd])
      exact ⟨hused', q', hq'⟩
  · intro g hg _
    have hgd : g ≠ r' := by
      rintro rfl
      simp [hroot, hnone] at hg
    rw [hwhole.count g (by rw [hg, own.grow_of_ne _ _ hgd]) (by rwa [hs.state hgd]), hs.count hgd]
    exact congrArg _ (uses_congr fun p hp => by rw [hs.lookup_eq h hr hp])

/-- A clone that returns a page table has cloned everything. -/
lemma cloneCurrentPml4_forked {v' : Vm} {r' : ℕ}
    (hrun : cloneCurrentPml4 v r = some (v', some r')) : ∃ own', Forked r r' v own v' own' := by
  obtain hno | ⟨d, _, hs, hcases⟩ := cloneCurrentPml4_cases h hr h0
  · simp [hno] at hrun
  rw [hrun] at hcases
  obtain ⟨w, -, -, -, -, hfail⟩ | ⟨t, w, _, _, -, -, -, -, -, -, hfail⟩ | hreached := hcases
  · obtain ⟨u, -, hu⟩ := bind_eq_some_iff.1 hfail.symm
    cases hu
  · obtain ⟨u, -, hu⟩ := bind_eq_some_iff.1 hfail.symm
    obtain ⟨_, -, hu'⟩ := bind_eq_some_iff.1 hu
    cases hu'
  · exact hreached.forked h hr h0 hs

end

end Whole

end Aurora.Paging
