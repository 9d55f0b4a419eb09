import Aurora.Kernel.PageRuns

/-!
# Copy-on-write refines eager copying

After `clone_current_pml4` parent and child share their pages, and a page is copied when one of
them writes to it. Nobody can see this: what a process loads is what it would load if every
clone had copied every page at once. In that abstract machine each process has its own pages,
and a store changes a page of one process.

## Main definitions

* `Eager`: processes with pages of their own.
* `Op`, `cowStep`, `eagerStep`: clones and stores, in both machines.
* `Mirrors`: the memory shows what the abstract machine holds.
* `mapPages`: the first process gets its pages.
* `cow_refines_eager`: the refinement.
-/

namespace Aurora.Paging

open Lib Function List Option

/-! ## Eager copying -/

/-- Processes with pages of their own. A page may be for user mode and may be writable; the
entries of the top-level table have permissions, too (user mode, writing). -/
structure Eager where
  page : ℕ → List ℕ → Option (ℕ → Entry)
  user : ℕ → List ℕ → Bool
  rw : ℕ → List ℕ → Bool
  gate : ℕ → ℕ → Bool × Bool

namespace Eager

variable (E : Eager)

/-- The child gets a copy of every page, behind entries that permit everything. -/
def fork (x r : ℕ) : Eager where
  page := Function.update E.page r (E.page x)
  user := Function.update E.user r (E.user x)
  rw := Function.update E.rw r (E.rw x)
  gate := Function.update E.gate r fun _ => (true, true)

/-- The word that a process loads. -/
def load (x va : ℕ) : Option Entry :=
  if (E.gate x (pml4Idx va)).1 && E.user x (pathOf va) then
    (E.page x (pathOf va)).map fun page => page (va % 4096 / 8)
  else none

/-- Whether a process may store at an address. -/
def permits (x va : ℕ) : Bool :=
  (E.page x (pathOf va)).isSome && (E.gate x (pml4Idx va)).1 && E.user x (pathOf va) &&
    (E.gate x (pml4Idx va)).2 && E.rw x (pathOf va)

/-- A store, which changes one page of one process. -/
def store (x va : ℕ) (w : Entry) : Eager :=
  if E.permits x va then
    { E with page := Function.update E.page x (Function.update (E.page x) (pathOf va)
        ((E.page x (pathOf va)).map fun page => Function.update page (va % 4096 / 8) w)) }
  else E

/-- The pages of a memory. -/
def of (v : Vm) : Eager where
  page x p := pageAt v (x, p)
  user x p := (lookup v.mem x p).any Entry.user
  rw x p := (lookup v.mem x p).any Entry.rw
  gate x i := ((v.mem x i).user, (v.mem x i).rw)

end Eager

/-- A clone, which makes a process with a given page table, or a store. -/
inductive Op where
  | fork (x r : ℕ)
  | store (x va : ℕ) (w : Entry)
  deriving DecidableEq, Repr

def eagerStep (E : Eager) : Op → Eager
  | .fork x r => E.fork x r
  | .store x va w => E.store x va w

/-- The operation, if there is memory for it and the address may be written to. -/
def cowStep (s : Processes) : Op → Option Processes
  | .fork x r =>
    if x ∈ s.procs then
      match cloneCurrentPml4 s.vm x with
      | some (v, some r') => if r' = r then some ⟨v, r :: s.procs⟩ else none
      | _ => none
    else none
  | .store x va w =>
    if x ∈ s.procs ∧ 2 ^ 30 ≤ va ∧ va < 2 ^ 47 then
      (userStore s.vm x va w).map fun v => ⟨v, s.procs⟩
    else none

/-! ## The relation -/

/-- Between the top level and the last, tables permit everything. -/
def Trunk (v : Vm) (own : Owner) (procs : List ℕ) : Prop :=
  ∀ x ∈ procs, ∀ f q i, own f = some (x, q) → q ≠ [] → q.length < 3 → i ∈ privateIndices q →
    (v.mem f i).present = true → (v.mem f i).rw = true ∧ (v.mem f i).user = true

/-- The memory shows what the abstract machine holds; the pages `W` are writable in it. -/
structure Mirrors (W : List ℕ → Prop) (s : Processes) (own : Owner) (E : Eager) : Prop where
  sharing : Sharing s.vm own s.procs
  trunk : Trunk s.vm own s.procs
  page : ∀ k ∈ spots s.procs, E.page k.1 k.2 = pageAt s.vm k
  user : ∀ k ∈ spots s.procs, ∀ b, userAt s.vm k = some b → E.user k.1 k.2 = b
  gate : ∀ x ∈ s.procs, ∀ i ∈ privateIndices [], (s.vm.mem x i).present = true →
    E.gate x i = ((s.vm.mem x i).user, (s.vm.mem x i).rw)
  rw : ∀ k ∈ spots s.procs, W k.2 → E.rw k.1 k.2 = true

section Relation

variable {W : List ℕ → Prop} {s s' : Processes} {own : Owner} {E : Eager} {x va : ℕ}

/-- The upper levels do not change as long as the tables there do not. -/
lemma Trunk.of_stem {v v' : Vm} {procs : List ℕ} (h : Trunk v own procs)
    (hstem : ∀ {f x q}, own f = some (x, q) → q.length < 3 → v'.mem f = v.mem f) :
    Trunk v' own procs := by
  intro y hy f q i hf hq0 hq
  rw [hstem hf hq]
  exact h y hy f q i hf hq0 hq

section

variable (h : Mirrors W s own E)

include h

lemma Mirrors.gate_of_stem {v' : Vm}
    (hstem : ∀ {f x q}, own f = some (x, q) → q.length < 3 → v'.mem f = s.vm.mem f) :
    ∀ x ∈ s.procs, ∀ i ∈ privateIndices [], (v'.mem x i).present = true →
      E.gate x i = ((v'.mem x i).user, (v'.mem x i).rw) := by
  intro y hy
  rw [hstem (h.sharing.root y hy) (by decide)]
  exact h.gate y hy

section

variable (hx : x ∈ s.procs) (hp : pathOf va ∈ userPaths)

include hx hp

/-- What the hardware finds on the way to a page. -/
lemma Mirrors.translate_eq {e : Entry} (he : lookup s.vm.mem x (pathOf va) = some e) :
    ∃ leaf, translate s.vm.mem x va = some leaf ∧
      leaf.user = ((E.gate x (pml4Idx va)).1 && E.user x (pathOf va)) ∧
      leaf.rw = ((E.gate x (pml4Idx va)).2 && e.rw) ∧
      leaf.addr = e.frame * 2 ^ 12 + va % 2 ^ 12 := by
  obtain ⟨h4, h3, h2, -⟩ := pathOf_indices hp
  obtain ⟨pdpt, pd, _, hroute, hpt, hpres⟩ :=
    h.sharing.tables.exists_route (h.sharing.root x hx) hp he
  have htrans := hroute.translate_eq (by rw [hpt, hpres])
  have hgate := h.gate x hx _ h4 (Entry.table_eq_some.1 hroute.pdpt_eq).1
  have hpd := h.trunk x hx pdpt _ _ hroute.pdpt_own (by simp) (by simp) h3
    (Entry.table_eq_some.1 hroute.pd_eq).1
  have hpt' := h.trunk x hx pd _ _ hroute.pd_own (by simp) (by simp) h2
    (Entry.table_eq_some.1 hroute.pt_eq).1
  have huser := h.user (x, pathOf va) (mem_spots.2 ⟨hx, hp⟩) e.user (by rw [userAt, he]; rfl)
  refine ⟨_, htrans, ?_, ?_, ?_⟩
  · simp [Leaf.of, hgate, hpd.2, hpt'.2, hpt, huser]
  · simp [Leaf.of, hgate, hpd.1, hpt'.1, hpt]
  · simp [Leaf.of, hpt]

/-- **A load** returns what the abstract machine holds. -/
lemma Mirrors.load_eq : userLoad s.vm x va = E.load x va := by
  have hpage := h.page (x, pathOf va) (mem_spots.2 ⟨hx, hp⟩)
  rw [Eager.load, hpage, pageAt, frameAt]
  cases he : lookup s.vm.mem x (pathOf va) with
  | none =>
    rw [userLoad, h.sharing.tables.translate_eq_none (h.sharing.root x hx) hp
      (h.sharing.flat x hx) he]
    simp
  | some e =>
    obtain ⟨leaf, htrans, huser, -, haddr⟩ := h.translate_eq hx hp he
    have hword : leaf.addr / 4096 = e.frame ∧ leaf.addr % 4096 / 8 = va % 4096 / 8 := by
      rw [haddr]
      omega
    simp only [userLoad, htrans, huser, hword.1, hword.2, map_some]

/-! ## Clones -/

omit hp in
/-- **A clone** mirrors the copy of all pages. -/
lemma Mirrors.fork {r : ℕ} {v' : Vm} {own' : Owner} (hf : Forked x r s.vm own v' own') :
    Mirrors W ⟨v', r :: s.procs⟩ own' (E.fork x r) := by
  have hsp := h.sharing.fork hx hf
  have hne : ∀ {y}, y ∈ s.procs → y ≠ r := by
    rintro y hy rfl
    exact hsp.fresh hy
  have hcases : ∀ {k}, k ∈ spots (r :: s.procs) →
      (∃ p ∈ userPaths, k = (r, p)) ∨ k ∈ spots s.procs ∧ k.1 ≠ r := fun hk =>
    (spots_cons_cases hk).imp_right fun hk => ⟨hk, hne (mem_spots.1 hk).1⟩
  have hcopy : ∀ {p}, p ∈ userPaths → (x, p) ∈ spots s.procs := fun hp => mem_spots.2 ⟨hx, hp⟩
  have huser : ∀ k ∈ spots s.procs, userAt v' k = userAt s.vm k := by
    intro k hk
    by_cases hkx : k.1 = x
    · rw [userAt, userAt, hkx, hf.parent _ (mem_spots.1 hk).2, Option.map_map]
      rfl
    · rw [userAt, h.sharing.lookup_other hf.outer hk hkx, userAt]
  have hchild : ∀ p ∈ userPaths, userAt v' (r, p) = userAt s.vm (x, p) := by
    intro p hp
    rw [userAt, userAt, hf.child p hp, Option.map_map]
    rfl
  have hstem : ∀ {f y q}, own f = some (y, q) → q.length < 3 → v'.mem f = s.vm.mem f :=
    fun hfy hq => h.sharing.stem_of_outer hf.outer hf.stem hfy hq
  refine ⟨hsp.sharing, ?_, ?_, ?_, ?_, ?_⟩
  · intro y hy f q i hfy hq0 hq hi hp
    obtain rfl | hy := mem_cons.1 hy
    · obtain ⟨-, hrw, huser, -⟩ := hf.plain f q i hfy hq hi hp
      exact ⟨hrw, huser⟩
    · have hold := hf.own_of_ne hfy (hne hy)
      exact h.trunk.of_stem hstem y hy f q i hold hq0 hq hi hp
  · intro k hk
    obtain ⟨p, hp, rfl⟩ | ⟨hk, hkr⟩ := hcases hk
    · show update E.page r (E.page x) r p = pageAt v' (r, p)
      rw [update_self, hsp.child p hp]
      exact h.page _ (hcopy hp)
    · show update E.page r (E.page x) k.1 k.2 = pageAt v' k
      rw [update_of_ne hkr, hsp.pages k hk]
      exact h.page k hk
  · intro k hk b hb
    obtain ⟨p, hp, rfl⟩ | ⟨hk, hkr⟩ := hcases hk
    · show update E.user r (E.user x) r p = b
      rw [update_self]
      exact h.user _ (hcopy hp) b ((hchild p hp).symm.trans hb)
    · show update E.user r (E.user x) k.1 k.2 = b
      rw [update_of_ne hkr]
      exact h.user k hk b ((huser k hk).symm.trans hb)
  · intro y hy i hi hp
    show update E.gate r (fun _ => (true, true)) y i = _
    obtain rfl | hy := mem_cons.1 hy
    · obtain ⟨-, hrw, huser, -⟩ := hf.plain y [] i hf.root (by decide) hi hp
      rw [update_self, hrw, huser]
    · rw [update_of_ne (hne hy)]
      exact h.gate_of_stem hstem y hy i hi hp
  · intro k hk hW
    obtain ⟨p, hp, rfl⟩ | ⟨hk, hkr⟩ := hcases hk
    · show update E.rw r (E.rw x) r p = true
      rw [update_self]
      exact h.rw _ (hcopy hp) hW
    · show update E.rw r (E.rw x) k.1 k.2 = true
      rw [update_of_ne hkr]
      exact h.rw k hk hW

/-! ## Stores -/

omit hx hp in
/-- A write fault does not change what the memory shows. -/
lemma Mirrors.fault {v' : Vm} {e e' : Entry}
    (hf : Sharing.Faulted x va e s.vm own s.procs v' e') : Mirrors W ⟨v', s.procs⟩ own E where
  sharing := hf.sharing
  trunk := h.trunk.of_stem hf.stem
  page := fun k hk => (h.page k hk).trans (hf.pages k hk).symm
  user := fun k hk b hb => h.user k hk b ((hf.user k hk).symm.trans hb)
  gate := h.gate_of_stem hf.stem
  rw := h.rw

/-- A store through a writable entry succeeds if the abstract machine permits it. -/
lemma Mirrors.direct (hW : W (pathOf va)) {e : Entry}
    (he : lookup s.vm.mem x (pathOf va) = some e) (hrw : e.rw = true) (w : Entry) :
    (directStore s.vm x va w).isSome = E.permits x va ∧
      ∀ v', directStore s.vm x va w = some v' → Mirrors W ⟨v', s.procs⟩ own (E.store x va w) := by
  have hspot : (x, pathOf va) ∈ spots s.procs := mem_spots.2 ⟨hx, hp⟩
  obtain ⟨leaf, htrans, huser, hleaf, -⟩ := h.translate_eq hx hp he
  have hpage := h.page _ hspot
  have hrwE := h.rw _ hspot hW
  simp only [pageAt, frameAt, he, map_some] at hpage
  have hpermits : E.permits x va = (leaf.user && leaf.rw) := by
    simp only [Eager.permits, hpage, hrwE, huser, hleaf, hrw, isSome_some, Bool.true_and,
      Bool.and_true, Bool.and_assoc]
  have hsome : (directStore s.vm x va w).isSome = E.permits x va := by
    rw [hpermits]
    simp only [directStore, htrans]
    cases leaf.user <;> cases leaf.rw <;> rfl
  refine ⟨hsome, fun v' hrun => ?_⟩
  have hyes : E.permits x va = true := by rw [← hsome, hrun]; rfl
  have hst := h.sharing.direct hx hp he hrw hrun
  have hstore : E.store x va w = { E with page := update E.page x (update (E.page x) (pathOf va)
          ((E.page x (pathOf va)).map fun page => update page (va % 4096 / 8) w)) } := by
    rw [Eager.store, if_pos hyes]
  rw [hstore]
  refine ⟨hst.sharing, h.trunk.of_stem hst.stem, ?_, ?_, h.gate_of_stem hst.stem, h.rw⟩
  · intro k hk
    show update E.page x _ k.1 k.2 = _
    by_cases hkey : k = (x, pathOf va)
    · obtain ⟨page, hbefore, hafter⟩ := hst.here
      rw [hkey, update_self, update_self, hafter, h.page _ hspot, hbefore]
      rfl
    · rw [hst.others k hk hkey, ← h.page k hk]
      by_cases hkx : k.1 = x
      · rw [hkx, update_self, update_of_ne]
        intro hkp
        exact hkey (Prod.ext hkx hkp)
      · rw [update_of_ne hkx]
  · intro k hk b hb
    exact h.user k hk b ((hst.user k hk).symm.trans hb)

/-- **A store** mirrors the store to the process's own page; with memory for a copy it succeeds
whenever that does. -/
lemma Mirrors.store (hW : W (pathOf va)) (w : Entry) :
    (∀ v', userStore s.vm x va w = some v' → Mirrors W ⟨v', s.procs⟩ own (E.store x va w)) ∧
      (s.vm.offered ≠ none → (userStore s.vm x va w).isSome = E.permits x va) := by
  have hspot : (x, pathOf va) ∈ spots s.procs := mem_spots.2 ⟨hx, hp⟩
  cases he : lookup s.vm.mem x (pathOf va) with
  | none =>
    have hnone : userStore s.vm x va w = none := by
      rw [userStore, h.sharing.tables.translate_eq_none (h.sharing.root x hx) hp
        (h.sharing.flat x hx) he]
    have hpage := h.page _ hspot
    simp only [pageAt, frameAt, he, map_none] at hpage
    rw [hnone]
    exact ⟨by simp, fun _ => by simp [Eager.permits, hpage]⟩
  | some e =>
    obtain ⟨leaf, htrans, huser, hleaf, -⟩ := h.translate_eq hx hp he
    simp only [userStore, htrans]
    cases hu : leaf.user with
    | false =>
      rw [hu] at huser
      refine ⟨by simp, fun _ => ?_⟩
      simp only [Eager.permits, Bool.not_false, if_true, isSome_none]
      rw [Bool.and_assoc (E.page x (pathOf va)).isSome, ← huser]
      simp
    | true =>
      cases hr : leaf.rw with
      | true =>
        rw [hr] at hleaf
        have hrw : e.rw = true := (Bool.and_eq_true_iff.1 hleaf.symm).2
        obtain ⟨hsome, hmirror⟩ := h.direct hx hp hW he hrw w
        exact ⟨hmirror, fun _ => hsome⟩
      | false =>
        obtain ⟨hno, -, hoffer⟩ | ⟨⟨_, hyes⟩, -⟩ := h.sharing.cowFault_cases hx hp he
        · rw [hno]
          exact ⟨by simp, fun hmem => absurd hoffer hmem⟩
        · obtain ⟨_, hf⟩ := h.sharing.faulted hx hp he hyes
          rw [hyes]
          obtain ⟨hsome, hmirror⟩ := (h.fault hf).direct hx hp hW hf.entry hf.rw_eq w
          exact ⟨hmirror, fun _ => hsome⟩

end

/-- **Every operation** mirrors that of the abstract machine. -/
lemma Mirrors.step {op : Op}
    (hop : ∀ x va w, op = .store x va w → W (pathOf va)) (hrun : cowStep s op = some s') :
    ∃ own', Mirrors W s' own' (eagerStep E op) := by
  cases op with
  | fork x r =>
    simp only [cowStep] at hrun
    split_ifs at hrun with hx
    split at hrun
    · rename_i v' r' hclone
      split_ifs at hrun with hr
      subst hr
      obtain ⟨own', hf⟩ := cloneCurrentPml4_forked h.sharing.tables (h.sharing.root x hx)
        (h.sharing.first x hx) hclone
      cases hrun
      exact ⟨own', h.fork hx hf⟩
    · cases hrun
  | store x va w =>
    simp only [cowStep] at hrun
    split_ifs at hrun with hx
    obtain ⟨v', hstore, rfl⟩ := map_eq_some_iff.1 hrun
    exact ⟨own, (h.store hx.1 (pathOf_mem hx.2.1 hx.2.2) (hop x va w rfl) w).1 v' hstore⟩

/-- Runs mirror runs. -/
lemma Mirrors.run {ops : List Op}
    (hops : ∀ x va w, .store x va w ∈ ops → W (pathOf va)) (hrun : ops.foldlM cowStep s = some s') :
    ∃ own', Mirrors W s' own' (ops.foldl eagerStep E) := by
  induction ops generalizing s own E with
  | nil =>
    cases hrun
    exact ⟨own, h⟩
  | cons _ ops ih =>
    obtain ⟨_, hstep, hrest⟩ := bind_eq_some_iff.1 hrun
    obtain ⟨_, h1⟩ := h.step (fun x va w hop => hops x va w (hop ▸ mem_cons_self)) hstep
    exact ih h1 (fun x va w hmem => hops x va w (mem_cons_of_mem _ hmem)) hrest

end

end Relation

/-! ## The first process -/

/-- The process gets pages: each is allocated and mapped. -/
def mapPages (v : Vm) (r : ℕ) : List (ℕ × Entry) → Option Vm
  | [] => some v
  | (va, flags) :: pages =>
    match v.allocPage with
    | (_, none) => none
    | (v, some g) =>
      match mapPage v r va g flags with
      | some (v, true) => mapPages v r pages
      | _ => none

/-- A process without pages, whose only table beside the PML4 is the first PDPT. -/
structure Bare (v : Vm) (own : Owner) (r : ℕ) : Prop where
  sharing : Sharing v own [r]
  empty : ∀ f q i, own f = some (r, q) → i ∈ privateIndices q → ¬ (q = [] ∧ i = 0) →
    (v.mem f i).present = false

section First

variable {v v' : Vm} {own : Owner} {r : ℕ}

lemma Bare.trunk (h : Bare v own r) : Trunk v own [r] := by
  intro x hx f q i hf hq _ hi hp
  rw [mem_singleton.1 hx] at hf
  simp [h.empty f q i hf hi fun hno => hq hno.1] at hp

/-- More tables and one more page: the tables still permit everything. -/
lemma Trunk.map {va g : ℕ} {flags : Entry} {v1 v2 : Vm} {own1 own2 : Owner} {procs : List ℕ}
    (ht : Trunk v own procs) (h : Sharing v own procs) (hfree : v.state g = .free)
    (hext : Extended r procs (v.give g) own v1 own1)
    (hm : Mapped r va g flags procs v1 own1 v2 own2) : Trunk v2 own2 procs := by
  intro x hx f q i hf hq0 hq hi hp
  have hf1 := hm.owned f _ hf
  have hsame := hm.stem f x q hf1 hq
  simp only [hsame] at hp ⊢
  by_cases hold : own1 f = own f
  · rw [hold] at hf1
    have hfg := h.tables.ne_of_free hfree hf1
    have hbusy : (v.give g).state f ≠ .free := by
      rw [v.give_state hfg]
      exact h.tables.busy hf1
    obtain hword | ⟨-, -, t, hword⟩ := hext.word f i hbusy
    · rw [hword, v.give_frame hfg] at hp ⊢
      exact ht x hx f q i hf1 hq0 hq hi hp
    · rw [hword]
      exact ⟨rfl, rfl⟩
  · obtain hword | ⟨t, hword⟩ := hext.fresh f hold i
    · simp [hword] at hp
    · rw [hword]
      exact ⟨rfl, rfl⟩

/-- Mapping pages keeps the invariant. -/
lemma mapPages_sharing {pages : List (ℕ × Entry)} (h : Sharing v own [r]) (ht : Trunk v own [r])
    (hpages : ∀ p ∈ pages, 2 ^ 30 ≤ p.1 ∧ p.1 < 2 ^ 47) (hrun : mapPages v r pages = some v') :
    ∃ own', Sharing v' own' [r] ∧ Trunk v' own' [r] := by
  induction pages generalizing v own with
  | nil =>
    cases hrun
    exact ⟨own, h, ht⟩
  | cons page pages ih =>
    obtain ⟨va, flags⟩ := page
    obtain ⟨hlo, hhi⟩ := hpages (va, flags) mem_cons_self
    have hp := pathOf_mem hlo hhi
    have hr := mem_singleton_self r
    simp only [mapPages, v.allocPage_eq] at hrun
    cases hoffer : v.offered with
    | none =>
      simp [hoffer] at hrun
    | some g =>
      rw [hoffer] at hrun
      obtain ⟨hfree, -⟩ := Vm.offered_eq_some hoffer
      obtain ⟨_, _, hext, ⟨-, hno⟩ | ⟨-, _, _, _, hroute, hyes⟩⟩ :=
        mapPage_cases (h.give hfree) hr hp g flags
      · simp only [hno] at hrun
        cases hrun
      · simp only [hyes] at hrun
        obtain ⟨_, hm⟩ := hext.setPte h hfree hr hp hroute flags
        exact ih hm.sharing (ht.map h hfree hext hm)
          (fun p hmem => hpages p (mem_cons_of_mem _ hmem)) hrun

/-- The pages of the first process that are writable. -/
def Writable (v : Vm) (r : ℕ) (p : List ℕ) : Prop :=
  ∃ e, lookup v.mem r p = some e ∧ e.rw = true

/-- The abstract machine starts with the pages of the first process. -/
lemma Mirrors.first (h : Sharing v own [r]) (ht : Trunk v own [r]) :
    Mirrors (Writable v r) ⟨v, [r]⟩ own (Eager.of v) where
  sharing := h
  trunk := ht
  page := fun _ _ => rfl
  user := fun k _ b hb => by
    obtain ⟨e, he, rfl⟩ := map_eq_some_iff.1 hb
    show (lookup v.mem k.1 k.2).any Entry.user = e.user
    rw [he]
    rfl
  gate := fun _ _ _ _ _ => rfl
  rw := fun k hk ⟨e, he, hrw⟩ => by
    rw [← mem_singleton.1 (mem_spots.1 hk).1] at he
    show (lookup v.mem k.1 k.2).any Entry.rw = true
    rwa [he]

/-- **Copy-on-write refines eager copying.** The first process gets its pages by `map_page`;
then processes fork and store to pages that were writable before the first clone. Whatever a
process loads is what it would load if each clone had copied every page, and with memory for a
copy a store succeeds exactly if it would succeed then. -/
theorem cow_refines_eager {v₀ : Vm} {pages : List (ℕ × Entry)} {ops : List Op} {s : Processes}
    (h₀ : Bare v₀ own r) (hpages : ∀ p ∈ pages, 2 ^ 30 ≤ p.1 ∧ p.1 < 2 ^ 47)
    (hsetup : mapPages v₀ r pages = some v)
    (hops : ∀ x va w, .store x va w ∈ ops → Writable v r (pathOf va))
    (hrun : ops.foldlM cowStep ⟨v, [r]⟩ = some s) :
    ∀ x ∈ s.procs, ∀ va, 2 ^ 30 ≤ va → va < 2 ^ 47 →
      userLoad s.vm x va = (ops.foldl eagerStep (Eager.of v)).load x va ∧
      (Writable v r (pathOf va) → s.vm.offered ≠ none → ∀ w,
        (userStore s.vm x va w).isSome = (ops.foldl eagerStep (Eager.of v)).permits x va) := by
  intro x hx va hlo hhi
  obtain ⟨_, hsharing, htrunk⟩ := mapPages_sharing h₀.sharing h₀.trunk hpages hsetup
  obtain ⟨_, h⟩ := (Mirrors.first hsharing htrunk).run hops hrun
  have hp := pathOf_mem hlo hhi
  exact ⟨h.load_eq hx hp, fun hW hmem w => (h.store hx hp hW w).2 hmem⟩

end First

/-! ## A process with one page -/

lemma bareVm_bare : Bare bareVm bareOwner 1 where
  sharing := bareVm_sharing
  empty := fun f q i hf hi hno => by
    cases hp : (bareVm.mem f i).present with
    | false => rfl
    | true =>
      obtain ⟨rfl, rfl⟩ := bareVm_present hf hi hp
      cases hf
      exact absurd ⟨rfl, rfl⟩ hno

/-- The process with a writable page. -/
def writablePage : Vm := onePageVm { rw := true, user := true }

/-- The process gets a page at 1 GiB, stores there and forks; the child sees the word. -/
theorem cow_refines_eager_fork :
    mapPages bareVm 1 [(2 ^ 30, { rw := true, user := true })] =
      some writablePage ∧
    ∃ s, [Op.store 1 (2 ^ 30) (structEntry 7), .fork 1 10].foldlM cowStep ⟨writablePage, [1]⟩ =
        some s ∧ s.procs = [10, 1] ∧ userLoad s.vm 10 (2 ^ 30) = some (structEntry 7) := by
  have hsetup : mapPages bareVm 1 [(2 ^ 30, { rw := true, user := true })] =
      some writablePage := rfl
  obtain ⟨v1, hv1⟩ : ∃ v1, v1 = writablePage.write 5 0 (structEntry 7) := ⟨_, rfl⟩
  have hstore : userStore writablePage 1 (2 ^ 30) (structEntry 7) = some v1 := by
    rw [hv1]
    rfl
  have hstocked : Stocked v1 10 :=
    hv1 ▸ (onePageVm_stocked _).write (by decide : 4 ≤ 5) 0 (structEntry 7)
  obtain ⟨v2, hclone⟩ := hstocked.exists_clone
  have hfork : cowStep ⟨v1, [1]⟩ (.fork 1 10) = some ⟨v2, [10, 1]⟩ := by
    simp only [cowStep, hclone, mem_singleton_self, if_true]
  have hrun : [Op.store 1 (2 ^ 30) (structEntry 7), .fork 1 10].foldlM cowStep ⟨writablePage, [1]⟩ =
      some ⟨v2, [10, 1]⟩ := by
    have hfirst : cowStep ⟨writablePage, [1]⟩ (.store 1 (2 ^ 30) (structEntry 7)) =
        some ⟨v1, [1]⟩ := by
      have hcond : 1 ∈ [1] ∧ 2 ^ 30 ≤ 2 ^ 30 ∧ 2 ^ 30 < 2 ^ 47 := by decide
      simp only [cowStep, hstore, if_pos hcond, map_some]
    rw [foldlM_cons, hfirst, bind_eq_bind, bind_some, foldlM_cons, hfork]
    rfl
  refine ⟨hsetup, _, hrun, rfl, ?_⟩
  have hops : ∀ x va w, Op.store x va w ∈ [Op.store 1 (2 ^ 30) (structEntry 7), .fork 1 10] →
      Writable writablePage 1 (pathOf va) := by
    intro x va w hmem
    simp only [mem_cons, Op.store.injEq, reduceCtorEq, not_mem_nil, or_false] at hmem
    obtain ⟨-, rfl, -⟩ := hmem
    exact ⟨_, rfl, rfl⟩
  rw [(cow_refines_eager bareVm_bare (by simp) hsetup hops hrun 10 (by simp) (2 ^ 30) (by decide)
    (by decide)).1]
  rfl

end Aurora.Paging
