import Aurora.Kernel.PageExit

/-!
# Mapping a page (`map_page`)

`map_page` creates the tables that are missing on the way to a page, and then writes the last
entry. New tables are empty and change no translation; the entry changes one. The number of
missing tables is known beforehand, so whether there is enough memory is, too.

## Main definitions

* `Vm.grants`, `missing`: memory for some pages, and the tables that are missing.
* `Extended`: an address space has got more tables.
* `mapPage_cases`: `map_page` extends the address space, then sets an entry.
* `Sharing.setPte`: what setting the entry does.
-/

namespace Aurora.Paging

open Lib Function List Option Vm

/-! ## Memory -/

/-- Whether the allocator will hand out `n` page frames. -/
def Vm.grants : ℕ → Vm → Bool
  | 0, _ => true
  | n + 1, v =>
    match v.offered with
    | none => false
    | some f => grants n (v.give f)

variable {v' : Vm}

lemma Vm.offered_congr {v : Vm} (hstate : v'.state = v.state) (hans : v'.answers = v.answers)
    (hask : v'.asked = v.asked) : v'.offered = v.offered := by
  simp only [offered, hstate, hans, hask]

lemma Vm.grants_congr {v : Vm} (hstate : v'.state = v.state) (hans : v'.answers = v.answers)
    (hask : v'.asked = v.asked) (n : ℕ) : v'.grants n = v.grants n := by
  induction n generalizing v v' with
  | zero => rfl
  | succ n ih =>
    simp only [grants, offered_congr hstate hans hask]
    cases v.offered with
    | none => rfl
    | some f =>
      refine ih ?_ hans ?_
      · simp only [give, hstate]
      · simp only [give, hask]

lemma Vm.grants_write (v : Vm) (f i : ℕ) (e : Entry) (n : ℕ) :
    (v.write f i e).grants n = v.grants n :=
  grants_congr (write_state ..) (by rfl) (by rfl) n

lemma Vm.allocPage_eq (v : Vm) : v.allocPage = match v.offered with
    | none => (v.refuse, none)
    | some f => (v.give f, some f) := by
  unfold allocPage
  cases v.offered <;> rfl

/-- How many tables are missing along a path. -/
def missing (m : Memory) : ℕ → List ℕ → ℕ
  | _, [] => 0
  | f, i :: p =>
    match (m f i).table with
    | none => p.length + 1
    | some t => missing m t p

variable {f : ℕ}

lemma missing_of_blank {m : Memory} (h : ∀ i, m f i = {}) (p : List ℕ) :
    missing m f p = p.length := by
  cases p with
  | nil => rfl
  | cons i p => simp [missing, h]

/-! ## New tables -/

lemma lookup_append_of_ne (m : Memory) (f : ℕ) (q : List ℕ) {p : List ℕ} (hp : p ≠ []) :
    lookup m f (q ++ p) = (walk m f q).bind fun t => lookup m t p := by
  induction q generalizing f with
  | nil => rfl
  | cons i q ih =>
    rw [cons_append, lookup_cons m f i (by simp [hp])]
    cases ht : (m f i).table with
    | none => simp [walk, ht]
    | some t => simp [walk, ht, ih]

/-- The address space `x` has got more tables; nothing that was there has changed. -/
structure Extended (x : ℕ) (procs : List ℕ) (v : Vm) (own : Owner) (v' : Vm) (own' : Owner) :
    Prop where
  sharing : Sharing v' own' procs
  lookups : ∀ k ∈ spots procs, lookup v'.mem k.1 k.2 = lookup v.mem k.1 k.2
  kept : ∀ f, v.state f ≠ .free → own' f = own f
  grown : ∀ f, own' f ≠ own f → v.state f = .free ∧ ∃ q, own' f = some (x, q)
  word : ∀ f i, v.state f ≠ .free → v'.mem f i = v.mem f i ∨
    (∃ q, own f = some (x, q) ∧ q.length < 3 ∧ i ∈ privateIndices q) ∧
      (v.mem f i).present = false ∧ ∃ t, v'.mem f i = structEntry t
  fresh : ∀ f, own' f ≠ own f → ∀ i, v'.mem f i = {} ∨ ∃ t, v'.mem f i = structEntry t
  desc : ∀ f, v.state f ≠ .free → v'.desc f = v.desc f

namespace Extended

variable {x : ℕ} {procs : List ℕ} {v v1 v2 : Vm} {own own1 own2 : Owner}

lemma refl (h : Sharing v own procs) : Extended x procs v own v own where
  sharing := h
  lookups := fun _ _ => rfl
  kept := fun _ _ => rfl
  grown := fun _ hne => absurd rfl hne
  word := fun _ _ _ => .inl rfl
  fresh := fun _ hne => absurd rfl hne
  desc := fun _ _ => rfl

lemma refuse (h : Sharing v own procs) : Extended x procs v own v.refuse own :=
  { refl h with sharing := h.congr (fun _ => rfl) (fun _ => rfl) fun _ => rfl }

lemma busy (h : Extended x procs v own v1 own1) (hf : v.state f ≠ .free) : v1.state f ≠ .free := by
  rwa [(desc_eq_iff.1 (h.desc f hf)).1]

lemma trans (h1 : Extended x procs v own v1 own1) (h2 : Extended x procs v1 own1 v2 own2) :
    Extended x procs v own v2 own2 where
  sharing := h2.sharing
  lookups := fun k hk => by rw [h2.lookups k hk, h1.lookups k hk]
  kept := fun f hf => by rw [h2.kept f (h1.busy hf), h1.kept f hf]
  grown := fun f hne => by
    by_cases hsame : own1 f = own f
    · obtain ⟨hfree, hown⟩ := h2.grown f (by rwa [hsame])
      refine ⟨?_, hown⟩
      by_contra hbusy
      exact h1.busy hbusy hfree
    · obtain ⟨hfree, q, hq⟩ := h1.grown f hsame
      exact ⟨hfree, q, by rw [h2.kept f (h1.sharing.tables.busy hq), hq]⟩
  word := fun f i hf => by
    obtain hw1 | ⟨hown, habs, t, ht⟩ := h1.word f i hf
    · obtain hw2 | ⟨hown, habs, t, ht⟩ := h2.word f i (h1.busy hf)
      · exact .inl (by rw [hw2, hw1])
      · rw [h1.kept f hf] at hown
        rw [hw1] at habs
        exact .inr ⟨hown, habs, t, ht⟩
    · obtain hw2 | ⟨-, hno, -⟩ := h2.word f i (h1.busy hf)
      · exact .inr ⟨hown, habs, t, by rw [hw2, ht]⟩
      · rw [ht] at hno
        cases hno
  fresh := fun f hne i => by
    by_cases hsame : own1 f = own f
    · exact h2.fresh f (by rwa [hsame]) i
    · obtain ⟨-, q, hq⟩ := h1.grown f hsame
      obtain hw2 | ⟨-, -, ht⟩ := h2.word f i (h1.sharing.tables.busy hq)
      · rw [hw2]
        exact h1.fresh f hsame i
      · exact .inr ht
  desc := fun f hf => by rw [h2.desc f (h1.busy hf), h1.desc f hf]

end Extended

section NextTable

variable {x f i t : ℕ} {q : List ℕ} {procs : List ℕ} {v : Vm} {own : Owner}

section

variable (h : Sharing v own procs) (hx : x ∈ procs) (hf : own f = some (x, q)) (hq : q.length < 3)
  (hpath : q ∈ pathsFrom q.length [])

include h hx hf hq hpath

/-- All paths lead where they did if one entry changes, behind which there was nothing and is
nothing. -/
lemma Sharing.lookup_switch (hwalk : walk v.mem x q = some f)
    (hword : ∀ {g y j}, own g = some y → (g = f → j ≠ i) → v'.mem g j = v.mem g j)
    (hbefore : ∀ p, p ≠ [] → q ++ i :: p ∈ userPaths →
      ((v.mem f i).table.bind fun t => lookup v.mem t p) = none)
    (hafter : ∀ p, p ≠ [] → q ++ i :: p ∈ userPaths →
      ((v'.mem f i).table.bind fun t => lookup v'.mem t p) = none) :
    ∀ k ∈ spots procs, lookup v'.mem k.1 k.2 = lookup v.mem k.1 k.2 := by
  intro k hk
  obtain ⟨hk1, hk2⟩ := mem_spots.1 hk
  by_cases hthrough : k.1 = x ∧ q ++ [i] <+: k.2
  · obtain ⟨hkx, p, hp⟩ := hthrough
    rw [append_assoc, singleton_append] at hp
    have hp0 : p ≠ [] := by
      rintro rfl
      have hlen := length_of_mem_pathsFrom hk2
      rw [← hp, length_append, length_singleton] at hlen
      omega
    have hwalk' : walk v'.mem x q = some f := by
      rw [← hwalk]
      refine h.tables.walk_congr (h.root x hx) (by simp; omega) hpath fun q' j g hpre hg => ?_
      refine hword hg ?_
      rintro rfl
      rw [hf] at hg
      cases hg
      have := hpre.length_le
      rw [nil_append, length_append, length_singleton] at this
      omega
    rw [← hp] at hk2
    rw [hkx, ← hp, lookup_append_of_ne _ _ _ (by simp), lookup_append_of_ne _ _ _ (by simp), hwalk,
      hwalk', bind_some, bind_some, lookup_cons _ _ _ hp0, lookup_cons _ _ _ hp0,
      hbefore p hp0 hk2, hafter p hp0 hk2]
  · refine h.tables.lookup_congr (h.root _ hk1) rfl hk2 fun q' j g _ hpre hg => ?_
    refine hword hg ?_
    rintro rfl rfl
    rw [hf] at hg
    cases hg
    exact hthrough ⟨rfl, by simpa using hpre⟩

/-- An empty table is added below a table that the address space reaches. -/
lemma Sharing.link (hwalk : walk v.mem x q = some f) (hi : i ∈ privateIndices q)
    (habs : (v.mem f i).present = false) (hfree : v.state t = .free) (hlt : InReach t) :
    Extended x procs v own ((v.give t).write f i (structEntry t)) (own.grow t x (q ++ [i])) := by
  have hne : ∀ {g}, v.state g ≠ .free → g ≠ t := by
    rintro g hg rfl
    exact hg hfree
  have howned : ∀ {g y}, own g = some y → g ≠ t := fun hg => hne (h.tables.busy hg)
  set v' := (v.give t).write f i (structEntry t) with hv'
  have hft := howned hf
  have hword : ∀ {g j}, g ≠ t →
      v'.mem g j = if g = f ∧ j = i then structEntry t else v.mem g j := by
    intro g j hgt
    rw [hv', write_apply, v.give_frame hgt]
  have hlink : v'.mem f i = structEntry t := by rw [hv', write_self]
  have hblank : ∀ j, v'.mem t j = {} := by
    intro j
    rw [hv', write_frame _ _ _ hft.symm, v.give_blank]
  have hstate : ∀ {g}, g ≠ t → v'.state g = v.state g := by
    intro g hg
    rw [hv', write_state, v.give_state hg]
  have hcount : ∀ {g}, g ≠ t → v'.refCount g = v.refCount g := by
    intro g hg
    rw [hv', write_refCount, v.give_refCount hg]
  have htables : Tables v' (own.grow t x (q ++ [i])) := by
    rw [hv']
    refine (h.tables.give hfree hlt (.inr (h.tables.rooted hf)) ?_).link ?_ hq (Owner.grow_self ..)
    · rw [length_append, length_singleton]
      omega
    · rw [own.grow_of_ne _ _ hft, hf]
  -- through the new table there is nothing, as there was before
  have hlook : ∀ k ∈ spots procs, lookup v'.mem k.1 k.2 = lookup v.mem k.1 k.2 := by
    refine h.lookup_switch (i := i) hx hf hq hpath hwalk (fun hg hne => ?_) (fun p _ _ => ?_)
      fun p hp0 _ => ?_
    · rw [hword (howned hg), if_neg fun hgf => hne hgf.1 hgf.2]
    · rw [show (v.mem f i).table = none by simp [Entry.table, habs], bind_none]
    · obtain ⟨j, _, rfl⟩ := exists_cons_of_ne_nil hp0
      rw [hlink, structEntry_table, bind_some, lookup_cons_blank (hblank j)]
  refine ⟨h.of_lookups h.nodup (fun _ hy => hy) htables ?_ ?_ ?_ (fun k hk => .inl (hlook k hk)) ?_,
    hlook, ?_, ?_, ?_, ?_, ?_⟩
  · intro y hy
    rw [own.grow_of_ne _ _ (howned (h.root y hy)), h.root y hy]
  · intro y hy
    rw [hword (howned (h.root y hy))]
    split_ifs
    · rfl
    · exact h.first y hy
  · intro y hy g q' j hg hq' hj hp
    obtain ⟨rfl, -⟩ | ⟨hgt, hg⟩ := Owner.grow_eq_some.1 hg
    · simp [hblank] at hp
    · rw [hword hgt] at hp ⊢
      split_ifs at hp ⊢
      · rfl
      · exact h.flat y hy g q' j hg hq' hj hp
  · intro k hk g hg
    rw [hcount (hne (h.data hk hg).2)]
    exact ⟨hstate (hne (h.data hk hg).2), h.counted g⟩
  · intro g hg
    exact own.grow_of_ne _ _ (hne hg)
  · intro g hg
    by_cases hgt : g = t
    · subst hgt
      exact ⟨hfree, _, Owner.grow_self ..⟩
    · exact absurd (own.grow_of_ne _ _ hgt) hg
  · intro g j hg
    rw [hword (hne hg)]
    split_ifs with hgf
    · obtain ⟨rfl, rfl⟩ := hgf
      exact .inr ⟨⟨q, hf, hq, hi⟩, habs, t, rfl⟩
    · exact .inl rfl
  · intro g hg j
    by_cases hgt : g = t
    · rw [hgt]
      exact .inl (hblank j)
    · exact absurd (own.grow_of_ne _ _ hgt) hg
  · intro g hg
    rw [v'.desc_eq, hstate (hne hg), hcount (hne hg), v.desc_eq]

/-- The next table on the way to a page: it is there, it is created, or there is no memory. -/
lemma nextTable_extended (hwalk : walk v.mem x q = some f) (hi : i ∈ privateIndices q)
    (p : List ℕ) :
    ∃ v' own', Extended x procs v own v' own' ∧
      ((nextTable v f i = (v', none) ∧ v.grants (missing v.mem f (i :: p)) = false) ∨
       ∃ t, nextTable v f i = (v', some t) ∧ own' t = some (x, q ++ [i]) ∧
        (v'.mem f i).table = some t ∧ walk v'.mem x (q ++ [i]) = some t ∧
        v.grants (missing v.mem f (i :: p)) = v'.grants (missing v'.mem t p)) := by
  unfold nextTable
  cases hp : (v.mem f i).present with
  | true =>
    have hps := h.flat x hx f q i hf hq hi hp
    have htable := Entry.table_eq_some.2 ⟨hp, hps, rfl⟩
    refine ⟨v, own, .refl h, .inr ⟨_, rfl, h.tables.child hf hq hi htable, htable, ?_, ?_⟩⟩
    · rw [walk_append, hwalk, bind_some]
      simp [walk, htable]
    · simp only [missing, htable]
  | false =>
    have htable : (v.mem f i).table = none := by simp [Entry.table, hp]
    have hmissing : missing v.mem f (i :: p) = p.length + 1 := by simp only [missing, htable]
    rw [v.allocPage_eq, hmissing]
    cases hoffer : v.offered with
    | none =>
      refine ⟨v.refuse, own, .refuse h, .inl ⟨rfl, ?_⟩⟩
      simp only [grants, hoffer]
    | some t =>
      obtain ⟨hfree, hlt⟩ := offered_eq_some hoffer
      have hext := h.link hx hf hq hpath hwalk hi hp hfree hlt
      have hft := h.tables.ne_of_free hfree hf
      have hlink : ((v.give t).write f i (structEntry t)).mem f i = structEntry t :=
        write_self ..
      have hblank : ∀ j, ((v.give t).write f i (structEntry t)).mem t j = {} := fun j => by
        rw [write_frame _ _ _ hft.symm, v.give_blank]
      refine ⟨_, _, hext, .inr ⟨t, rfl, Owner.grow_self .., by rw [hlink]; rfl, ?_, ?_⟩⟩
      · have hwalk' : walk ((v.give t).write f i (structEntry t)).mem x q = some f := by
          rw [← hwalk]
          refine h.tables.walk_congr (h.root x hx) (by simp; omega) hpath fun q' j g hpre hg => ?_
          have hlen := hpre.length_le
          rw [nil_append, length_append, length_singleton] at hlen
          rw [write_frame, v.give_frame]
          · exact h.tables.ne_of_free hfree hg
          · rintro rfl
            rw [hf] at hg
            cases hg
            omega
        rw [walk_append, hwalk', bind_some]
        simp [walk, hlink, structEntry_table]
      · rw [missing_of_blank hblank]
        simp only [grants, hoffer]
        rw [grants_write]

end

end NextTable

/-! ## The walk of `map_page` -/

variable {v1 : Vm} {own1 : Owner}

section MapPage

variable {x va : ℕ} {procs : List ℕ} {v : Vm} {own : Owner}

/-- The tables on the way to a page that are missing. -/
def missingTables (v : Vm) (x va : ℕ) : ℕ := missing v.mem x [pml4Idx va, pdptIdx va, pdIdx va]

lemma Extended.owned (h : Extended x procs v own v1 own1) (ht : Tables v own) {y : ℕ × List ℕ}
    (hf : own f = some y) : own1 f = some y := by
  rw [h.kept f (ht.busy hf), hf]

/-- A link stays when more tables come. -/
lemma Extended.table (h : Extended x procs v own v1 own1) (ht : Tables v own) {i t : ℕ}
    {y : ℕ × List ℕ} (hf : own f = some y) (htable : (v.mem f i).table = some t) :
    (v1.mem f i).table = some t := by
  obtain hsame | ⟨-, habs, -⟩ := h.word f i (ht.busy hf)
  · rw [hsame, htable]
  · simp [(Entry.table_eq_some.1 htable).1] at habs

/-- **`map_page`** creates the missing tables, if there is memory for them, and then sets the
entry. -/
lemma mapPage_cases (h : Sharing v own procs) (hx : x ∈ procs) (hp : pathOf va ∈ userPaths)
    (g : ℕ) (flags : Entry) :
    ∃ v' own', Extended x procs v own v' own' ∧
      ((v.grants (missingTables v x va) = false ∧ mapPage v x va g flags = some (v', false)) ∨
       (v.grants (missingTables v x va) = true ∧ ∃ pdpt pd pt, Route v' own' x va pdpt pd pt ∧
         mapPage v x va g flags = some (setPte v' pt (ptIdx va) g flags, true))) := by
  obtain ⟨h4, h3, h2, -⟩ := pathOf_indices hp
  have hroot := h.root x hx
  have hpath4 : [pml4Idx va] ∈ pathsFrom 1 [] :=
    pathsFrom_snoc (n := 0) (p := []) (mem_singleton_self _) h4
  have hpath3 : [pml4Idx va, pdptIdx va] ∈ pathsFrom 2 [] := pathsFrom_snoc hpath4 h3
  unfold mapPage missingTables
  simp only [physToVirt_of_inReach (h.tables.inside hroot), bind_eq_bind, bind_some]
  obtain ⟨v1, own1, hext1, ⟨hno, hmem⟩ | ⟨pdpt, hyes, hpdpt, ht1, hw1, hmem1⟩⟩ :=
    nextTable_extended h hx hroot (by decide) (mem_singleton_self _) rfl h4
      [pdptIdx va, pdIdx va]
  · rw [hno]
    exact ⟨v1, own1, hext1, .inl ⟨hmem, rfl⟩⟩
  rw [hyes]
  have hs1 := hext1.sharing
  simp only [physToVirt_of_inReach (hs1.tables.inside hpdpt), bind_some]
  obtain ⟨v2, own2, hext2, ⟨hno, hmem⟩ | ⟨pd, hyes, hpd, ht2, hw2, hmem2⟩⟩ :=
    nextTable_extended hs1 hx hpdpt (by simp) hpath4 hw1 h3 [pdIdx va]
  · rw [hno]
    exact ⟨v2, own2, hext1.trans hext2, .inl ⟨by rw [hmem1, hmem], rfl⟩⟩
  rw [hyes]
  have hs2 := hext2.sharing
  have hpdpt2 := hext2.owned hs1.tables hpdpt
  simp only [physToVirt_of_inReach (hs2.tables.inside hpd), bind_some]
  -- there are no large pages, so the last table is found as the others are
  have hsplit : nextPt v2 pd (pdIdx va) = nextTable v2 pd (pdIdx va) := by
    refine if_neg fun hlarge => ?_
    have hps := hs2.flat x hx pd _ _ hpd (by simp) h2 hlarge.1
    simp [hlarge.2] at hps
  rw [hsplit]
  obtain ⟨v3, own3, hext3, ⟨hno, hmem⟩ | ⟨pt, hyes, hpt, ht3, -, hmem3⟩⟩ :=
    nextTable_extended hs2 hx hpd (by simp) hpath3 hw2 h2 []
  · rw [hno]
    exact ⟨v3, own3, (hext1.trans hext2).trans hext3, .inl ⟨by rw [hmem1, hmem2, hmem], rfl⟩⟩
  rw [hyes]
  have hs3 := hext3.sharing
  simp only [physToVirt_of_inReach (hs3.tables.inside hpt), bind_some]
  refine ⟨v3, own3, (hext1.trans hext2).trans hext3, .inr ⟨?_, pdpt, pd, pt, ?_, rfl⟩⟩
  · rw [hmem1, hmem2, hmem3]
    rfl
  · have hlink1 := hext2.table hs1.tables (hext1.owned h.tables hroot) ht1
    refine ⟨?_, ?_, ht3, ?_, ?_, hpt⟩
    · exact hext3.table hs2.tables (hext2.owned hs1.tables (hext1.owned h.tables hroot)) hlink1
    · exact hext3.table hs2.tables hpdpt2 ht2
    · exact hext3.owned hs2.tables hpdpt2
    · exact hext3.owned hs2.tables hpd

end MapPage

/-! ## The entry -/

section SetPte

variable {x va g pdpt pd pt : ℕ} {procs : List ℕ} {v : Vm} {own : Owner} {flags : Entry}

lemma Vm.refInc_refCount_of (v : Vm) (hin : v.state g ≠ .outside) (f : ℕ) :
    (v.refInc g).refCount f = v.refCount f + if g = f then 1 else 0 := by
  rw [refInc, if_neg hin]
  by_cases hf : g = f
  · subst hf
    rw [if_pos rfl]
    exact update_self ..
  · rw [if_neg hf]
    exact update_of_ne (Ne.symm hf) ..

/-- The entry that `map_page` writes. -/
def pteOf (g : ℕ) (flags : Entry) : Entry :=
  { flags with present := true, frame := g, avail := flags.avail % 2 ^ 6 }

/-- What setting an entry does: the page is mapped there and nowhere else, and what was mapped
there before has lost a reference. -/
structure Mapped (x va g : ℕ) (flags : Entry) (procs : List ℕ) (v : Vm) (own : Owner) (v' : Vm)
    (own' : Owner) : Prop where
  sharing : Sharing v' own' procs
  entry : lookup v'.mem x (pathOf va) = some (pteOf g flags)
  others : ∀ k ∈ spots procs, k ≠ (x, pathOf va) → lookup v'.mem k.1 k.2 = lookup v.mem k.1 k.2
  owned : ∀ f y, own' f = some y → own f = some y
  stem : ∀ f y q, own f = some (y, q) → q.length < 3 → v'.mem f = v.mem f
  count : v'.refCount g = v.refCount g + 1

/-- The entry is replaced, the new page frame gets a reference and the old one loses one. -/
lemma Sharing.replace (h : Sharing v own procs) (hx : x ∈ procs) (hp : pathOf va ∈ userPaths)
    (hroute : Route v own x va pdpt pd pt) (hown : own g = none) (hbusy : v.state g ≠ .free)
    (hin : v.state g ≠ .outside) (hfresh : holders (frameAt v) (spots procs) g = 0) (v1 : Vm)
    (hmem : v1.mem = (v.write pt (ptIdx va) (pteOf g flags)).mem) (hstate : v1.state = v.state)
    (hcount : ∀ f, v1.refCount f + (if frameAt v (x, pathOf va) = some f then 1 else 0) =
      v.refCount f + if g = f then 1 else 0) :
    Mapped x va g flags procs v own v1 own := by
  have hspot : (x, pathOf va) ∈ spots procs := mem_spots.2 ⟨hx, hp⟩
  have hnot : ∀ {k}, k ∈ spots procs → frameAt v k ≠ some g :=
    fun hk => holders_eq_zero.1 hfresh _ hk
  have hset := h.setEntry (e := pteOf g flags) v1 hx hroute (fun _ => ⟨hown, hbusy, hin⟩) hmem
    hstate
    (fun f => by
      have hchange := holders_update (f := frameAt v) (x := f) (nodup_spots h.nodup) hspot (some g)
      have hle := h.counted f
      have hone := hcount f
      simp only [some.injEq] at hchange
      show holders (update (frameAt v) (x, pathOf va) (some g)) (spots procs) f ≤ _
      omega)
    fun k hk _ e' he' hframe => absurd (frameAt_eq_some.2 ⟨e', he', rfl⟩) (hframe ▸ hnot hk)
  refine ⟨hset.sharing, hset.entry, hset.others, fun _ _ hf => hf, fun _ _ _ hf => hset.stem hf, ?_⟩
  have hone := hcount g
  rwa [if_neg (hnot hspot), if_pos rfl] at hone

/-- A page frame that is neither a table nor mapped is freed. -/
lemma Sharing.freePage (h : Sharing v own procs) {o : ℕ} (hown : own o = none)
    (hfresh : holders (frameAt v) (spots procs) o = 0) :
    Sharing (v.freePage o) (own.reach v procs) procs := by
  have hdesc : ∀ {f}, f ≠ o → (v.freePage o).state f = v.state f ∧
      (v.freePage o).refCount f = v.refCount f := fun hf =>
    desc_eq_iff.1 (v.freePage_desc hf)
  refine h.reach h.nodup (fun _ hx => hx) (fun _ _ _ => by rw [freePage_mem])
    (fun k _ => .inl (by rw [freePage_mem])) ?_ ?_
  · rintro f ⟨y, q⟩ hf
    have hf := (Owner.reach_eq_some.1 hf).1
    rw [(hdesc _).1]
    · exact h.tables.busy hf
    · exact ne_of_none hf hown
  · intro k hk f hf
    have hfo : f ≠ o := by
      rintro rfl
      exact holders_eq_zero.1 hfresh k hk hf
    refine ⟨(hdesc hfo).1, ?_⟩
    rw [(hdesc hfo).2]
    exact h.counted f

lemma setPte_eq (v : Vm) (pt i g : ℕ) (flags : Entry) : setPte v pt i g flags =
      if (v.mem pt i).present = true ∧ v.state (v.mem pt i).frame ≠ .outside then
        if v.refCount (v.mem pt i).frame = 1 then
          (((v.setCount (v.mem pt i).frame (v.refCount (v.mem pt i).frame - 1)).write pt i
            (pteOf g flags)).refInc g).freePage (v.mem pt i).frame
        else ((v.setCount (v.mem pt i).frame (v.refCount (v.mem pt i).frame - 1)).write pt i
          (pteOf g flags)).refInc g
      else (v.write pt i (pteOf g flags)).refInc g := rfl

section

variable (h : Sharing v own procs) (hfree : v.state g = .free)
  (hext : Extended x procs (v.give g) own v1 own1)

include h hfree hext

omit hfree hext in
lemma Sharing.setPte (hx : x ∈ procs) (hp : pathOf va ∈ userPaths)
    (hroute : Route v own x va pdpt pd pt) (hown : own g = none) (hbusy : v.state g ≠ .free)
    (hin : v.state g ≠ .outside) (hfresh : holders (frameAt v) (spots procs) g = 0) :
    ∃ own', Mapped x va g flags procs v own (setPte v pt (ptIdx va) g flags) own' := by
  have hspot : (x, pathOf va) ∈ spots procs := mem_spots.2 ⟨hx, hp⟩
  have hnot : frameAt v (x, pathOf va) ≠ some g := holders_eq_zero.1 hfresh _ hspot
  have hat : frameAt v (x, pathOf va) =
      if (v.mem pt (ptIdx va)).present then some (v.mem pt (ptIdx va)).frame else none := by
    rw [frameAt, hroute.lookup_eq]
    unfold Entry.leaf
    cases (v.mem pt (ptIdx va)).present <;> rfl
  rw [setPte_eq]
  set o := (v.mem pt (ptIdx va)).frame with ho
  cases hpres : (v.mem pt (ptIdx va)).present with
  | false =>
    rw [hpres] at hat
    rw [if_neg fun hno => by cases hno.1]
    refine ⟨own, h.replace hx hp hroute hown hbusy hin hfresh _ (refInc_mem ..)
      (refInc_state ..) fun f => ?_⟩
    rw [hat, if_neg (by simp), Nat.add_zero, refInc_refCount_of _ (by exact hin)]
    rfl
  | true =>
    rw [hpres, if_pos rfl] at hat
    have hmanaged := h.managed _ hspot o hat
    have hone := one_le_holders hspot hat
    have hle := h.counted o
    have hog : o ≠ g := by
      rintro rfl
      exact hnot hat
    rw [if_pos ⟨rfl, hmanaged⟩]
    set v1 := ((v.setCount o (v.refCount o - 1)).write pt (ptIdx va)
      (pteOf g flags)).refInc g with hv1
    have hcount : ∀ f, v1.refCount f + (if frameAt v (x, pathOf va) = some f then 1 else 0) =
        v.refCount f + if g = f then 1 else 0 := by
      intro f
      rw [hv1, refInc_refCount_of _ (by exact hin), hat]
      show update v.refCount o (v.refCount o - 1) f + _ + _ = _
      by_cases hfo : f = o
      · subst hfo
        rw [update_self, if_pos rfl, if_neg hog.symm]
        omega
      · rw [update_of_ne hfo, if_neg fun hx => hfo (some.inj hx).symm]
        rfl
    have hmapped : Mapped x va g flags procs v own v1 own :=
      h.replace hx hp hroute hown hbusy hin hfresh v1 (by rw [hv1, refInc_mem]; rfl)
        (by rw [hv1, refInc_state]; rfl) hcount
    split_ifs with href
    · -- the old page frame is no longer mapped
      have hnone : own o = none := (h.data hspot hat).1
      have hzero : holders (frameAt v1) (spots procs) o = 0 := by
        have hle1 := hmapped.sharing.counted o
        have hcount1 := hcount o
        rw [if_pos hat, if_neg hog.symm] at hcount1
        omega
      refine ⟨own.reach v1 procs, hmapped.sharing.freePage hnone hzero, ?_, ?_, ?_, ?_, ?_⟩
      · rw [freePage_mem]
        exact hmapped.entry
      · rw [freePage_mem]
        exact hmapped.others
      · rintro f ⟨y, q⟩ hf
        exact (Owner.reach_eq_some.1 hf).1
      · rw [freePage_mem]
        exact hmapped.stem
      · rw [(desc_eq_iff.1 (v1.freePage_desc hog.symm)).2]
        exact hmapped.count
    · exact ⟨own, hmapped⟩

/-- A page that was just allocated is not mapped. -/
lemma Extended.unmapped : ∀ k ∈ spots procs, frameAt v1 k ≠ some g := by
  intro k hk hat
  rw [frameAt, hext.lookups k hk, h.lookup_give hfree hk] at hat
  exact (h.data hk hat).2 hfree

/-- **A page that was just allocated** is mapped. -/
lemma Extended.setPte (hx : x ∈ procs) (hp : pathOf va ∈ userPaths)
    (hroute : Route v1 own1 x va pdpt pd pt) (flags : Entry) :
    ∃ own2, Mapped x va g flags procs v1 own1 (setPte v1 pt (ptIdx va) g flags) own2 := by
  have hused : (v.give g).state g ≠ .free := by
    rw [give_used]
    decide
  have hstate : v1.state g = .used := by
    rw [(desc_eq_iff.1 (hext.desc g hused)).1, give_used]
  exact hext.sharing.setPte hx hp hroute (by rw [hext.kept g hused, h.tables.own_eq_none hfree])
    (by rw [hstate]; decide) (by rw [hstate]; decide)
    (holders_eq_zero.2 (hext.unmapped h hfree))

end

end SetPte

end Aurora.Paging
