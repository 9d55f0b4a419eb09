import Aurora.Kernel.PageTree

/-!
# Cloning a tree of tables

What the loops of `clone_current_pml4` do at one level, they do at each: the entry of the child
gets a new table, and the table of the parent is cloned into it. `Cloned` says what has
happened when some of the paths below a pair of tables have been cloned; it composes along a
loop (`Cloned.append`) and lifts from a table to the one above it (`Cloned.descend`).

## Main definitions

* `Cloned`: some paths have been cloned from a table of the parent into one of the child.
* `Clones`: a computation that clones some paths, and all of them if it succeeds.
* `clonePml4e_clones`: an iteration of the outer loop.
-/

namespace Aurora.Paging

open Function List Option

/-- The tables of an address space have no large pages, and permit everything above the last
level. -/
def Plain (v : Vm) (own : Owner) (r : ℕ) : Prop :=
  ∀ f q i, own f = some (r, q) → q.length < 3 → i ∈ privateIndices q →
    (v.mem f i).present = true → (v.mem f i).ps = false ∧
    (v.mem f i).rw = true ∧ (v.mem f i).user = true ∧ (v.mem f i).nx = false

/-- The paths `ps` below the table `s` of the parent `r` have been cloned into the table `t` of
the child `r'`; both tables stand at `q`. On the other paths, and in every page frame in use
that is no table below `q`, nothing has changed; page frames that were free may have become
tables of the child. -/
structure Cloned (r r' : ℕ) (q : List ℕ) (s t : ℕ) (ps : List (List ℕ)) (v : Vm) (own : Owner)
    (v' : Vm) (own' : Owner) : Prop where
  tables : Tables v' own'
  src : ∀ p ∈ ps, lookup v'.mem s p = (lookup v.mem s p).map Entry.cow
  srcElse : ∀ p ∈ pathsFrom (4 - q.length) q, p ∉ ps → lookup v'.mem s p = lookup v.mem s p
  dst : ∀ p ∈ ps, lookup v'.mem t p = (lookup v.mem s p).map Entry.cow
  dstElse : ∀ p ∈ pathsFrom (4 - q.length) q, p ∉ ps → lookup v'.mem t p = lookup v.mem t p
  outer : ∀ f, v.state f ≠ .free →
    (∀ q', q <+: q' → own f ≠ some (r, q') ∧ own f ≠ some (r', q')) → v'.mem f = v.mem f
  stem : ∀ f q', own f = some (r, q') → q'.length < 3 → v'.mem f = v.mem f
  shared : ∀ f x q' i, own f = some (x, q') → i ∉ privateIndices q' → v'.mem f i = v.mem f i
  plain : Plain v own r' → Plain v' own' r'
  notMapped : ∀ d, NotMapped v own d → NotMapped v' own' d
  kept : ∀ f, v.state f ≠ .free → own' f = own f
  state : ∀ f, own' f = own f → v'.state f = v.state f
  grown : ∀ f, own' f ≠ own f → v'.state f = .used ∧ ∃ q', q <+: q' ∧ own' f = some (r', q')
  count : ∀ g, own' g = own g → v.state g ≠ .outside → v'.refCount g =
    v.refCount g + uses v.mem s ps g

/-- The entry `i` of the child's table `t` leads to a new table `t'`, which maps nothing. -/
structure Entered (r' : ℕ) (q : List ℕ) (t i t' : ℕ) (v : Vm) (own : Owner) (v₁ : Vm)
    (own₁ : Owner) : Prop where
  fresh : v.state t' = .free
  mem : ∀ {g}, g ≠ t → g ≠ t' → v₁.mem g = v.mem g
  other : ∀ {x}, x ≠ i → v₁.mem t x = v.mem t x
  entry : v₁.mem t i = structEntry t'
  blank : ∀ x ∈ privateIndices (q ++ [i]), v₁.mem t' x = {}
  state : ∀ {g}, g ≠ t' → v₁.state g = v.state g
  used : v₁.state t' = .used
  count : ∀ {g}, g ≠ t' → v₁.refCount g = v.refCount g
  own_eq : own₁ = own.grow t' r' (q ++ [i])

section Words

variable {v v' : Vm} {own : Owner}

lemma plain_of_words {r : ℕ} (h : Plain v own r)
    (hword : ∀ g x, v'.mem g x = v.mem g x ∨ v'.mem g x = {}) : Plain v' own r := by
  intro f q i hf hq hi ht
  obtain he | he := hword f i
  · rw [he] at ht ⊢
    exact h f q i hf hq hi ht
  · simp [he] at ht

lemma notMapped_of_words {d : ℕ} (h : NotMapped v own d)
    (hword : ∀ g x, v'.mem g x = v.mem g x ∨ v'.mem g x = {}) : NotMapped v' own d := by
  intro f r q i hf hq hi hp
  obtain he | he := hword f i
  · rw [he] at hp ⊢
    exact h f r q i hf hq hi hp
  · simp [he] at hp

end Words

namespace Cloned

variable {r r' s t : ℕ} {q : List ℕ} {v v₁ v2 : Vm} {own own₁ own2 : Owner}
  {ps ps1 ps2 : List (List ℕ)}

lemma refl (h : Tables v own) : Cloned r r' q s t [] v own v own where
  tables := h
  src := by simp
  srcElse := by simp
  dst := by simp
  dstElse := by simp
  outer := fun _ _ _ => rfl
  stem := fun _ _ _ _ => rfl
  shared := fun _ _ _ _ _ _ => rfl
  plain := id
  notMapped := fun _ => id
  kept := fun _ _ => rfl
  state := fun _ _ => rfl
  grown := fun _ h => absurd rfl h
  count := by simp

lemma busy (h : Cloned r r' q s t ps v own v₁ own₁) {f : ℕ} (hf : v.state f ≠ .free) :
    v₁.state f ≠ .free := by
  rwa [h.state f (h.kept f hf)]

/-- Cloning first some paths and then others. -/
lemma append (h1 : Cloned r r' q s t ps1 v own v₁ own₁) (h : Tables v own)
    (h2 : Cloned r r' q s t ps2 v₁ own₁ v2 own2) (hsub1 : ps1 ⊆ pathsFrom (4 - q.length) q)
    (hsub2 : ps2 ⊆ pathsFrom (4 - q.length) q) (hdis : ps1.Disjoint ps2) :
    Cloned r r' q s t (ps1 ++ ps2) v own v2 own2 := by
  have hold : ∀ f, own₁ f ≠ own f → own2 f = own₁ f := by
    intro f hf
    refine h2.kept f ?_
    rw [(h1.grown f hf).1]
    decide
  have hback : ∀ f, own2 f = own f → own₁ f = own f := by
    intro f hf
    by_contra hne
    exact hne (by rw [← hold f hne, hf])
  have hsrc : ∀ p ∈ ps2, lookup v₁.mem s p = lookup v.mem s p :=
    fun p hp => h1.srcElse p (hsub2 hp) fun hp1 => hdis hp1 hp
  refine ⟨h2.tables, ?_, ?_, ?_, ?_, ?_, ?_, ?_, fun hp => h2.plain (h1.plain hp),
    fun d hd => h2.notMapped d (h1.notMapped d hd), ?_, ?_, ?_, ?_⟩
  · intro p hp
    obtain hp | hp := mem_append.1 hp
    · rw [h2.srcElse p (hsub1 hp) (hdis hp), h1.src p hp]
    · rw [h2.src p hp, hsrc p hp]
  · intro p hp hnot
    rw [mem_append, not_or] at hnot
    rw [h2.srcElse p hp hnot.2, h1.srcElse p hp hnot.1]
  · intro p hp
    obtain hp | hp := mem_append.1 hp
    · rw [h2.dstElse p (hsub1 hp) (hdis hp), h1.dst p hp]
    · rw [h2.dst p hp, hsrc p hp]
  · intro p hp hnot
    rw [mem_append, not_or] at hnot
    rw [h2.dstElse p hp hnot.2, h1.dstElse p hp hnot.1]
  · intro f hf hout
    rw [h2.outer f (h1.busy hf) (by rwa [h1.kept f hf]), h1.outer f hf hout]
  · intro f q' hf hq'
    rw [h2.stem f q' (by rwa [h1.kept f (h.busy hf)]) hq', h1.stem f q' hf hq']
  · intro f x q' i hf hi
    rw [h2.shared f x q' i (by rwa [h1.kept f (h.busy hf)]) hi, h1.shared f x q' i hf hi]
  · intro f hf
    rw [h2.kept f (h1.busy hf), h1.kept f hf]
  · intro f hf
    have hf1 := hback f hf
    rw [h2.state f (by rw [hf, hf1]), h1.state f hf1]
  · intro f hf
    by_cases hf1 : own₁ f = own f
    · exact h2.grown f (by rwa [hf1])
    · obtain ⟨hused, q', hq', hown⟩ := h1.grown f hf1
      have hkept := hold f hf1
      exact ⟨by rw [h2.state f hkept, hused], q', hq', by rw [hkept, hown]⟩
  · intro g hg hin
    have hg1 := hback g hg
    have hsame : uses v₁.mem s ps2 g = uses v.mem s ps2 g :=
      uses_congr fun p hp => by rw [hsrc p hp]
    rw [h2.count g (by rw [hg, hg1]) (by rwa [h1.state g hg1]), h1.count g hg1 hin,
      uses_append, Nat.add_assoc, hsame]

section

variable (h : Tables v own) (hr : r ≠ r') (hs : own s = some (r, q)) (ht : own t = some (r', q))
  (hq : q.length < 3)

include h hr hs ht hq

/-- Cloning below an entry, whose table in the child is new. -/
lemma descend {i s' t' : ℕ} (hi : i ∈ privateIndices q) (hs' : (v.mem s i).table = some s')
    (he : Entered r' q t i t' v own v₁ own₁)
    (hblank : ∀ p ∈ pathsFrom (3 - q.length) (q ++ [i]), lookup v.mem t (i :: p) = none)
    (hsub : ps ⊆ pathsFrom (3 - q.length) (q ++ [i]))
    (h' : Cloned r r' (q ++ [i]) s' t' ps v₁ own₁ v2 own2) :
    Cloned r r' q s t (ps.map (i :: ·)) v own v2 own2 := by
  have hlen : 4 - (q ++ [i]).length = 3 - q.length := by
    rw [length_append, length_singleton]
    omega
  have hsplit : 4 - q.length = 3 - q.length + 1 := by omega
  -- page frames in use are not the new table
  have hbusy : ∀ {f}, v.state f ≠ .free → f ≠ t' := by
    rintro f hf rfl
    exact hf he.fresh
  have howned : ∀ {f x}, own f = some x → f ≠ t' := h.ne_of_free he.fresh
  have hnone := h.own_eq_none he.fresh
  have hst : s ≠ t := ne_of_root hs ht hr
  have hown : ∀ g, g ≠ t' → own₁ g = own g := by
    intro g hg
    rw [he.own_eq, own.grow_of_ne _ _ hg]
  have hnew : own₁ t' = some (r', q ++ [i]) := by rw [he.own_eq, Owner.grow_self]
  have hnew2 : own2 t' = some (r', q ++ [i]) := by
    rw [h'.kept t' (by rw [he.used]; decide), hnew]
  -- the words of the tables that are not below the entry
  have houter : ∀ {g x q'}, own g = some (x, q') → ¬ q ++ [i] <+: q' → v2.mem g = v₁.mem g := by
    intro g x q' hg hnot
    have hg' := howned hg
    refine h'.outer g (by rw [he.state hg']; exact h.busy hg) fun q'' hpre => ?_
    rw [hown g hg', hg]
    constructor <;> · rintro ⟨⟩; exact hnot hpre
  have hself : ¬ q ++ [i] <+: q := by
    intro hpre
    have := hpre.length_le
    omega
  have hsword : v2.mem s = v.mem s := by rw [houter hs hself, he.mem hst (howned hs)]
  have htword : v2.mem t i = structEntry t' := by rw [houter ht hself, he.entry]
  have howns' := h.child hs hq hi hs'
  have hparent : ∀ {g q'}, own g = some (r, q') → v₁.mem g = v.mem g :=
    fun hg => he.mem (ne_of_root hg ht hr) (howned hg)
  have hbelow : ∀ p ∈ pathsFrom (3 - q.length) (q ++ [i]),
      lookup v₁.mem s' p = lookup v.mem s' p := by
    intro p hp
    refine h.lookup_congr howns' (by rw [length_append, length_singleton]; omega) hp ?_
    intro q' x g _ _ hg
    rw [hparent hg]
  have hne : ∀ p ∈ pathsFrom (3 - q.length) (q ++ [i]), p ≠ [] :=
    fun p hp => ne_nil_of_mem_pathsFrom (by omega) hp
  -- paths through the entry, in the parent and in the child
  have hvia : ∀ {m : Memory} {f f'}, (m f i).table = some f' →
      ∀ p ∈ pathsFrom (3 - q.length) (q ++ [i]), lookup m f (i :: p) = lookup m f' p := by
    intro m f f' hf p hp
    rw [lookup_cons _ _ _ (hne p hp), hf, bind_some]
  have hs2 : (v2.mem s i).table = some s' := by rw [hsword, hs']
  have ht2 : (v2.mem t i).table = some t' := by rw [htword, structEntry_table]
  have hbeside : ∀ {x p' q' y}, x ≠ i → q' ++ [y] <+: q ++ x :: p' → ¬ q ++ [i] <+: q' := by
    intro x p' q' y hx hpath hpre
    have hpre := (hpre.trans (prefix_append q' [y])).trans hpath
    obtain ⟨l, hl⟩ := (prefix_append_right_inj q).1 hpre
    exact hx (by cases hl; rfl)
  have hback : ∀ {f x}, own₁ f = some x → f ≠ t' → own f = some x := fun hf hne' => by
    rwa [hown _ hne'] at hf
  refine ⟨h'.tables, ?_, ?_, ?_, ?_, ?_, ?_, ?_, fun hp => h'.plain ?_,
    fun d hd => h'.notMapped d ?_, ?_, ?_, ?_, ?_⟩
  · intro p hp
    obtain ⟨p', hp', rfl⟩ := mem_map.1 hp
    rw [hvia hs2 p' (hsub hp'), hvia hs' p' (hsub hp'), h'.src p' hp', hbelow p' (hsub hp')]
  · intro p hp hnot
    obtain ⟨x, hx, p', hp', rfl⟩ := mem_pathsFrom_succ.1 (hsplit ▸ hp)
    by_cases hxi : x = i
    · subst hxi
      rw [hvia hs2 p' hp', hvia hs' p' hp',
        h'.srcElse p' (hlen ▸ hp') fun hmem => hnot (mem_map_of_mem hmem), hbelow p' hp']
    · refine h.lookup_congr hs (by omega) hp ?_
      intro q' y g _ hpath hg
      rw [houter hg (hbeside hxi hpath), hparent hg]
  · intro p hp
    obtain ⟨p', hp', rfl⟩ := mem_map.1 hp
    rw [hvia ht2 p' (hsub hp'), hvia hs' p' (hsub hp'), h'.dst p' hp', hbelow p' (hsub hp')]
  · intro p hp hnot
    obtain ⟨x, hx, p', hp', rfl⟩ := mem_pathsFrom_succ.1 (hsplit ▸ hp)
    by_cases hxi : x = i
    · subst hxi
      rw [hvia ht2 p' hp', hblank p' hp',
        h'.dstElse p' (hlen ▸ hp') fun hmem => hnot (mem_map_of_mem hmem)]
      exact lookup_of_blank he.blank hp'
    · refine h.lookup_congr ht (by omega) hp ?_
      intro q' y g hpre hpath hg
      rw [houter hg (hbeside hxi hpath)]
      by_cases hgt : g = t
      · subst hgt
        rw [ht] at hg
        cases hg
        refine he.other ?_
        obtain ⟨l, hl⟩ := (prefix_append_right_inj q).1 hpath
        cases hl
        exact hxi
      · rw [he.mem hgt (howned hg)]
  · intro f hf hout
    have hf' := hbusy hf
    rw [h'.outer f (by rwa [he.state hf']) fun q' hpre => by
      rw [hown f hf']
      exact hout q' ((prefix_append q [i]).trans hpre)]
    refine he.mem ?_ hf'
    rintro rfl
    exact (hout q (prefix_refl q)).2 ht
  · intro f q' hf hq'
    rw [h'.stem f q' (by rw [hown f (howned hf), hf]) hq', hparent hf]
  · intro f x q' y hf hy
    rw [h'.shared f x q' y (by rw [hown f (howned hf), hf]) hy]
    by_cases hft : f = t
    · subst hft
      rw [ht] at hf
      cases hf
      refine he.other ?_
      rintro rfl
      exact hy hi
    · rw [he.mem hft (howned hf)]
  · intro f q' y hf hq' hy hu
    by_cases hft' : f = t'
    · subst hft'
      rw [hnew] at hf
      cases hf
      simp [he.blank y hy] at hu
    have hf := hback hf hft'
    by_cases hft : f = t
    · subst hft
      rw [ht] at hf
      cases hf
      by_cases hyi : y = i
      · subst hyi
        rw [he.entry]
        exact ⟨rfl, rfl, rfl, rfl⟩
      · rw [he.other hyi] at hu ⊢
        exact hp f q y ht hq hy hu
    · rw [he.mem hft hft'] at hu ⊢
      exact hp f q' y hf hq' hy hu
  · intro f x q' y hf hq' hy hpres
    by_cases hft' : f = t'
    · subst hft'
      rw [hnew] at hf
      cases hf
      simp [he.blank y hy] at hpres
    have hf := hback hf hft'
    rw [he.mem (ne_of_level hf ht (by omega)) hft'] at hpres ⊢
    exact hd f x q' y hf hq' hy hpres
  · intro f hf
    have hf' := hbusy hf
    rw [h'.kept f (by rwa [he.state hf']), hown f hf']
  · intro f hf
    have hf' : f ≠ t' := by
      rintro rfl
      simp [hnew2, hnone] at hf
    rw [h'.state f (by rw [hf, hown f hf']), he.state hf']
  · intro f hf
    by_cases hf' : f = t'
    · subst hf'
      exact ⟨by rw [h'.state f (by rw [hnew2, hnew]), he.used], q ++ [i],
        prefix_append q [i], hnew2⟩
    · obtain ⟨hstate', q', hpre, hq'⟩ := h'.grown f (by rwa [hown f hf'])
      exact ⟨hstate', q', (prefix_append q [i]).trans hpre, hq'⟩
  · intro g hg _
    have hg' : g ≠ t' := by
      rintro rfl
      simp [hnew2, hnone] at hg
    rw [h'.count g (by rw [hg, hown g hg']) (by rwa [he.state hg']), he.count hg',
      uses_descend hs' fun p hp => hne p (hsub hp)]
    exact congrArg _ (uses_congr fun p hp => by rw [hbelow p (hsub hp)])

omit hq in
/-- An entry of the child is cleared under which the parent maps nothing. -/
lemma clear {i : ℕ} (hi : i ∈ privateIndices q)
    (hlost : ∀ p ∈ pathsFrom (3 - q.length) (q ++ [i]), lookup v.mem s (i :: p) = none) :
    Cloned r r' q s t ((pathsFrom (3 - q.length) (q ++ [i])).map (i :: ·)) v own
      (v.write t i {}) own := by
  have hlen := h.depth hs
  have hsplit : 4 - q.length = 3 - q.length + 1 := by omega
  have hparent : ∀ p ∈ pathsFrom (4 - q.length) q,
      lookup (v.write t i {}).mem s p = lookup v.mem s p := by
    intro p hp
    refine h.lookup_congr hs (by omega) hp ?_
    intro q' y g _ _ hg
    rw [v.write_frame _ _ (ne_of_root hg ht hr)]
  have hthrough : ∀ p ∈ pathsFrom (3 - q.length) (q ++ [i]), i :: p ∈ pathsFrom (4 - q.length) q :=
    fun p hp => hsplit ▸ mem_pathsFrom_succ.2 ⟨i, hi, p, hp, rfl⟩
  have hword := v.clear_word t i
  refine ⟨h.clear t i, ?_, fun p hp _ => hparent p hp, ?_, ?_, ?_, ?_, ?_,
    fun hp => plain_of_words hp hword, fun d hd => notMapped_of_words hd hword, fun _ _ => rfl,
    fun _ _ => rfl, fun _ hf => absurd rfl hf, ?_⟩
  · intro p hp
    obtain ⟨p', hp', rfl⟩ := mem_map.1 hp
    rw [hparent _ (hthrough p' hp'), hlost p' hp']
    rfl
  · intro p hp
    obtain ⟨p', hp', rfl⟩ := mem_map.1 hp
    rw [hlost p' hp', lookup_cons_blank (v.write_self ..)]
    rfl
  · intro p hp hnot
    obtain ⟨x, -, p', hp', rfl⟩ := mem_pathsFrom_succ.1 (hsplit ▸ hp)
    have hxi : x ≠ i := by
      rintro rfl
      exact hnot (mem_map_of_mem hp')
    refine h.lookup_congr ht (by omega) hp ?_
    intro q' y g _ hpath hg
    by_cases hgt : g = t
    · subst hgt
      rw [ht] at hg
      cases hg
      obtain ⟨l, hl⟩ := (prefix_append_right_inj q).1 hpath
      cases hl
      rw [v.write_index _ _ hxi]
    · rw [v.write_frame _ _ hgt]
  · intro f _ hout
    refine v.write_frame _ _ ?_
    rintro rfl
    exact (hout q (prefix_refl q)).2 ht
  · intro f q' hf _
    rw [v.write_frame _ _ (ne_of_root hf ht hr)]
  · intro f x q' y hf hy
    by_cases hft : f = t
    · subst hft
      rw [ht] at hf
      cases hf
      refine v.write_index _ _ ?_
      rintro rfl
      exact hy hi
    · rw [v.write_frame _ _ hft]
  · intro g _ _
    rw [uses_eq_zero, Nat.add_zero, Vm.write_refCount]
    intro p hp
    obtain ⟨p', hp', rfl⟩ := mem_map.1 hp
    exact hlost p' hp'

/-- An entry of the child is cleared whose counterpart in the parent leads to no table. -/
lemma skip {i : ℕ} (hi : i ∈ privateIndices q) (hnone : (v.mem s i).table = none) :
    Cloned r r' q s t ((pathsFrom (3 - q.length) (q ++ [i])).map (i :: ·)) v own
      (v.write t i {}) own := by
  refine clear h hr hs ht hi fun p hp => ?_
  rw [lookup_cons _ _ _ (ne_nil_of_mem_pathsFrom (by omega) hp), hnone, bind_none]

end

end Cloned

@[simp] lemma Entry.cow_frame (e : Entry) : e.cow.frame = e.frame := rfl

/-- One entry of a last-level table. -/
lemma clonePte_cloned {r r' s t l : ℕ} {q : List ℕ} {v : Vm} {own : Owner} (h : Tables v own)
    (hr : r ≠ r') (hs : own s = some (r, q)) (ht : own t = some (r', q)) (hq : q.length = 3)
    (hl : l ∈ privateIndices q) : Cloned r r' q s t [[l]] v own (clonePte s t l v) own := by
  unfold clonePte
  by_cases hp : (v.mem s l).present = true
  · rw [if_neg (by simp [hp])]
    generalize he : v.mem s l = e at hp ⊢
    obtain ⟨hdata, hbusy⟩ := h.data hs hq hl (he ▸ hp)
    rw [he] at hdata hbusy
    have h1 : Tables (v.refInc e.frame) own := h.of_eq (by simp) (by simp)
    have h2 : Tables ((v.refInc e.frame).write s l e.cow) own :=
      h1.setLeaf l hs hq fun _ => ⟨hdata, by simpa using hbusy⟩
    -- the word is written in both tables
    have hword : ∀ f x, (((v.refInc e.frame).write s l e.cow).write t l e.cow).mem f x =
        if (f = s ∨ f = t) ∧ x = l then e.cow else v.mem f x := by
      intro f x
      rw [Vm.write_apply, Vm.write_apply, Vm.refInc_mem]
      grind
    have hleaf : e.cow.leaf = some e.cow := Entry.leaf_eq_some.2 ⟨hp, rfl⟩
    have hlookup : lookup v.mem s [l] = some e := by
      rw [lookup, he]
      exact Entry.leaf_eq_some.2 ⟨hp, rfl⟩
    have helse : ∀ {f p}, p ∈ pathsFrom (4 - q.length) q → p ∉ [[l]] →
        lookup (((v.refInc e.frame).write s l e.cow).write t l e.cow).mem f p =
          lookup v.mem f p := by
      intro f p hmem hnot
      rw [hq] at hmem
      obtain ⟨x, hx, _, hp', rfl⟩ := mem_pathsFrom_succ.1 hmem
      obtain rfl := mem_singleton.1 hp'
      rw [lookup, lookup, hword, if_neg fun hx => hnot (by rw [hx.2]; exact mem_singleton_self _)]
    have hlast : ∀ {f x q'}, own f = some (x, q') → q'.length < 3 → ¬ (f = s ∨ f = t) := by
      rintro f x q' hf hq' (rfl | rfl)
      · exact ne_of_level hf hs (by omega) rfl
      · exact ne_of_level hf ht (by omega) rfl
    refine ⟨h2.setLeaf l ht hq fun _ => ⟨hdata, by simpa using hbusy⟩, ?_, fun p => helse, ?_,
      fun p => helse, ?_, ?_, ?_, ?_, ?_, fun _ _ => rfl, ?_, fun _ hf => absurd rfl hf, ?_⟩
    · intro p hmem
      rwa [mem_singleton.1 hmem, hlookup, lookup, hword, if_pos ⟨.inl rfl, rfl⟩]
    · intro p hmem
      rwa [mem_singleton.1 hmem, hlookup, lookup, hword, if_pos ⟨.inr rfl, rfl⟩]
    · intro f _ hout
      funext x
      rw [hword, if_neg]
      rintro ⟨rfl | rfl, -⟩
      · exact (hout q (prefix_refl q)).1 hs
      · exact (hout q (prefix_refl q)).2 ht
    · intro f q' hf hq'
      funext x
      rw [hword, if_neg fun hx => hlast hf hq' hx.1]
    · intro f x q' i hf hi
      rw [hword, if_neg]
      rintro ⟨rfl | rfl, rfl⟩
      · rw [hs] at hf
        cases hf
        exact hi hl
      · rw [ht] at hf
        cases hf
        exact hi hl
    · intro hplain f q' i hf hq' hi hu
      rw [hword, if_neg fun hx => hlast hf hq' hx.1] at hu ⊢
      exact hplain f q' i hf hq' hi hu
    · intro d hd f x q' i hf hq' hi hpres
      rw [hword] at hpres ⊢
      split at hpres
      next hx =>
        rw [if_pos hx, Entry.cow_frame, ← he]
        exact hd s r q l hs hq hl (he ▸ hp)
      next hx =>
        rw [if_neg hx]
        exact hd f x q' i hf hq' hi hpres
    · intro f _
      simp
    · intro g _ hin
      rw [Vm.write_refCount, Vm.write_refCount, Vm.refInc_refCount _ hin, uses_leaf hlookup]
  · have hp : (v.mem s l).present = false := by simpa using hp
    rw [if_pos (by simp [hp])]
    have hclear := Cloned.clear h hr hs ht hl fun p hp' => by
      rw [hq, pathsFrom, mem_singleton] at hp'
      rw [hp', lookup]
      exact Entry.leaf_eq_none.2 hp
    rwa [hq] at hclear

/-! ## The loops -/

/-- A computation that clones some of the paths, and all of them if it succeeds; of the child's
table it only writes the entries `is`. -/
def Clones (r r' : ℕ) (q : List ℕ) (s t : ℕ) (is : List ℕ) (ps : List (List ℕ)) (v : Vm)
    (own : Owner) (result : Option (Vm × Bool)) : Prop :=
  ∃ v' own' ok ps', result = some (v', ok) ∧ ps'.Sublist ps ∧ (ok = true → ps' = ps) ∧
    (∀ x, x ∉ is → v'.mem t x = v.mem t x) ∧ Cloned r r' q s t ps' v own v' own'

/-- A computation that clones what is below an entry, where the child has nothing yet. -/
def ClonesEntry (r r' : ℕ) (q : List ℕ) (s t i : ℕ) (body : Vm → Option (Vm × Bool)) : Prop :=
  ∀ v own, Tables v own → own s = some (r, q) → own t = some (r', q) →
    (∀ p ∈ pathsFrom (3 - q.length) (q ++ [i]), lookup v.mem t (i :: p) = none) →
    Clones r r' q s t [i] ((pathsFrom (3 - q.length) (q ++ [i])).map (i :: ·)) v own (body v)

lemma pathsVia_subset {n : ℕ} {q is : List ℕ} (h : is ⊆ privateIndices q) :
    pathsVia n q is ⊆ pathsFrom (n + 1) q := by
  intro p hp
  obtain ⟨i, hi, p', hp', rfl⟩ := mem_pathsVia.1 hp
  exact mem_pathsFrom_succ.2 ⟨i, h hi, p', hp', rfl⟩

section Loops

variable {i : ℕ} {own' : Owner} {ps : List (List ℕ)}

variable {r r' s t : ℕ} {q : List ℕ} {v : Vm} {own : Owner}

lemma Clones.of_cloned {is : List ℕ} {v' : Vm}
    (h : Cloned r r' q s t ps v own v' own') (hrest : ∀ x, x ∉ is → v'.mem t x = v.mem t x) :
    Clones r r' q s t is ps v own (some (v', true)) :=
  ⟨v', own', true, ps, rfl, List.Sublist.refl _, fun _ => rfl, hrest, h⟩

lemma Clones.of_skip (h : Cloned r r' q s t ps v own (v.write t i {}) own') :
    Clones r r' q s t [i] ps v own (some (v.write t i {}, true)) :=
  .of_cloned h fun x hx => v.write_index _ _ (by simpa using hx)

lemma Cloned.own_of_own {v' : Vm}
    (h : Cloned r r' q s t ps v own v' own') (ht : Tables v own) {f : ℕ} {x : ℕ × List ℕ}
    (hf : own f = some x) : own' f = some x := by
  rw [h.kept f (ht.busy hf), hf]

/-- A loop clones what its steps clone. -/
lemma loop_clones {body : ℕ → Vm → Option (Vm × Bool)} (hq : q.length ≤ 3)
    {is : List ℕ} (hbody : ∀ i ∈ is, ClonesEntry r r' q s t i (body i))
    (hnodup : is.Nodup) (his : is ⊆ privateIndices q) (h : Tables v own)
    (hs : own s = some (r, q)) (ht : own t = some (r', q))
    (hblank : ∀ p ∈ pathsVia (3 - q.length) q is, lookup v.mem t p = none) :
    Clones r r' q s t is (pathsVia (3 - q.length) q is) v own (loop body is v) := by
  have hsplit : 4 - q.length = 3 - q.length + 1 := by omega
  induction is generalizing v own with
  | nil => exact .of_cloned (.refl h) fun _ _ => rfl
  | cons i is ih =>
    rw [nodup_cons] at hnodup
    have hi : i ∈ privateIndices q := his mem_cons_self
    have his' : is ⊆ privateIndices q := fun x hx => his (mem_cons_of_mem _ hx)
    rw [pathsVia_cons] at hblank ⊢
    have hblank_i : ∀ p ∈ pathsFrom (3 - q.length) (q ++ [i]), lookup v.mem t (i :: p) = none :=
      fun p hp => hblank _ (mem_append_left _ (mem_map_of_mem hp))
    obtain ⟨v₁, own₁, ok, ps, hrun, hsub, hall, hrest, hc⟩ :=
      hbody i mem_cons_self v own h hs ht hblank_i
    have hother : ∀ x, x ∉ i :: is → v₁.mem t x = v.mem t x ∧ x ∉ is := by
      intro x hx
      rw [mem_cons, not_or] at hx
      exact ⟨hrest x (by simpa using hx.1), hx.2⟩
    have hsubset : ps ⊆ pathsFrom (4 - q.length) q := by
      intro p hp
      obtain ⟨p', hp', rfl⟩ := mem_map.1 (hsub.subset hp)
      rw [hsplit]
      exact mem_pathsFrom_succ.2 ⟨i, hi, p', hp', rfl⟩
    have hfirst : ∀ p ∈ ps, p ∉ pathsVia (3 - q.length) q is := by
      intro p hp hmem
      obtain ⟨p', -, rfl⟩ := mem_map.1 (hsub.subset hp)
      obtain ⟨x, hx, _, -, heq⟩ := mem_pathsVia.1 hmem
      cases heq
      exact hnodup.1 hx
    simp only [loop, hrun, bind_eq_bind, bind_some]
    cases ok with
    | false =>
      exact ⟨v₁, own₁, false, ps, rfl, hsub.trans (sublist_append_left ..), by simp,
        fun x hx => (hother x hx).1, hc⟩
    | true =>
      have hvia : pathsVia (3 - q.length) q is ⊆ pathsFrom (4 - q.length) q := by
        rw [hsplit]
        exact pathsVia_subset his'
      obtain ⟨v2, own2, ok, ps', hrun', hsub', hall', hrest', hc'⟩ :=
        ih (fun x hx => hbody x (mem_cons_of_mem _ hx)) hnodup.2 his' hc.tables
        (hc.own_of_own h hs) (hc.own_of_own h ht) fun p hp => by
          rw [hc.dstElse p (hvia hp) fun hmem => hfirst p hmem hp]
          exact hblank p (mem_append_right _ hp)
      refine ⟨v2, own2, ok, ps ++ ps', hrun', hsub.append hsub', ?_, ?_, ?_⟩
      · intro hok
        rw [hall rfl, hall' hok]
      · intro x hx
        rw [hrest' x (hother x hx).2, (hother x hx).1]
      · exact hc.append h hc' hsubset (fun p hp => hvia (hsub'.subset hp))
          fun p hp hp' => hfirst p hp (hsub'.subset hp')

/-- A loop over a table clones everything below it. -/
lemma loop_clones_all {body : ℕ → Vm → Option (Vm × Bool)}
    (hbody : ∀ i ∈ privateIndices q, ClonesEntry r r' q s t i (body i)) (h : Tables v own)
    (hs : own s = some (r, q)) (ht : own t = some (r', q))
    (hblank : ∀ p ∈ pathsFrom (4 - q.length) q, lookup v.mem t p = none) :
    Clones r r' q s t (privateIndices q) (pathsFrom (4 - q.length) q) v own
      (loop body (privateIndices q) v) := by
  have hlen := h.depth hs
  rw [show 4 - q.length = 3 - q.length + 1 by omega, pathsFrom_succ] at hblank ⊢
  exact loop_clones hlen hbody (nodup_privateIndices q) (fun _ hx => hx) h hs ht hblank

section

variable (h : Tables v own) (hr : r ≠ r') (hs : own s = some (r, q)) (ht : own t = some (r', q))

include h hr hs ht

/-- The table of the child behind an entry is allocated, and then cloned into. -/
lemma clones_alloc (hq : q.length < 3) {s' : ℕ} (hi : i ∈ privateIndices q)
    (hs' : (v.mem s i).table = some s')
    (hblank : ∀ p ∈ pathsFrom (3 - q.length) (q ++ [i]), lookup v.mem t (i :: p) = none)
    {k : ℕ → Vm → Option (Vm × Bool)}
    (hk : ∀ t' v₁ own₁, Tables v₁ own₁ → own₁ s' = some (r, q ++ [i]) →
      own₁ t' = some (r', q ++ [i]) →
      (∀ p ∈ pathsFrom (4 - (q ++ [i]).length) (q ++ [i]), lookup v₁.mem t' p = none) →
      Clones r r' (q ++ [i]) s' t' (privateIndices (q ++ [i]))
        (pathsFrom (4 - (q ++ [i]).length) (q ++ [i])) v₁ own₁ (k t' v₁)) :
    Clones r r' q s t [i] ((pathsFrom (3 - q.length) (q ++ [i])).map (i :: ·)) v own
      (match v.allocPage with
        | (v, none) => some (v, false)
        | (v, some t') => k t' (v.write t i (structEntry t'))) := by
  obtain hno | ⟨t', hfree, hlt, hyes⟩ := v.allocPage_cases
  · rw [hno]
    have href : Cloned r r' q s t [] v own v.refuse own :=
      { Cloned.refl h with tables := h.of_eq rfl rfl }
    exact ⟨_, own, false, [], rfl, nil_sublist _, by simp, fun _ _ => rfl, href⟩
  · rw [hyes]
    have hne : ∀ {f x}, own f = some x → f ≠ t' := h.ne_of_free hfree
    have hlen : (q ++ [i]).length = q.length + 1 := by
      simp [length_append]
    have h1 : Tables (v.give t') (own.grow t' r' (q ++ [i])) :=
      h.give hfree hlt (.inr (h.rooted ht)) (by omega)
    have ht1 : own.grow t' r' (q ++ [i]) t = some (r', q) := by
      rw [own.grow_of_ne _ _ (hne ht), ht]
    have he : Entered r' q t i t' v own ((v.give t').write t i (structEntry t'))
        (own.grow t' r' (q ++ [i])) :=
      { fresh := hfree
        mem := fun hgt hgt' => by rw [Vm.write_frame _ _ _ hgt, v.give_frame hgt']
        other := fun hx => by rw [Vm.write_index _ _ _ hx, v.give_frame (hne ht)]
        entry := Vm.write_self ..
        blank := fun x _ => by rw [Vm.write_frame _ _ _ (hne ht).symm, v.give_blank]
        state := v.give_state
        used := v.give_used t'
        count := v.give_refCount
        own_eq := rfl }
    have hchild := h.child hs hq hi hs'
    obtain ⟨v2, own2, ok, ps, hrun, hsub, hall, -, hc⟩ := hk t' _ _
      (h1.link ht1 hq (Owner.grow_self ..)) (by rw [own.grow_of_ne _ _ (hne hchild), hchild])
      (Owner.grow_self ..) fun p hp => lookup_of_blank he.blank hp
    rw [show 4 - (q ++ [i]).length = 3 - q.length by omega] at hsub hall
    refine ⟨v2, own2, ok, ps.map (i :: ·), hrun, hsub.map _, fun hok => by rw [hall hok], ?_,
      Cloned.descend h hr hs ht hq hi hs' he hblank hsub.subset hc⟩
    intro x hx
    rw [hc.outer t, he.other (by simpa using hx)]
    · rw [he.state (hne ht)]
      exact h.busy ht
    · -- the table itself is not below its entry
      intro _ hpre
      have hlong := hpre.length_le
      rw [ht1]
      constructor <;> · rintro ⟨⟩; omega

omit h hr hs ht in
lemma loop_of_foldl (f : ℕ → Vm → Vm) (is : List ℕ) (v : Vm) :
    loop (fun i v => some (f i v, true)) is v = some (is.foldl (fun v i => f i v) v, true) := by
  induction is generalizing v with
  | nil => rfl
  | cons i is ih => exact ih (f i v)

omit h hr hs ht in
lemma privateIndices_of_long (hq : 2 ≤ q.length) : privateIndices q = List.range 512 := by
  rw [privateIndices, if_neg, if_neg]
  · rintro rfl
    simp at hq
  · rintro rfl
    simp at hq

/-- The loop over a last-level table. -/
lemma clonePt_clones (hq : q.length = 3)
    (hblank : ∀ p ∈ pathsFrom (4 - q.length) q, lookup v.mem t p = none) :
    Clones r r' q s t (privateIndices q) (pathsFrom (4 - q.length) q) v own
      (some ((List.range 512).foldl (fun v l => clonePte s t l v) v, true)) := by
  have hstep : ∀ i ∈ privateIndices q,
      ClonesEntry r r' q s t i fun v => some (clonePte s t i v, true) := by
    intro i hi v own h hs ht _
    rw [hq]
    refine .of_cloned (clonePte_cloned h hr hs ht hq hi) fun x hx => ?_
    have hxi : x ≠ i := by simpa using hx
    simp only [clonePte]
    split_ifs
    · rw [v.write_index _ _ hxi]
    · rw [Vm.write_index _ _ _ hxi, Vm.write_frame _ _ _ (ne_of_root hs ht hr).symm, Vm.refInc_mem]
  have hloop := loop_clones_all hstep h hs ht hblank
  rw [loop_of_foldl] at hloop
  rwa [← privateIndices_of_long (q := q) (by omega)]

omit h hr hs ht in
/-- One entry of a page directory. -/
lemma clonePde_clones (hr : r ≠ r') (hq : q.length = 2) :
    ∀ k ∈ privateIndices q, ClonesEntry r r' q s t k (clonePde s t k) := by
  intro k hk v _ h hs ht hblank
  unfold clonePde
  cases htable : (v.mem s k).table with
  | none =>
    have hskip := Cloned.skip h hr hs ht (by omega) hk htable
    cases hp : (v.mem s k).present with
    | false =>
      simp only [hp, Bool.not_false, if_true]
      exact .of_skip hskip
    | true =>
      have hps : (v.mem s k).ps = true := by
        by_contra hps
        simp [Entry.table_eq_some.2 ⟨hp, by simpa using hps, rfl⟩] at htable
      simp only [hps, if_true, ite_self]
      exact .of_skip hskip
  | some _ =>
    obtain ⟨hp, hps, rfl⟩ := Entry.table_eq_some.1 htable
    simp only [hp, hps, Bool.not_true, Bool.false_eq_true, if_false]
    refine clones_alloc (k := fun pt v' => do
        let srcPt ← physToVirt (v.mem s k).frame
        some ((List.range 512).foldl (fun v l => clonePte srcPt pt l v) v', true))
      h hr hs ht (by omega) hk htable hblank ?_
    intro _ _ _ h1 hs1 ht1 hblank1
    rw [physToVirt_of_inReach (h1.inside hs1)]
    exact clonePt_clones h1 hr hs1 ht1 (by rw [length_append, hq]; rfl) hblank1

/-- The table behind an entry, whose entries are cloned in a loop. -/
lemma clones_table (hq : q.length < 2) (hi : i ∈ privateIndices q) (hp : (v.mem s i).present = true)
    (hblank : ∀ p ∈ pathsFrom (3 - q.length) (q ++ [i]), lookup v.mem t (i :: p) = none)
    (hall : privateIndices (q ++ [i]) = List.range 512) {body : ℕ → ℕ → ℕ → Vm → Option (Vm × Bool)}
    (hbody : ∀ s' t', ∀ j ∈ privateIndices (q ++ [i]),
      ClonesEntry r r' (q ++ [i]) s' t' j (body s' t' j)) :
    Clones r r' q s t [i] ((pathsFrom (3 - q.length) (q ++ [i])).map (i :: ·)) v own
      (match v.allocPage with
        | (v, none) => some (v, false)
        | (v', some t') => do
          let s' ← physToVirt (v.mem s i).frame
          loop (body s' t') (List.range 512) (v'.write t i (structEntry t'))) := by
  have htable : (v.mem s i).table = some (v.mem s i).frame :=
    Entry.table_eq_some.2 ⟨hp, h.small hs hq hi hp, rfl⟩
  refine clones_alloc (k := fun t' v' => do
    let s' ← physToVirt (v.mem s i).frame
    loop (body s' t') (List.range 512) v') h hr hs ht (by omega) hi htable hblank ?_
  intro t' _ _ h1 hs1 ht1 hblank1
  rw [physToVirt_of_inReach (h1.inside hs1), ← hall]
  exact loop_clones_all (hbody _ t') h1 hs1 ht1 hblank1

/-- The page directory behind an entry. -/
lemma clonePd_clones (hq : q.length = 1) {j : ℕ} (hj : j ∈ privateIndices q)
    (hp : (v.mem s j).present = true)
    (hblank : ∀ p ∈ pathsFrom (3 - q.length) (q ++ [j]), lookup v.mem t (j :: p) = none) :
    Clones r r' q s t [j] ((pathsFrom (3 - q.length) (q ++ [j])).map (j :: ·)) v own
      (clonePd t j (v.mem s j) v) := by
  have hlen : (q ++ [j]).length = 2 := by rw [length_append, hq]; rfl
  exact clones_table h hr hs ht (by omega) hj hp hblank (privateIndices_of_long (by omega))
    fun _ _ => clonePde_clones hr hlen

end

/-- One entry of the first PDPT; the tables have no large page there. -/
lemma clonePdpte0_clones (hr : r ≠ r') (hq : q.length = 1) :
    ∀ j ∈ privateIndices q, ClonesEntry r r' q s t j (clonePdpte0 s t j) := by
  intro j hj v _ h hs ht hblank
  unfold clonePdpte0
  cases hp : (v.mem s j).present with
  | false =>
    simp only [hp, Bool.not_false, if_true]
    exact .of_skip (Cloned.skip h hr hs ht (by omega) hj (by simp [Entry.table, hp]))
  | true =>
    have hps := h.small hs (by omega) hj hp
    simp only [hp, hps, Bool.not_true, Bool.false_eq_true, if_false]
    exact clonePd_clones h hr hs ht hq hj hp hblank

/-- One entry of another PDPT. -/
lemma clonePdpte_clones (hr : r ≠ r') (hq : q.length = 1) :
    ∀ j ∈ privateIndices q, ClonesEntry r r' q s t j (clonePdpte s t j) := by
  intro j hj v _ h hs ht hblank
  unfold clonePdpte
  cases hp : (v.mem s j).present with
  | false =>
    simp only [hp, Bool.not_false, if_true]
    exact .of_skip (Cloned.skip h hr hs ht (by omega) hj (by simp [Entry.table, hp]))
  | true =>
    simp only [hp, Bool.not_true, Bool.false_eq_true, if_false]
    exact clonePd_clones h hr hs ht hq hj hp hblank

/-- One entry of the PML4, except the first. -/
lemma clonePml4e_clones (hr : r ≠ r') (hi : i ∈ privateIndices []) (hi0 : i ≠ 0) :
    ClonesEntry r r' [] s t i (clonePml4e s t i) := by
  intro v _ h hs ht hblank
  unfold clonePml4e
  cases hp : (v.mem s i).present with
  | false =>
    simp only [hp, Bool.not_false, if_true]
    exact .of_skip (Cloned.skip h hr hs ht (by decide) hi (by simp [Entry.table, hp]))
  | true =>
    simp only [hp, Bool.not_true, Bool.false_eq_true, if_false]
    have hall : privateIndices ([] ++ [i]) = List.range 512 := by
      simp [privateIndices, hi0]
    exact clones_table h hr hs ht (by decide) hi hp hblank hall
      fun _ _ => clonePdpte_clones hr rfl

end Loops

end Aurora.Paging
