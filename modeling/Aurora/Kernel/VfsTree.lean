import Aurora.Kernel.VfsLinks
import Mathlib.Data.Finset.Card
import Mathlib.Data.List.TakeWhile

/-!
# Path resolution over the dentry cache

A mounted tree has a root, what the filesystems find in their directories, and the
filesystems mounted at some places. A place is the list of the names on the way to it,
the last one first. A cache of the tree has a dentry for some of the places; a dentry
with an inode has the inode of its place.

The loop of `vfs_lookup` makes at most sixty-four rounds, and empty components count.
Behind that it returns the dentry it has come to as if the path ended there.

## Main definitions

* `Tree`, `inodeAt`, `resolve`: the mounted tree, and what a path means in it.
* `Caches`: the dentries stand for places of the tree.
* `rounds`: the place after the rounds of the loop, and the rest of the path.
* `missing`: the places that a lookup enters and that have no dentry.
* `resolves_iff`: lookups are right exactly if the rest leads nowhere else.
-/

namespace Aurora.Vfs

open Function List Option

variable {cur d i : ℕ} {e : Dentry} {name : Name} {names : List Name} {p : List UInt8}

/-! ## Mounted trees -/

/-- A tree of filesystems: the inode of its root, the inodes mounted at places, and what
`ops->lookup` finds. -/
structure Tree where
  root : ℕ
  mounted : List Name → Option ℕ
  look : ℕ → Name → Option ℕ

/-- The inode at a place. -/
def inodeAt (t : Tree) : List Name → Option ℕ
  | [] => some t.root
  | name :: place =>
    match inodeAt t place with
    | none => none
    | some i => (t.mounted (name :: place)).or (t.look i name)

/-- The components of a path. -/
def components (p : List UInt8) : List Name := (p.splitOn slash).filter (· ≠ [])

/-- The place that the components lead to from a place, one after the other. -/
def resolve (t : Tree) : List Name → List Name → Option (List Name)
  | place, [] => some place
  | place, c :: cs =>
    if c = dotDot then resolve t place.tail cs
    else if c = dot then resolve t place cs
    else if (inodeAt t (c :: place)).isSome then resolve t (c :: place) cs
    else none

/-- The place after a number of rounds of the loop, and the rest of the path. -/
def rounds (t : Tree) : ℕ → List UInt8 → List Name → Option (List Name × List UInt8)
  | 0, p, place => some (place, p)
  | _ + 1, [], place => some (place, [])
  | n + 1, c :: p, place =>
    let name := first (c :: p)
    if name = [] then rounds t n p place
    else if name.length > 255 then none
    else if name = dotDot then rounds t n (rest (c :: p)) place.tail
    else if name = dot then rounds t n (rest (c :: p)) place
    else if (inodeAt t (name :: place)).isSome then rounds t n (rest (c :: p)) (name :: place)
    else none

/-- The places that the rounds ask for by name, up to the first that is not there. -/
def entered (t : Tree) : ℕ → List UInt8 → List Name → List (List Name)
  | 0, _, _ => []
  | _ + 1, [], _ => []
  | n + 1, c :: p, place =>
    let name := first (c :: p)
    if name = [] then entered t n p place
    else if name.length > 255 then []
    else if name = dotDot then entered t n (rest (c :: p)) place.tail
    else if name = dot then entered t n (rest (c :: p)) place
    else if (inodeAt t (name :: place)).isSome then
      (name :: place) :: entered t n (rest (c :: p)) (name :: place)
    else [name :: place]

/-! ## Components -/

lemma splitOn_of_first (p : List UInt8) : p.splitOn slash = [first p] ∧ rest p = [] ∨
      p.splitOn slash = first p :: (rest p).splitOn slash := by
  have hsplit : first p ++ p.dropWhile (· != slash) = p := takeWhile_append_dropWhile
  have hfirst : ∀ x ∈ first p, (x == slash) = false := by
    intro x hx
    simpa using mem_takeWhile_imp hx
  cases hdrop : p.dropWhile (· != slash) with
  | nil =>
    left
    rw [hdrop, append_nil] at hsplit
    refine ⟨?_, by rw [rest, hdrop]; rfl⟩
    conv_lhs => rw [← hsplit]
    exact splitOnP_eq_singleton hfirst
  | cons c q =>
    right
    have hc : (c == slash) = true := by
      have hhead := head_dropWhile_not (· != slash) (l := p) (by simp [hdrop])
      simpa [hdrop] using hhead
    rw [hdrop] at hsplit
    have hrest : rest p = q := by rw [rest, hdrop]; rfl
    rw [hrest]
    conv_lhs => rw [← hsplit]
    exact splitOnP_append_cons_of_forall_mem hfirst c hc q

lemma components_of_first (h : first p ≠ []) : components p = first p :: components (rest p) := by
  unfold components
  rcases splitOn_of_first p with ⟨hsplit, hrest⟩ | hsplit
  · rw [hsplit, hrest]
    simp [h]
  · rw [hsplit]
    simp [h]

lemma components_of_first_nil {c : UInt8} (h : first (c :: p) = []) :
    components (c :: p) = components p := by
  have hc : c = slash := by
    by_contra hne
    simp [first, hne] at h
  subst hc
  unfold components
  rcases splitOn_of_first (slash :: p) with - | hsplit
  · rfl
  · have hrest : rest (slash :: p) = p := by simp [rest]
    rw [hsplit, hrest, h]
    simp

/-- The rounds of the loop do what the components that they read say. -/
lemma resolve_of_rounds {t : Tree} {n : ℕ} {p' : List UInt8} {place place' : List Name}
    (h : rounds t n p place = some (place', p')) :
    resolve t place (components p) = resolve t place' (components p') := by
  induction n generalizing p place with
  | zero =>
    cases h
    rfl
  | succ n ih =>
    cases p with
    | nil =>
      cases h
      rfl
    | cons c p =>
      simp only [rounds] at h
      split at h
      next hempty => rw [components_of_first_nil hempty, ih h]
      next hname =>
        rw [components_of_first hname, resolve]
        split at h
        next => cases h
        next =>
          split at h
          next hup => rw [if_pos hup, ih h]
          next hup =>
            rw [if_neg hup]
            split at h
            next hdot => rw [if_pos hdot, ih h]
            next hdot =>
              rw [if_neg hdot]
              split at h
              next hin => rw [if_pos hin, ih h]
              next => cases h

/-! ## Caches of a tree -/

/-- The dentries of the cache stand for places of the tree. -/
structure Caches (t : Tree) (s : Cache) (place : ℕ → List Name) : Prop where
  links : Linked s
  look : s.look = t.look
  root : ∃ e, s.heap s.root = some e ∧ e.inode = some t.root
  rootPlace : place s.root = []
  parentPlace : ∀ d e p, s.heap d = some e → e.parent = some p → place d = e.name :: place p
  inode : ∀ d e i, s.heap d = some e → e.inode = some i → inodeAt t (place d) = some i
  above : ∀ d e p ep, s.heap d = some e → e.inode.isSome → e.parent = some p →
    s.heap p = some ep → ep.inode.isSome
  mounts : ∀ names i, names ≠ [] → t.mounted names = some i →
    ∃ d e, s.heap d = some e ∧ place d = names ∧ e.inode = some i

/-- The dentry is the one of a place: its ancestors up to the root have the names. -/
def At (s : Cache) (d : ℕ) : List Name → Prop
  | [] => d = s.root
  | name :: place =>
    ∃ e p, s.heap d = some e ∧ e.name = name ∧ e.parent = some p ∧ At s p place

/-- The place has a dentry. -/
def Cached (s : Cache) (names : List Name) : Prop := ∃ d, At s d names

/-- No dentry goes. -/
def Grows (s s' : Cache) : Prop := ∀ d, (s.heap d).isSome → (s'.heap d).isSome

variable {t : Tree} {s s' : Cache} {place : ℕ → List Name}

section

variable (h : Caches t s place)

include h

/-- A dentry that is not the root has a parent, one place up. -/
lemma Caches.parent (hd : s.heap d = some e) (hne : d ≠ s.root) :
    ∃ p ep, e.parent = some p ∧ s.heap p = some ep ∧ d ∈ ep.child ∧
      place d = e.name :: place p := by
  obtain ⟨p, ep, hpar, hep, hmem⟩ := h.links.parent d e hd hne
  exact ⟨p, ep, hpar, hep, hmem, h.parentPlace d e p hd hpar⟩

lemma Caches.eq_root (hd : s.heap d = some e) (hplace : place d = []) : d = s.root := by
  by_contra hne
  obtain ⟨p, _, -, -, -, hpos⟩ := h.parent hd hne
  simp [hplace] at hpos

lemma Caches.ne_root (hplace : place d = name :: names) : d ≠ s.root := by
  rintro rfl
  simp [h.rootPlace] at hplace

lemma Caches.at (hd : s.heap d = some e) : At s d (place d) := by
  generalize hplace : place d = names
  induction names generalizing d e with
  | nil => exact h.eq_root hd hplace
  | cons _ names ih =>
    obtain ⟨p, _, hparent, hp, -, hpos⟩ := h.parent hd (h.ne_root hplace)
    rw [hplace, cons.injEq] at hpos
    exact ⟨e, p, hd, hpos.1.symm, hparent, ih hp hpos.2.symm⟩

lemma Caches.place_eq (hat : At s d names) : place d = names := by
  induction names generalizing d with
  | nil =>
    obtain rfl : d = s.root := hat
    exact h.rootPlace
  | cons _ names ih =>
    obtain ⟨e, p, hd, rfl, hparent, hat⟩ := hat
    rw [h.parentPlace d e p hd hparent, ih hat]

lemma Caches.cached_iff : Cached s names ↔ ∃ d e, s.heap d = some e ∧ place d = names := by
  constructor
  · rintro ⟨d, hat⟩
    cases names with
    | nil =>
      obtain rfl : d = s.root := hat
      obtain ⟨e, hroot, -⟩ := h.root
      exact ⟨s.root, e, hroot, h.rootPlace⟩
    | cons name names =>
      have hplace := h.place_eq hat
      obtain ⟨e, -, hd, -⟩ := hat
      exact ⟨d, e, hd, hplace⟩
  · rintro ⟨d, e, hd, rfl⟩
    exact ⟨d, h.at hd⟩

/-! ## Changes that keep the tree -/

omit h in
lemma grows_put (s : Cache) (d : ℕ) (e : Dentry) : Grows s (s.put d e) := by
  intro d' hd'
  by_cases heq : d' = d
  · rw [heq, put_heap_self]
    rfl
  · rwa [put_heap_of_ne _ heq]

/-- Nothing that the tree depends on has changed. -/
lemma Caches.of_heap (hheap : s'.heap = s.heap) (hnext : s'.next = s.next)
    (hroot : s'.root = s.root) (hlook : s'.look = s.look) : Caches t s' place := by
  refine ⟨h.links.of_heap hheap hnext hroot, hlook.trans h.look, ?_, ?_, ?_, ?_, ?_, ?_⟩
  · rw [hheap, hroot]
    exact h.root
  · rw [hroot]
    exact h.rootPlace
  all_goals rw [hheap]
  · exact h.parentPlace
  · exact h.inode
  · exact h.above
  · exact h.mounts

/-- A dentry changes, but not its name and not its links, and an inode stays. -/
lemma Caches.put {e' : Dentry} (hd : s.heap d = some e)
    (hsame : SameLinks e e') (hkeep : e.inode.isSome → e'.inode = e.inode)
    (hinode : ∀ i, e'.inode = some i → inodeAt t (place d) = some i)
    (habove : e'.inode.isSome → ∀ p ep, e.parent = some p → s.heap p = some ep → ep.inode.isSome) :
    Caches t (s.put d e') place := by
  have hstays : ∀ {d' : ℕ} {x x0 : Dentry}, (x = x0 ∨ d' = d ∧ x0 = e ∧ x = e') →
      x0.inode.isSome → x.inode = x0.inode := by
    rintro d' x x0 (rfl | ⟨-, rfl, rfl⟩) hsome
    · rfl
    · exact hkeep hsome
  refine ⟨h.links.put hd hsame, h.look, ?_, h.rootPlace, ?_, ?_, ?_, ?_⟩
  · obtain ⟨_, hr0, hi⟩ := h.root
    obtain ⟨r, hr, -, hr'⟩ := put_new hd hsame hr0
    exact ⟨r, hr, (hstays hr' (by rw [hi]; rfl)).trans hi⟩
  · intro d' x p hx hpar
    obtain ⟨x0, hx0, ⟨hn, hp, -⟩, -⟩ := put_old hd hsame hx
    rw [hn]
    exact h.parentPlace d' x0 p hx0 (hp ▸ hpar)
  · intro d' x i hx hi
    rcases put_cases hx with ⟨rfl, rfl⟩ | ⟨-, hx'⟩
    · exact hinode i hi
    · exact h.inode d' x i hx' hi
  · intro d' x p ep hx hi hpar hep
    obtain ⟨ep0, hep0, -, hep'⟩ := put_old hd hsame hep
    have hsome : ep0.inode.isSome := by
      rcases put_cases hx with ⟨rfl, rfl⟩ | ⟨-, hx'⟩
      · exact habove hi p ep0 (hsame.2.1 ▸ hpar) hep0
      · exact h.above d' x p ep0 hx' hi hpar hep0
    rwa [hstays hep' hsome]
  · intro names i hne hm
    obtain ⟨c, _, hec0, hplace, hi⟩ := h.mounts names i hne hm
    obtain ⟨ec, hec, -, hec'⟩ := put_new hd hsame hec0
    exact ⟨c, ec, hec, hplace, (hstays hec' (by rw [hi]; rfl)).trans hi⟩

/-- Two dentries are at two places. -/
lemma Caches.place_inj {d' : ℕ} {e' : Dentry}
    (hd : s.heap d = some e) (hd' : s.heap d' = some e') (heq : place d = place d') : d = d' := by
  generalize hplace : place d = names at heq
  induction names generalizing d d' e e' with
  | nil => rw [h.eq_root hd hplace, h.eq_root hd' heq.symm]
  | cons _ names ih =>
    obtain ⟨p, ep, -, hp, hmem, hpos⟩ := h.parent hd (h.ne_root hplace)
    obtain ⟨p', ep', -, hp', hmem', hpos'⟩ := h.parent hd' (h.ne_root heq.symm)
    rw [hplace, cons.injEq] at hpos
    rw [← heq, cons.injEq] at hpos'
    obtain rfl : p = p' := ih hp hp' hpos.2.symm hpos'.2
    cases hp.symm.trans hp'
    exact h.links.names p ep hp d hmem d' hmem' e e' hd hd' (hpos.1.symm.trans hpos'.1)

/-- A new dentry below `cur`, under a name that none of the children has. -/
lemma Caches.grown (hcur : s.heap cur = some e)
    (hnew : ∀ c ∈ e.child, ∀ ec, s.heap c = some ec → ec.name ≠ name) :
    Caches t (s.grown cur e name) (update place s.next (name :: place cur)) := by
  have hlinks := h.links
  have hlive : ∀ d x, s.heap d = some x → update place s.next (name :: place cur) d = place d :=
    fun d x hx => update_of_ne (hlinks.fresh d x hx).ne _ _
  refine ⟨hlinks.grown hcur hnew, h.look, ?_, ?_, ?_, ?_, ?_, ?_⟩
  · obtain ⟨r0, hr0, hi⟩ := h.root
    obtain ⟨r, hr, hsame⟩ := grown_new hlinks hcur name hr0
    exact ⟨r, hr, hsame.inode.trans hi⟩
  · obtain ⟨r0, hr0, -⟩ := h.root
    exact (hlive _ r0 hr0).trans h.rootPlace
  · intro d x p hx hpar
    rcases grown_old hlinks hcur hx with ⟨rfl, rfl⟩ | ⟨-, x0, hx0, hsame⟩
    · cases hpar
      rw [update_self, hlive cur e hcur]
      rfl
    · rw [hsame.parent] at hpar
      obtain ⟨-, ep, hep, -⟩ := hlinks.parent_live hx0 hpar
      rw [hlive d x0 hx0, hlive p ep hep, hsame.name]
      exact h.parentPlace d x0 p hx0 hpar
  · intro d x i hx hi
    rcases grown_old hlinks hcur hx with ⟨rfl, rfl⟩ | ⟨-, x0, hx0, hsame⟩
    · cases hi
    · rw [hsame.inode] at hi
      rw [hlive d x0 hx0]
      exact h.inode d x0 i hx0 hi
  · intro d x p ep hx hi hpar hep
    rcases grown_old hlinks hcur hx with ⟨rfl, rfl⟩ | ⟨-, x0, hx0, hsame⟩
    · cases hi
    · rw [hsame.parent] at hpar
      rw [hsame.inode] at hi
      obtain ⟨-, ep0, hep0, -⟩ := hlinks.parent_live hx0 hpar
      obtain ⟨ep', hep', hsame'⟩ := grown_new hlinks hcur name hep0
      cases hep'.symm.trans hep
      rw [hsame'.inode]
      exact h.above d x0 p ep0 hx0 hi hpar hep0
  · intro names i hne hm
    obtain ⟨d, x0, hx0, hpos, hi⟩ := h.mounts names i hne hm
    obtain ⟨x, hx, hsame⟩ := grown_new hlinks hcur name hx0
    exact ⟨d, x, hx, (hlive d x0 hx0).trans hpos, hsame.inode.trans hi⟩

/-! ## One component -/

omit h in
/-- The answers of the allocators are yes. -/
def Ready (s : Cache) : Prop := ∀ n, s.mem n = true

lemma Caches.ask : Caches t (ask s).2 place := h.of_heap rfl rfl rfl rfl

omit h in
lemma Ready.ask (h : Ready s) : (ask s).1 = true ∧ Ready (ask s).2 := ⟨h 0, fun n => h (n + 1)⟩

omit h in
/-- The inode of a place where nothing is mounted is found in the directory. -/
lemma inodeAt_of_not_mounted
    (hi : inodeAt t names = some i) (hm : t.mounted (name :: names) = none) :
    inodeAt t (name :: names) = t.look i name := by
  simp only [inodeAt, hi, hm, none_or]

omit h in
/-- What the step from `cur` under a name comes to. -/
structure Entered (t : Tree) (s : Cache) (place : ℕ → List Name) (names : List Name)
    (r : Option ℕ) (s' : Cache) (place' : ℕ → List Name) : Prop where
  caches : Caches t s' place'
  grows : Grows s s'
  stays : ∀ d, (s.heap d).isSome → place' d = place d
  there : ∀ c, r = some c → place' c = names ∧ ∃ e i, s'.heap c = some e ∧ e.inode = some i
  ready : Ready s → Ready s' ∧ ((inodeAt t names).isSome → r.isSome)

lemma finishChild_of_caches {c : ℕ} {ec : Dentry}
    (hcur : s.heap cur = some e) (hi : e.inode = some i) (hc : s.heap c = some ec)
    (hpar : ec.parent = some cur) (hnone : ec.inode = none) {found : Option ℕ}
    (hfound : ∀ j, found = some j → inodeAt t (place c) = some j) :
    ∃ s', finishChild s c found = some (found.isSome, s') ∧ Caches t s' place ∧
      Grows s s' ∧ s'.total = s.total ∧ s'.mem = s.mem ∧
      (found.isSome → ∃ e' j, s'.heap c = some e' ∧ e'.inode = some j) := by
  have habove : ∀ p ep, ec.parent = some p → s.heap p = some ep → ep.inode.isSome := by
    intro p ep hp hep
    cases hpar.symm.trans hp
    cases hcur.symm.trans hep
    rw [hi]
    rfl
  simp only [finishChild, hc]
  have hkeep : ∀ inode, ec.inode.isSome → inode = ec.inode := by
    intro inode hsome
    simp [hnone] at hsome
  cases found with
  | none =>
    refine ⟨_, rfl, h.put hc ⟨rfl, rfl, rfl⟩ (hkeep _) ?_ ?_, grows_put _ _ _, rfl, rfl, by simp⟩
    · exact fun i hi => absurd hi (by simp)
    · exact fun hsome => absurd hsome (by simp)
  | some j =>
    have hput : Caches t (s.put c { ec with inode := some j }) place := by
      refine h.put hc ⟨rfl, rfl, rfl⟩ (hkeep _) (fun j' hj' => ?_) fun _ => habove
      cases hj'
      exact hfound j rfl
    exact ⟨_, rfl, hput, grows_put _ _ _, rfl, rfl, fun _ => ⟨_, j, put_heap_self _ _ _, rfl⟩⟩

lemma resolveChild_of_caches {c : ℕ} {ec : Dentry}
    (hcur : s.heap cur = some e) (hi : e.inode = some i) (hc : s.heap c = some ec)
    (hpar : ec.parent = some cur) (hnone : ec.inode = none) (hname : ec.name = name)
    (hm : t.mounted (name :: place cur) = none) :
    ∃ ok s', resolveChild s cur c name = some (ok, s') ∧
      Entered t s place (name :: place cur) (if ok then some c else none) s' place ∧
      s'.total = s.total := by
  have hplace : place c = name :: place cur := by rw [h.parentPlace c ec cur hc hpar, hname]
  have hne : c ≠ cur := by
    rintro rfl
    cases hcur.symm.trans hc
    simp [hi] at hnone
  -- the reference count of the parent does not matter
  have hbumped : ∀ b : Bool, ∃ s1 e1, (if b then (ask s).2.put cur
      { e with refcount := bump e.refcount - 1 } else (ask s).2) = s1 ∧ Caches t s1 place ∧
      s1.heap cur = some e1 ∧ e1.inode = some i ∧ s1.heap c = some ec ∧ Grows s s1 ∧
      s1.total = s.total ∧ s1.mem = (ask s).2.mem ∧ s1.look = t.look := by
    rintro (_ | _)
    · exact ⟨_, e, rfl, h.ask, hcur, hi, hc, fun _ hd => hd, rfl, rfl, h.look⟩
    · refine ⟨_, _, rfl, h.ask.put hcur ⟨rfl, rfl, rfl⟩ (fun _ => rfl) (fun j hj => ?_) ?_,
        put_heap_self _ _ _, hi, ?_, grows_put (Vfs.ask s).2 _ _, rfl, rfl, h.look⟩
      · exact h.inode cur e j hcur hj
      · exact fun hsome p ep => h.above cur e p ep hcur hsome
      · rwa [if_pos rfl, put_heap_of_ne _ hne]
  obtain ⟨s1, e1, hs1, hcaches, hcur1, hi1, hc1, hgrows, htotal, hmem, hlook⟩ :=
    hbumped (Vfs.ask s).1
  have hfound : ∀ j, (callLookup s1 e.inode name).1 = some j → inodeAt t (place c) = some j := by
    intro j hj
    rw [hplace, inodeAt_of_not_mounted (h.inode cur e i hcur hi) hm]
    simp only [callLookup, hi, bind_some, hlook] at hj
    split at hj
    · exact hj
    · cases hj
  obtain ⟨s', hfinish, hcaches', hgrows', htotal', hmem', hthere⟩ := finishChild_of_caches
    (s := (callLookup s1 e.inode name).2) hcaches.ask hcur1 hi1 hc1 hpar hnone hfound
  have hask : (ask s).2.heap cur = some e := hcur
  refine ⟨(callLookup s1 e.inode name).1.isSome, s', ?_,
    ⟨hcaches', fun d hd => hgrows' d (hgrows d hd), fun _ _ => rfl, ?_, ?_⟩, ?_⟩
  · simp only [resolveChild, hask, hs1]
    exact hfinish
  · intro c' hc'
    split at hc'
    next hsome =>
      cases hc'
      exact ⟨hplace, hthere hsome⟩
    next => cases hc'
  · intro hready
    obtain ⟨-, hready1⟩ := hready.ask
    have hready' : Ready s1 := by
      intro n
      rw [hmem]
      exact hready1 n
    refine ⟨fun n => ?_, fun hsome => ?_⟩
    · rw [hmem']
      exact hready'.ask.2 n
    · rw [inodeAt_of_not_mounted (h.inode cur e i hcur hi) hm] at hsome
      have hcall : (callLookup s1 e.inode name).1 = t.look i name := by
        simp only [callLookup, hi, bind_some, hlook, hready'.ask.1, if_true]
      rw [hcall, if_pos hsome]
      rfl
  · exact htotal'.trans htotal

/-- Where a dentry without an inode, or none, is among the children, nothing is mounted. -/
lemma Caches.not_mounted (hcur : s.heap cur = some e)
    (hneg : ∀ c ∈ e.child, ∀ ec, s.heap c = some ec → ec.name = name → ec.inode = none) :
    t.mounted (name :: place cur) = none := by
  by_contra hsome
  obtain ⟨i, hi⟩ := ne_none_iff_exists'.1 hsome
  obtain ⟨d, x, hd, hplace, hx⟩ := h.mounts _ i (cons_ne_nil _ _) hi
  obtain ⟨p, ep, -, hep, hmem, hpos⟩ := h.parent hd (h.ne_root hplace)
  rw [hplace, cons.injEq] at hpos
  obtain rfl : cur = p := h.place_inj hcur hep hpos.2
  cases hcur.symm.trans hep
  simp [hneg d hmem x hd hpos.1.symm] at hx

omit h in
/-- The dentry is allocated without an eviction. -/
lemma dentryAlloc_of_room (cur : ℕ) (name : Name) (hroom : s.total + 1 ≤ maxDentries) :
    (∃ s', dentryAlloc s name (some cur) = some (none, s') ∧ ¬ Ready s ∧ s'.heap = s.heap ∧
      s'.next = s.next ∧ s'.root = s.root ∧ s'.look = s.look ∧ s'.total = s.total) ∨
    dentryAlloc s name (some cur)
      = some (some s.next, (ask (ask s).2).2.addDentry name (some cur)) := by
  simp only [dentryAlloc]
  by_cases ha : (ask s).1 = false
  · rw [if_pos ha]
    refine .inl ⟨_, rfl, fun hready => ?_, rfl, rfl, rfl, rfl, rfl⟩
    simp [hready.ask.1] at ha
  · rw [if_neg ha]
    by_cases hb : (ask (ask s).2).1 = false
    · rw [if_pos hb]
      refine .inl ⟨_, rfl, fun hready => ?_, rfl, rfl, rfl, rfl, rfl⟩
      simp [hready.ask.2.ask.1] at hb
    · rw [if_neg hb]
      have hno : ¬ ((ask (ask s).2).2.addDentry name (some cur)).total > maxDentries := by
        change ¬ s.total + 1 > maxDentries
        omega
      rw [if_neg hno]
      exact .inr rfl

/-- **One component**: if the place of that name has a dentry, or with room for another one, the
step does not fault, and it goes to that place if it goes on. -/
lemma enterChild_of_caches (hcur : s.heap cur = some e) (hi : e.inode = some i) (name : Name)
    (hroom : ¬ Cached s (name :: place cur) → s.total + 1 ≤ maxDentries) :
    ∃ r s' place', enterChild s cur name = some (r, s') ∧
      Entered t s place (name :: place cur) r s' place' ∧
      (s'.total = s.total ∨ ¬ Cached s (name :: place cur) ∧ s'.total = s.total + 1) := by
  unfold enterChild
  rcases h.links.lookupChild hcur name with ⟨hnone, hnew⟩ | ⟨c, hmem, ec, hfound, hc, hname⟩
  · simp only [hnone]
    have hm : t.mounted (name :: place cur) = none :=
      h.not_mounted hcur fun c hc ec hec hn => absurd hn (hnew c hc ec hec)
    have hmiss : ¬ Cached s (name :: place cur) := by
      rw [h.cached_iff]
      rintro ⟨d, x, hd, hplace⟩
      obtain ⟨p, ep, -, hep, hmem, hpos⟩ := h.parent hd (h.ne_root hplace)
      rw [hplace, cons.injEq] at hpos
      obtain rfl : cur = p := h.place_inj hcur hep hpos.2
      cases hcur.symm.trans hep
      exact hnew d hmem x hd hpos.1.symm
    rcases dentryAlloc_of_room cur name (hroom hmiss) with
      ⟨s', halloc, hready, hheap, hnext, hroot, hlook, htotal⟩ | halloc
    · simp only [halloc]
      refine ⟨none, s', place, rfl, ⟨h.of_heap hheap hnext hroot hlook, ?_, fun _ _ => rfl, ?_,
        fun hr => absurd hr hready⟩, .inl htotal⟩
      · exact fun d hd => by rwa [hheap]
      · exact fun c hc => absurd hc (by simp)
    · simp only [halloc]
      have h2 : Caches t (ask (ask s).2).2 place := h.ask.ask
      have hcur2 : (ask (ask s).2).2.heap cur = some e := hcur
      have hgrown := h2.grown hcur2 hnew
      have hadd : dentryAddChild ((ask (ask s).2).2.addDentry name (some cur)) cur s.next
          = some ((ask (ask s).2).2.grown cur e name) := by
        have hold : ((ask (ask s).2).2.addDentry name (some cur)).heap cur = some e :=
          (put_heap_of_ne _ (h.links.fresh cur e hcur).ne).trans hcur
        have hnext : ((ask (ask s).2).2.addDentry name (some cur)).heap s.next
            = some (freshDentry name cur) := update_self _ _ _
        simp only [dentryAddChild, hold, hnext]
        rfl
      have hplaceCur : update place s.next (name :: place cur) cur = place cur :=
        update_of_ne (h.links.fresh cur e hcur).ne _ _
      simp only [hadd]
      have hcur3 : ((ask (ask s).2).2.grown cur e name).heap cur
          = some { e with child := s.next :: e.child } := put_heap_self _ _ _
      obtain ⟨ok, s', hresolve, hentered, htotal⟩ := resolveChild_of_caches hgrown hcur3 hi
        (grown_heap_next h2.links hcur2 name) rfl rfl rfl (by
          show t.mounted (name :: update place s.next (name :: place cur) cur) = none
          rw [hplaceCur]
          exact hm)
      have hplaceCur' : update place (ask (ask s).2).2.next (name :: place cur) cur
          = place cur := hplaceCur
      rw [hplaceCur'] at hentered
      have hresolve' : resolveChild ((ask (ask s).2).2.grown cur e name) cur s.next name
          = some (ok, s') := hresolve
      simp only [hresolve']
      have hold : ∀ d, (s.heap d).isSome → ∃ x, s.heap d = some x := fun d => isSome_iff_exists.1
      refine ⟨_, s', _, rfl, ⟨hentered.caches, fun d hd => ?_, fun d hd => ?_, hentered.there,
        fun hready => hentered.ready hready.ask.2.ask.2⟩, .inr ⟨hmiss, htotal⟩⟩
      · obtain ⟨x, hx⟩ := hold d hd
        obtain ⟨x', hx', -⟩ := grown_new h2.links hcur2 name hx
        exact hentered.grows d (by rw [hx']; rfl)
      · obtain ⟨x, hx⟩ := hold d hd
        exact update_of_ne (h.links.fresh d x hx).ne _ _
  · simp only [hfound, hc]
    obtain ⟨ec', hc', hpar⟩ := h.links.child cur e hcur c hmem
    cases hc.symm.trans hc'
    have hplace : place c = name :: place cur := by rw [h.parentPlace c ec cur hc hpar, hname]
    cases hinode : ec.inode with
    | some j =>
      rw [if_pos (isSome_some)]
      refine ⟨some c, lruTouch s c, place, rfl, ⟨h.of_heap rfl rfl rfl rfl, fun _ hd => hd,
        fun _ _ => rfl, ?_, fun hready => ⟨hready, fun _ => rfl⟩⟩, .inl rfl⟩
      intro c' hc'
      cases hc'
      exact ⟨hplace, ec, j, hc, hinode⟩
    | none =>
      rw [if_neg (by simp)]
      have hm : t.mounted (name :: place cur) = none := by
        refine h.not_mounted hcur fun c' hc' ec' hec' hname' => ?_
        obtain rfl : c = c' := h.links.names cur e hcur c hmem c' hc' ec ec' hc hec'
          (hname.trans hname'.symm)
        cases hc.symm.trans hec'
        exact hinode
      obtain ⟨ok, s', hresolve, hentered, htotal⟩ := resolveChild_of_caches h hcur hi hc hpar hinode
        hname hm
      simp only [hresolve]
      exact ⟨_, s', place, rfl, hentered, .inl htotal⟩

/-! ## The loop -/

omit h in
/-- What a walk comes to, given the place and the rest that the rounds lead to. -/
structure Walked (t : Tree) (s : Cache) (out : Option (List Name × List UInt8)) (r : Option ℕ)
    (s' : Cache) (place' : ℕ → List Name) : Prop where
  caches : Caches t s' place'
  there : ∀ d, r = some d → (∃ q, out = some (place' d, q)) ∧
    ∃ e i, s'.heap d = some e ∧ e.inode = some i
  ready : Ready s → out.isSome → r.isSome

omit h in
/-- The places without a dentry are among `new`, for which there is room. -/
structure Room (s : Cache) (places : List (List Name)) (new : Finset (List Name)) : Prop where
  covered : ∀ names ∈ places, Cached s names ∨ names ∈ new
  room : new.Nonempty → s.total + new.card ≤ maxDentries

omit h in
lemma Room.enough {places : List (List Name)} {new : Finset (List Name)}
    (hroom : Room s (names :: places) new) (hmiss : ¬ Cached s names) :
    names ∈ new ∧ s.total + 1 ≤ maxDentries := by
  have hmem := (hroom.covered names mem_cons_self).resolve_left hmiss
  have hcard : 0 < new.card := Finset.card_pos.2 ⟨names, hmem⟩
  have hle := hroom.room ⟨names, hmem⟩
  exact ⟨hmem, by omega⟩

/-- A step leaves room for the rest of the way. -/
lemma Entered.room {r : Option ℕ} {place' : ℕ → List Name} {places : List (List Name)}
    {new : Finset (List Name)} (hentered : Entered t s place names r s' place') (hr : r.isSome)
    (htotal : s'.total = s.total ∨ ¬ Cached s names ∧ s'.total = s.total + 1)
    (hroom : Room s (names :: places) new) : ∃ new', Room s' places new' := by
  have hkept : ∀ {names'}, Cached s names' → Cached s' names' := by
    intro names' hcached
    obtain ⟨d, e, hd, hplace⟩ := h.cached_iff.1 hcached
    have hsome : (s.heap d).isSome := by rw [hd]; rfl
    obtain ⟨e', he'⟩ := isSome_iff_exists.1 (hentered.grows d hsome)
    exact hentered.caches.cached_iff.2 ⟨d, e', he', (hentered.stays d hsome).trans hplace⟩
  have hhere : Cached s' names := by
    obtain ⟨c, hc⟩ := isSome_iff_exists.1 hr
    obtain ⟨hplace, e, -, he, -⟩ := hentered.there c hc
    exact hentered.caches.cached_iff.2 ⟨c, e, he, hplace⟩
  rcases htotal with htotal | ⟨hmiss, htotal⟩
  · refine ⟨new, fun names' hmem => ?_, htotal ▸ hroom.room⟩
    exact (hroom.covered names' (mem_cons_of_mem _ hmem)).imp_left hkept
  · obtain ⟨hmem, -⟩ := hroom.enough hmiss
    refine ⟨new.erase names, fun names' hmem' => ?_, fun _ => ?_⟩
    · rcases hroom.covered names' (mem_cons_of_mem _ hmem') with hcached | hnew
      · exact .inl (hkept hcached)
      · by_cases heq : names' = names
        · exact .inl (heq ▸ hhere)
        · exact .inr (Finset.mem_erase.2 ⟨heq, hnew⟩)
    · have hcard := Finset.card_erase_add_one hmem
      have hle := hroom.room ⟨names, hmem⟩
      omega

/-- The parent of a dentry with an inode has one, too; the root is its own parent here. -/
lemma Caches.dotDot (hcur : s.heap cur = some e) (hi : e.inode = some i) :
    place (e.parent.getD cur) = (place cur).tail ∧
      ∃ e' i', s.heap (e.parent.getD cur) = some e' ∧ e'.inode = some i' := by
  by_cases hroot : cur = s.root
  · subst hroot
    obtain ⟨r, hr, hnone⟩ := h.links.root
    obtain rfl : r = e := some.inj (hr.symm.trans hcur)
    rw [hnone, getD_none, h.rootPlace]
    exact ⟨rfl, r, i, hcur, hi⟩
  · obtain ⟨p, ep, hpar, hep, -, hplace⟩ := h.parent hcur hroot
    obtain ⟨i', hi'⟩ := isSome_iff_exists.1
      (h.above cur e p ep hcur (by rw [hi]; rfl) hpar hep)
    rw [hpar, getD_some, hplace]
    exact ⟨rfl, ep, i', hep, hi'⟩

/-- **The walk follows the rounds**: it does not fault, and it ends at the place that the
rounds lead to. -/
lemma walk_of_caches (hcur : s.heap cur = some e) (hi : e.inode = some i) (n : ℕ) (p : List UInt8)
    {new : Finset (List Name)} (hroom : Room s (entered t n p (place cur)) new) :
    ∃ r s' place', walk n p cur s = some (r, s') ∧
      Walked t s (rounds t n p (place cur)) r s' place' := by
  induction n generalizing s place cur e i p new with
  | zero =>
    refine ⟨some cur, s, place, rfl, h, fun d hd => ?_, fun _ _ => rfl⟩
    cases hd
    exact ⟨⟨p, rfl⟩, e, i, hcur, hi⟩
  | succ n ih =>
    cases p with
    | nil =>
      refine ⟨some cur, s, place, rfl, h, fun d hd => ?_, fun _ _ => rfl⟩
      cases hd
      exact ⟨⟨[], rfl⟩, e, i, hcur, hi⟩
    | cons c p =>
      simp only [walk, rounds]
      simp only [entered] at hroom
      by_cases hempty : first (c :: p) = []
      · simp only [if_pos hempty] at hroom ⊢
        exact ih h hcur hi p hroom
      simp only [if_neg hempty] at hroom ⊢
      by_cases hlong : (first (c :: p)).length > 255
      · rw [if_pos hlong, if_pos hlong]
        exact ⟨none, s, place, rfl, h, fun d hd => absurd hd (by simp), fun _ hs => by simp at hs⟩
      simp only [if_neg hlong] at hroom ⊢
      by_cases hup : first (c :: p) = dotDot
      · obtain ⟨hplace, e', i', hcur', hi'⟩ := h.dotDot hcur hi
        simp only [if_pos hup, hcur, ← hplace] at hroom ⊢
        exact ih h hcur' hi' _ hroom
      simp only [if_neg hup] at hroom ⊢
      by_cases hdot : first (c :: p) = dot
      · simp only [if_pos hdot] at hroom ⊢
        exact ih h hcur hi _ hroom
      simp only [if_neg hdot] at hroom ⊢
      have henough : ¬ Cached s (first (c :: p) :: place cur) → s.total + 1 ≤ maxDentries := by
        intro hmiss
        split at hroom
        · exact (hroom.enough hmiss).2
        · exact (hroom.enough hmiss).2
      obtain ⟨r, s', place', henter, hentered, htotal⟩ := enterChild_of_caches h hcur hi
        (first (c :: p)) henough
      simp only [henter]
      cases r with
      | none =>
        refine ⟨none, s', place', rfl, hentered.caches, fun d hd => absurd hd (by simp), ?_⟩
        intro hready hsome
        split at hsome
        next hin => exact absurd ((hentered.ready hready).2 hin) (by simp)
        next => cases hsome
      | some cur' =>
        obtain ⟨hplace, e', i', hcur', hi'⟩ := hentered.there cur' rfl
        have hin : (inodeAt t (first (c :: p) :: place cur)).isSome := by
          rw [← hplace, hentered.caches.inode cur' e' i' hcur' hi']
          rfl
        rw [if_pos hin] at hroom
        obtain ⟨new', hroom'⟩ := hentered.room h rfl htotal hroom
        rw [← hplace] at hroom'
        obtain ⟨r, s'', place'', hwalk, hwalked⟩ := ih hentered.caches hcur' hi'
          (rest (c :: p)) hroom'
        rw [if_pos hin, ← hplace]
        exact ⟨r, s'', place'', hwalk, hwalked.caches, hwalked.there,
          fun hready => hwalked.ready (hentered.ready hready).1⟩

/-! ## Lookups -/

omit h in
/-- A lookup does not fault, and the dentry that it ends at is the one that the components
of the path lead to from the root, with the inode of that place. -/
def Resolves (t : Tree) (s : Cache) (path : List UInt8) : Prop :=
  ∃ r s', vfsLookup s path = some (r, s') ∧ ∀ d, r = some d →
    ∃ names, resolve t [] (components path) = some names ∧ At s' d names ∧
      ∃ e, s'.heap d = some e ∧ e.inode = inodeAt t names

omit h in
/-- What is left of the path after sixty-four rounds leads nowhere else. -/
def Within (t : Tree) (path : List UInt8) : Prop :=
  path.head? = some slash → path.length ≤ 4096 →
    ∀ names q, rounds t 64 path.tail [] = some (names, q) →
      resolve t names (components q) = some names

omit h in
open Classical in
/-- The places that the rounds of a lookup enter and that have no dentry. -/
noncomputable def missing (t : Tree) (s : Cache) (path : List UInt8) : Finset (List Name) :=
  (entered t 64 path.tail []).toFinset.filter fun names => ¬ Cached s names

omit h in
lemma room_of_missing (hroom : (missing t s (slash :: p)).Nonempty →
    s.total + (missing t s (slash :: p)).card ≤ maxDentries) :
    Room s (entered t 64 p []) (missing t s (slash :: p)) := by
  refine ⟨fun names hmem => ?_, hroom⟩
  by_cases hcached : Cached s names
  · exact .inl hcached
  · right
    simp [missing, hmem, hcached]

/-- The walk of a lookup, for an absolute path. -/
lemma vfsLookup_of_caches (hlong : (slash :: p).length ≤ 4096)
    (hroom : (missing t s (slash :: p)).Nonempty →
      s.total + (missing t s (slash :: p)).card ≤ maxDentries) :
    ∃ r s' place', vfsLookup s (slash :: p) = some (r, s') ∧
      Walked t s (rounds t 64 p []) r s' place' := by
  obtain ⟨e, hroot, hi⟩ := h.root
  obtain ⟨r, s', place', hwalk, hwalked⟩ := walk_of_caches h hroot hi 64 p
    (by rw [h.rootPlace]; exact room_of_missing hroom)
  rw [h.rootPlace] at hwalked
  refine ⟨r, s', place', ?_, hwalked⟩
  simp only [vfsLookup, ne_eq, not_true_eq_false, if_false]
  rw [if_neg (by omega), hwalk]

end

/-- Other paths are refused. -/
lemma vfsLookup_of_refused {path : List UInt8}
    (h : ¬ (path.head? = some slash ∧ path.length ≤ 4096)) : vfsLookup s path = some (none, s) := by
  cases path with
  | nil => rfl
  | cons c p =>
    simp only [vfsLookup]
    by_cases hc : c ≠ slash
    · rw [if_pos hc]
    · rw [if_neg hc]
      have hlong : (c :: p).length > 4096 := by
        by_contra hle
        exact h ⟨by simpa using hc, by omega⟩
      rw [if_pos hlong]

/-- A lookup with a walk that ends where the rounds lead. -/
lemma resolves_of_within (h : Within t (slash :: p))
    (hlong : (slash :: p).length ≤ 4096) {r : Option ℕ} {place' : ℕ → List Name}
    (hwalk : vfsLookup s (slash :: p) = some (r, s'))
    (hwalked : Walked t s (rounds t 64 p []) r s' place') : Resolves t s (slash :: p) := by
  refine ⟨r, s', hwalk, fun d hd => ?_⟩
  obtain ⟨⟨q, hrounds⟩, e, i, he, hi⟩ := hwalked.there d hd
  refine ⟨place' d, ?_, hwalked.caches.at he, e, he, ?_⟩
  · rw [components_of_first_nil (by simp [first]), resolve_of_rounds hrounds]
    exact h rfl hlong _ q hrounds
  · rw [hwalked.caches.inode d e i he hi, hi]

/-- If all the memory is there, a lookup that is right has come to the end of the path. -/
lemma within_of_resolves (h : Resolves t s (slash :: p)) (hready : Ready s)
    {r : Option ℕ} {place' : ℕ → List Name} (hwalk : vfsLookup s (slash :: p) = some (r, s'))
    (hwalked : Walked t s (rounds t 64 p []) r s' place') : Within t (slash :: p) := by
  intro _ _ names q (hrounds : rounds t 64 p [] = some (names, q))
  obtain ⟨r1, s1, hwalk1, hright⟩ := h
  obtain ⟨rfl, rfl⟩ : r = r1 ∧ s' = s1 := Prod.mk.inj (some.inj (hwalk.symm.trans hwalk1))
  obtain ⟨d, rfl⟩ := isSome_iff_exists.1 (hwalked.ready hready (by rw [hrounds]; rfl))
  obtain ⟨⟨q', hrounds'⟩, e, -, -, -⟩ := hwalked.there d rfl
  obtain ⟨rfl, rfl⟩ : names = place' d ∧ q = q' :=
    Prod.mk.inj (some.inj (hrounds.symm.trans hrounds'))
  obtain ⟨_, hresolve, hat, -⟩ := hright d rfl
  have hsame := hwalked.caches.place_eq hat
  rw [← resolve_of_rounds hrounds, hsame, ← hresolve, components_of_first_nil (by simp [first])]

lemma missing_mem (mem : ℕ → Bool) (path : List UInt8) :
    missing t { s with mem := mem } path = missing t s path := by
  have hat : ∀ names d, At { s with mem := mem } d names ↔ At s d names := by
    intro names
    induction names with
    | nil => exact fun d => Iff.rfl
    | cons _ names ih => simp only [At, ih, implies_true]
  have hcached : Cached { s with mem := mem } = Cached s :=
    funext fun names => propext (exists_congr (hat names))
  unfold missing
  rw [hcached]

/-- **Lookups.** As long as the cache has room for the places of the path that have no dentry, a
lookup is right whatever the allocators answer exactly if sixty-four rounds come to the end of
what the path says. -/
theorem resolves_iff (t : Tree) (s : Cache) (h : ∃ place, Caches t s place) (path : List UInt8)
    (hroom : (missing t s path).Nonempty → s.total + (missing t s path).card ≤ maxDentries) :
    (∀ mem, Resolves t { s with mem := mem } path) ↔ Within t path := by
  obtain ⟨place, hcaches⟩ := h
  by_cases hpath : path.head? = some slash ∧ path.length ≤ 4096
  · obtain ⟨hhead, hlong⟩ := hpath
    obtain ⟨p, rfl⟩ : ∃ p, path = slash :: p := by
      cases path with
      | nil => cases hhead
      | cons c p => exact ⟨p, by rw [some.inj hhead]⟩
    have hwalk : ∀ mem, ∃ r s' place', vfsLookup { s with mem := mem } (slash :: p) = some (r, s') ∧
        Walked t { s with mem := mem } (rounds t 64 p []) r s' place' :=
      fun mem => vfsLookup_of_caches (s := { s with mem := mem })
        (hcaches.of_heap rfl rfl rfl rfl) hlong (by rwa [missing_mem])
    constructor
    · intro hright
      obtain ⟨r, s', place', hw, hwalked⟩ := hwalk fun _ => true
      exact within_of_resolves (hright _) (fun _ => rfl) hw hwalked
    · intro hwithin mem
      obtain ⟨r, s', place', hw, hwalked⟩ := hwalk mem
      exact resolves_of_within hwithin hlong hw hwalked
  · refine ⟨fun _ hhead hlong => absurd ⟨hhead, hlong⟩ hpath, fun _ mem => ?_⟩
    exact ⟨none, _, vfsLookup_of_refused hpath, fun d hd => absurd hd (by simp)⟩

/-! ## A root with a filesystem mounted below -/

/-- A root directory with a filesystem mounted at `/a`, which has the file `b`. -/
def abTree : Tree where
  root := 0
  mounted := fun names => if names = [[97]] then some 5 else none
  look := fun i name => if i = 5 ∧ name = [98] then some 7 else none

def rootDentry : Dentry := ⟨[slash], some 0, none, [1], 1, false, false⟩

def aDentry : Dentry := ⟨[97], some 5, some 0, [], 1, true, false⟩

/-- The cache after the two mounts. -/
def abCache : Cache where
  heap := fun d => if d = 0 then some rootDentry else if d = 1 then some aDentry else none
  next := 2
  lru := [1, 0]
  total := 2
  root := 0
  look := abTree.look
  mem := fun _ => true

lemma abCache_heap (h : abCache.heap d = some e) :
    d = 0 ∧ e = rootDentry ∨ d = 1 ∧ e = aDentry := by
  simp only [abCache] at h
  split at h
  next hd => exact .inl ⟨hd, (some.inj h).symm⟩
  next =>
    split at h
    next hd => exact .inr ⟨hd, (some.inj h).symm⟩
    next => cases h

lemma caches_abCache : Caches abTree abCache fun d => if d = 1 then [[97]] else [] where
  links := by
    refine ⟨?_, ⟨_, rfl, rfl⟩, ?_, ?_, ?_⟩
    · intro d e h
      rcases abCache_heap h with ⟨rfl, -⟩ | ⟨rfl, -⟩ <;> decide
    · intro d e h hne
      rcases abCache_heap h with ⟨rfl, -⟩ | ⟨rfl, rfl⟩
      · exact absurd rfl hne
      · exact ⟨0, rootDentry, rfl, rfl, mem_cons_self⟩
    · intro d e h c hc
      rcases abCache_heap h with ⟨rfl, rfl⟩ | ⟨rfl, rfl⟩
      · rw [mem_singleton.1 hc]
        exact ⟨aDentry, rfl, rfl⟩
      · cases hc
    · intro d e h c hc c' hc' _ _ _ _ _
      rcases abCache_heap h with ⟨rfl, rfl⟩ | ⟨rfl, rfl⟩
      · rw [mem_singleton.1 hc, mem_singleton.1 hc']
      · cases hc
  look := rfl
  root := ⟨_, rfl, rfl⟩
  rootPlace := rfl
  parentPlace := by
    intro d e p h hpar
    rcases abCache_heap h with ⟨rfl, rfl⟩ | ⟨rfl, rfl⟩ <;> cases hpar
    rfl
  inode := by
    intro d e i h hi
    rcases abCache_heap h with ⟨rfl, rfl⟩ | ⟨rfl, rfl⟩ <;> cases hi <;> rfl
  above := by
    intro d e p _ h _ hpar hp
    rcases abCache_heap h with ⟨rfl, rfl⟩ | ⟨rfl, rfl⟩ <;> cases hpar
    cases hp
    rfl
  mounts := by
    intro names i _ hm
    simp only [abTree] at hm
    split at hm
    next hnames => exact ⟨1, aDentry, rfl, hnames.symm, hm⟩
    next => cases hm

lemma card_missing_le (t : Tree) (s : Cache) (path : List UInt8) :
    (missing t s path).card ≤ (entered t 64 path.tail []).length := by
  classical
  exact (Finset.card_filter_le _ _).trans (List.toFinset_card_le _)

/-- `/./a/b` is found: behind the mount point there is no dentry yet. -/
theorem resolves_abCache : Resolves abTree abCache [47, 46, 47, 97, 47, 98] := by
  refine (resolves_iff abTree abCache ⟨_, caches_abCache⟩ [47, 46, 47, 97, 47, 98] ?_).2 ?_
    abCache.mem
  · intro _
    have hcard := card_missing_le abTree abCache [47, 46, 47, 97, 47, 98]
    have hlen : (entered abTree 64 [46, 47, 97, 47, 98] []).length = 2 := by decide
    have htotal : abCache.total + 2 ≤ maxDentries := by decide
    rw [tail_cons, hlen] at hcard
    omega
  intro _ _ names q hrounds
  have hend : rounds abTree 64 [46, 47, 97, 47, 98] [] = some ([[98], [97]], []) := by decide
  obtain ⟨rfl, rfl⟩ : [[98], [97]] = names ∧ [] = q :=
    Prod.mk.inj (some.inj (hend.symm.trans hrounds))
  rfl

/-- With sixty-five slashes before the name, the lookup of the mount point ends at the root. -/
theorem not_resolves_abCache : (∃ place, Caches abTree abCache place) ∧
    ((missing abTree abCache (List.replicate 65 slash ++ [97])).Nonempty → abCache.total +
      (missing abTree abCache (List.replicate 65 slash ++ [97])).card ≤ maxDentries) ∧
    resolve abTree [] (components (List.replicate 65 slash ++ [97])) = some [[97]] ∧
    (∃ s', vfsLookup abCache (List.replicate 65 slash ++ [97]) = some (some abCache.root, s')) ∧
    ¬ Resolves abTree abCache (List.replicate 65 slash ++ [97]) := by
  have hresolve : resolve abTree [] (components (List.replicate 65 slash ++ [97]))
      = some [[97]] := by decide +kernel
  have hwalk : vfsLookup abCache (List.replicate 65 slash ++ [97])
      = some (some abCache.root, abCache) := rfl
  refine ⟨⟨_, caches_abCache⟩, fun _ => ?_, hresolve, ⟨_, hwalk⟩, ?_⟩
  · have hcard := card_missing_le abTree abCache (List.replicate 65 slash ++ [97])
    have hlen : (entered abTree 64 (List.replicate 65 slash ++ [97]).tail []).length = 0 := by
      decide +kernel
    have htotal : abCache.total ≤ maxDentries := by decide
    omega
  rintro ⟨r, s', hwalk', hright⟩
  obtain ⟨rfl, rfl⟩ : some abCache.root = r ∧ abCache = s' :=
    Prod.mk.inj (some.inj (hwalk.symm.trans hwalk'))
  obtain ⟨names, hnames, hat, -⟩ := hright _ rfl
  cases hresolve.symm.trans hnames
  have hplace := caches_abCache.place_eq hat
  cases hplace

end Aurora.Vfs
