import Aurora.Kernel.Vfs
import Mathlib.Order.Nat

/-!
# The links between dentries

Parent pointers and lists of children describe one tree, in which no two children of a
dentry have the same name. The lemmas say what a change of one dentry and a new dentry
do to it, and that a walk over the children does not fault.

## Main definitions

* `Linked`: parents and children fit together.
* `Linked.put`, `Linked.grown`: the two kinds of changes.
* `findChild_of_live`: the search among children.
-/

namespace Aurora.Vfs

open Function List Option

variable {s s' : Cache}

/-- The links of the live dentries fit together. -/
structure Linked (s : Cache) : Prop where
  fresh : ∀ d e, s.heap d = some e → d < s.next
  root : ∃ e, s.heap s.root = some e ∧ e.parent = none
  parent : ∀ d e, s.heap d = some e → d ≠ s.root →
    ∃ p ep, e.parent = some p ∧ s.heap p = some ep ∧ d ∈ ep.child
  child : ∀ d e, s.heap d = some e → ∀ c ∈ e.child, ∃ ec, s.heap c = some ec ∧ ec.parent = some d
  names : ∀ d e, s.heap d = some e → ∀ c ∈ e.child, ∀ c' ∈ e.child, ∀ ec ec',
    s.heap c = some ec → s.heap c' = some ec' → ec.name = ec'.name → c = c'

/-- Nothing that the links depend on has changed. -/
lemma Linked.of_heap (h : Linked s) (hheap : s'.heap = s.heap) (hnext : s'.next = s.next)
    (hroot : s'.root = s.root) : Linked s' := by
  refine ⟨?_, ?_, ?_, ?_, ?_⟩
  · rw [hheap, hnext]
    exact h.fresh
  · rw [hheap, hroot]
    exact h.root
  · rw [hheap, hroot]
    exact h.parent
  · rw [hheap]
    exact h.child
  · rw [hheap]
    exact h.names

variable {d : ℕ} {e : Dentry}

lemma Linked.parent_live (h : Linked s) {p : ℕ} (hd : s.heap d = some e)
    (hp : e.parent = some p) : d ≠ s.root ∧ ∃ ep, s.heap p = some ep ∧ d ∈ ep.child := by
  have hne : d ≠ s.root := by
    rintro rfl
    obtain ⟨r, hr, hnone⟩ := h.root
    cases hr.symm.trans hd
    simp [hnone] at hp
  obtain ⟨p', ep, hp', hep, hmem⟩ := h.parent d e hd hne
  cases hp'.symm.trans hp
  exact ⟨hne, ep, hep, hmem⟩

/-! ## Walks over the children -/

/-- A walk over live dentries ends at the first one that fits. -/
lemma findChild_of_live (fits : ℕ → Dentry → Bool) {cs : List ℕ}
    (hlive : ∀ c ∈ cs, ∃ e, s.heap c = some e) :
    (findChild s fits cs = some none ∧ ∀ c ∈ cs, ∀ e, s.heap c = some e → fits c e = false) ∨
      ∃ c ∈ cs, ∃ e, findChild s fits cs = some (some c) ∧ s.heap c = some e ∧ fits c e = true := by
  induction cs with
  | nil => exact .inl ⟨rfl, by simp⟩
  | cons c cs ih =>
    obtain ⟨e, he⟩ := hlive c mem_cons_self
    simp only [findChild, he]
    by_cases hfits : fits c e = true
    · rw [if_pos hfits]
      exact .inr ⟨c, mem_cons_self, e, rfl, he, hfits⟩
    · rw [if_neg hfits]
      rcases ih fun c' hc' => hlive c' (mem_cons_of_mem _ hc') with
        ⟨hnone, hall⟩ | ⟨c', hc', e', hfound, he', hfits'⟩
      · refine .inl ⟨hnone, fun c' hc' e' he' => ?_⟩
        rcases mem_cons.1 hc' with rfl | hc'
        · cases he.symm.trans he'
          exact Bool.eq_false_iff.2 hfits
        · exact hall c' hc' e' he'
      · exact .inr ⟨c', mem_cons_of_mem _ hc', e', hfound, he', hfits'⟩

/-- `dentry_lookup_child` finds the child with the name. -/
lemma Linked.lookupChild (h : Linked s) (hd : s.heap d = some e) (name : Name) :
    (dentryLookupChild s d name = some none ∧
      ∀ c ∈ e.child, ∀ ec, s.heap c = some ec → ec.name ≠ name) ∨
    ∃ c ∈ e.child, ∃ ec, dentryLookupChild s d name = some (some c) ∧ s.heap c = some ec ∧
      ec.name = name := by
  have hlive : ∀ c ∈ e.child, ∃ ec, s.heap c = some ec := fun c hc => by
    obtain ⟨ec, hec, -⟩ := h.child d e hd c hc
    exact ⟨ec, hec⟩
  simp only [dentryLookupChild, hd]
  rcases findChild_of_live (fun _ c => c.name == name) hlive with
    ⟨hnone, hall⟩ | ⟨c, hc, ec, hfound, hec, hfits⟩
  · refine .inl ⟨hnone, fun c hc ec hec hname => ?_⟩
    have hfalse := hall c hc ec hec
    simp [hname] at hfalse
  · exact .inr ⟨c, hc, ec, hfound, hec, eq_of_beq hfits⟩

/-! ## A change of one dentry -/

lemma put_heap_self (s : Cache) (d : ℕ) (e : Dentry) : (s.put d e).heap d = some e :=
  update_self _ _ _

variable {d' : ℕ}

lemma put_heap_of_ne (e : Dentry) (h : d' ≠ d) : (s.put d e).heap d' = s.heap d' :=
  update_of_ne h _ _

/-- A dentry of the cache after a change of one dentry. -/
lemma put_cases {e' : Dentry} (h : (s.put d e').heap d' = some e) :
    (d' = d ∧ e = e') ∨ (d' ≠ d ∧ s.heap d' = some e) := by
  by_cases hdd : d' = d
  · subst hdd
    rw [put_heap_self] at h
    exact .inl ⟨rfl, (some.inj h).symm⟩
  · rw [put_heap_of_ne _ hdd] at h
    exact .inr ⟨hdd, h⟩

/-- The dentries have the same names and links. -/
def SameLinks (e e' : Dentry) : Prop :=
  e'.name = e.name ∧ e'.parent = e.parent ∧ e'.child = e.child

variable {x x₀ : Dentry}

section
variable {d : ℕ} {e e' : Dentry} (hd : s.heap d = some e) (hsame : SameLinks e e')
include hd hsame

/-- A dentry of the new cache was one of the old cache with the same links, and the same
altogether if it is not the one that has changed. -/
lemma put_old (hx : (s.put d e').heap d' = some x) :
    ∃ x₀, s.heap d' = some x₀ ∧ SameLinks x₀ x ∧ (x = x₀ ∨ d' = d ∧ x₀ = e ∧ x = e') := by
  rcases put_cases hx with ⟨rfl, rfl⟩ | ⟨-, hx'⟩
  · exact ⟨e, hd, hsame, .inr ⟨rfl, rfl, rfl⟩⟩
  · exact ⟨x, hx', ⟨rfl, rfl, rfl⟩, .inl rfl⟩

lemma put_new (hx : s.heap d' = some x₀) :
    ∃ x, (s.put d e').heap d' = some x ∧ SameLinks x₀ x ∧ (x = x₀ ∨ d' = d ∧ x₀ = e ∧ x = e') := by
  by_cases hdd : d' = d
  · subst hdd
    cases hd.symm.trans hx
    exact ⟨e', put_heap_self _ _ _, hsame, .inr ⟨rfl, rfl, rfl⟩⟩
  · exact ⟨x₀, (put_heap_of_ne _ hdd).trans hx, ⟨rfl, rfl, rfl⟩, .inl rfl⟩

lemma Linked.put (h : Linked s) : Linked (s.put d e') := by
  refine ⟨?_, ?_, ?_, ?_, ?_⟩
  · intro d' x hx
    obtain ⟨x₀, hx0, -⟩ := put_old hd hsame hx
    exact h.fresh d' x₀ hx0
  · obtain ⟨_, hr0, hnone⟩ := h.root
    obtain ⟨r, hr, ⟨-, hp, -⟩, -⟩ := put_new hd hsame hr0
    exact ⟨r, hr, hp.trans hnone⟩
  · intro d' x hx hne
    obtain ⟨x₀, hx0, ⟨-, hp, -⟩, -⟩ := put_old hd hsame hx
    obtain ⟨p, _, hpar, hep0, hmem⟩ := h.parent d' x₀ hx0 hne
    obtain ⟨ep, hep, ⟨-, -, hch⟩, -⟩ := put_new hd hsame hep0
    exact ⟨p, ep, hp.trans hpar, hep, hch ▸ hmem⟩
  · intro d' x hx c hc
    obtain ⟨x₀, hx0, ⟨-, -, hch⟩, -⟩ := put_old hd hsame hx
    obtain ⟨ec0, hec0, hpar⟩ := h.child d' x₀ hx0 c (hch ▸ hc)
    obtain ⟨ec, hec, ⟨-, hp, -⟩, -⟩ := put_new hd hsame hec0
    exact ⟨ec, hec, hp.trans hpar⟩
  · intro d' x hx c hc c' hc' ec _ hec hec' heq
    obtain ⟨x₀, hx0, ⟨-, -, hch⟩, -⟩ := put_old hd hsame hx
    obtain ⟨ec0, hec0, ⟨hn, -⟩, -⟩ := put_old hd hsame hec
    obtain ⟨ec0', hec0', ⟨hn', -⟩, -⟩ := put_old hd hsame hec'
    rw [hn, hn'] at heq
    exact h.names d' x₀ hx0 c (hch ▸ hc) c' (hch ▸ hc') ec0 ec0' hec0 hec0' heq

end

/-! ## A new dentry -/

/-- The cache with a new dentry among the children of `cur`. -/
def Cache.grown (s : Cache) (cur : ℕ) (e : Dentry) (name : Name) : Cache :=
  (s.addDentry name (some cur)).put cur { e with child := s.next :: e.child }

/-- The new dentry. -/
def freshDentry (name : Name) (cur : ℕ) : Dentry := ⟨name, none, some cur, [], 1, false, false⟩

/-- What an old dentry and the same dentry of the grown cache have in common: only `cur` has
got another child. -/
structure GrownFrom (s : Cache) (cur d : ℕ) (x₀ x : Dentry) : Prop where
  name : x.name = x₀.name
  parent : x.parent = x₀.parent
  inode : x.inode = x₀.inode
  keeps : ∀ c ∈ x₀.child, c ∈ x.child
  child : ∀ c ∈ x.child, c ∈ x₀.child ∨ c = s.next ∧ d = cur

lemma grownFrom_self (s : Cache) (cur d : ℕ) (x : Dentry) : GrownFrom s cur d x x :=
  ⟨rfl, rfl, rfl, fun _ hc => hc, fun _ hc => .inl hc⟩

lemma grownFrom_cur (s : Cache) (cur : ℕ) (e : Dentry) :
    GrownFrom s cur cur e { e with child := s.next :: e.child } := by
  refine ⟨rfl, rfl, rfl, fun c hc => mem_cons_of_mem _ hc, fun c hc => ?_⟩
  rcases mem_cons.1 hc with rfl | hc
  · exact .inr ⟨rfl, rfl⟩
  · exact .inl hc

section
variable {cur : ℕ} {e : Dentry} {name : Name} (h : Linked s) (hcur : s.heap cur = some e)
include h hcur

lemma grown_heap_next (name : Name) :
    (s.grown cur e name).heap s.next = some (freshDentry name cur) := by
  rw [Cache.grown, put_heap_of_ne _ (h.fresh cur e hcur).ne']
  exact update_self _ _ _

/-- A dentry of the grown cache: the new one, or an old one. -/
lemma grown_old (hx : (s.grown cur e name).heap d = some x) :
    (d = s.next ∧ x = freshDentry name cur) ∨
      (d ≠ s.next ∧ ∃ x₀, s.heap d = some x₀ ∧ GrownFrom s cur d x₀ x) := by
  by_cases hd : d = s.next
  · subst hd
    rw [grown_heap_next h hcur name] at hx
    exact .inl ⟨rfl, (some.inj hx).symm⟩
  · refine .inr ⟨hd, ?_⟩
    rcases put_cases hx with ⟨rfl, rfl⟩ | ⟨-, hx'⟩
    · exact ⟨e, hcur, grownFrom_cur s d e⟩
    · exact ⟨x, (put_heap_of_ne _ hd).symm.trans hx', grownFrom_self s cur d x⟩

lemma grown_new (name : Name) (hx : s.heap d = some x₀) :
    ∃ x, (s.grown cur e name).heap d = some x ∧ GrownFrom s cur d x₀ x := by
  by_cases hd : d = cur
  · subst hd
    obtain rfl : e = x₀ := some.inj (hcur.symm.trans hx)
    exact ⟨_, put_heap_self _ _ _, grownFrom_cur s d e⟩
  · refine ⟨x₀, ?_, grownFrom_self s cur d x₀⟩
    rw [Cache.grown, put_heap_of_ne _ hd]
    exact (put_heap_of_ne _ (h.fresh d x₀ hx).ne).trans hx

lemma Linked.grown (hnew : ∀ c ∈ e.child, ∀ ec, s.heap c = some ec → ec.name ≠ name) :
    Linked (s.grown cur e name) := by
  have hlive : ∀ d x, s.heap d = some x → d ≠ s.next := fun d x hx => (h.fresh d x hx).ne
  have hnext := grown_heap_next h hcur name
  refine ⟨?_, ?_, ?_, ?_, ?_⟩
  · intro d x hx
    rcases grown_old h hcur hx with ⟨rfl, -⟩ | ⟨-, x₀, hx0, -⟩
    · exact Nat.lt_succ_self _
    · exact (h.fresh d x₀ hx0).trans (Nat.lt_succ_self _)
  · obtain ⟨_, hr0, hnone⟩ := h.root
    obtain ⟨r, hr, hsame⟩ := grown_new h hcur name hr0
    exact ⟨r, hr, hsame.parent.trans hnone⟩
  · intro d x hx hne
    rcases grown_old h hcur hx with ⟨rfl, rfl⟩ | ⟨-, x₀, hx0, hsame⟩
    · exact ⟨cur, _, rfl, put_heap_self _ _ _, mem_cons_self⟩
    · obtain ⟨p, _, hpar, hep0, hmem⟩ := h.parent d x₀ hx0 hne
      obtain ⟨ep, hep, hsame'⟩ := grown_new h hcur name hep0
      exact ⟨p, ep, hsame.parent.trans hpar, hep, hsame'.keeps d hmem⟩
  · intro d x hx c hc
    rcases grown_old h hcur hx with ⟨rfl, rfl⟩ | ⟨-, x₀, hx0, hsame⟩
    · cases hc
    · rcases hsame.child c hc with hc0 | ⟨rfl, rfl⟩
      · obtain ⟨ec0, hec0, hpar⟩ := h.child d x₀ hx0 c hc0
        obtain ⟨ec, hec, hsame'⟩ := grown_new h hcur name hec0
        exact ⟨ec, hec, hsame'.parent.trans hpar⟩
      · exact ⟨_, hnext, rfl⟩
  · intro d x hx c hc c' hc' ec ec' hec hec' heq
    -- an old child has the name that it had, which is not the new one below `cur`
    have hold : ∀ b eb, (s.grown cur e name).heap b = some eb → b ≠ s.next →
        ∃ eb0, s.heap b = some eb0 ∧ eb.name = eb0.name := by
      intro b eb hb hne
      rcases grown_old h hcur hb with ⟨rfl, -⟩ | ⟨-, eb0, heb0, hsame⟩
      · exact absurd rfl hne
      · exact ⟨eb0, heb0, hsame.name⟩
    have hother : ∀ b ∈ e.child, ∀ eb, (s.grown cur e name).heap b = some eb → eb.name ≠ name := by
      intro b hb eb heb
      obtain ⟨eb1, heb1, -⟩ := h.child cur e hcur b hb
      obtain ⟨eb0, heb0, hn⟩ := hold b eb heb (hlive b eb1 heb1)
      rw [hn]
      exact hnew b hb eb0 heb0
    have hname : ∀ eb, (s.grown cur e name).heap s.next = some eb → eb.name = name := by
      intro eb heb
      cases hnext.symm.trans heb
      rfl
    rcases grown_old h hcur hx with ⟨rfl, rfl⟩ | ⟨-, x₀, hx0, hsame⟩
    · cases hc
    · rcases hsame.child c hc with hc0 | ⟨rfl, rfl⟩ <;>
        rcases hsame.child c' hc' with hc0' | ⟨rfl, hcur'⟩
      · obtain ⟨ec1, hec1, -⟩ := h.child d x₀ hx0 c hc0
        obtain ⟨ec1', hec1', -⟩ := h.child d x₀ hx0 c' hc0'
        obtain ⟨ec0, hec0, hn⟩ := hold c ec hec (hlive c ec1 hec1)
        obtain ⟨ec0', hec0', hn'⟩ := hold c' ec' hec' (hlive c' ec1' hec1')
        rw [hn, hn'] at heq
        exact h.names d x₀ hx0 c hc0 c' hc0' ec0 ec0' hec0 hec0' heq
      · subst hcur'
        cases hcur.symm.trans hx0
        exact absurd (heq.trans (hname ec' hec')) (hother c hc0 ec hec)
      · cases hcur.symm.trans hx0
        exact absurd (heq.symm.trans (hname ec hec)) (hother c' hc0' ec' hec')
      · rfl

end

end Aurora.Vfs
