import Mathlib.Data.List.Perm.Basic
import Mathlib.Data.List.Nodup

/-!
# Red-black trees and their contexts

Labelled red-black trees, the contexts a subtree hangs in, and the two balance
conditions in a form that speaks about a tree below a parent of known colour:
`Below p n t` for a subtree and `Fits n ctx` for the hole of a context. The root is
treated as if it hung below a red node, which is why it has to be black.

Trees are built with `bin d`, a node whose children are named by a direction, so
that a statement and its mirror image are one statement.

## Main definitions

* `ColorTree`, `ColorTree.bin`, `ColorTree.toList`: trees, directed nodes, in-order labels.
* `Frame`, `plug`, `before`, `after`: contexts, and the labels to each side of a hole.
* `Below`, `Fits`: balance of a subtree and of a context.
* `descend`: the search path of a label.
-/

namespace Aurora.Lib.RedBlack

inductive Color
  | red | black
  deriving DecidableEq, Repr, Inhabited

inductive Dir
  | left | right
  deriving DecidableEq, Repr

/-- The other direction. -/
def Dir.flip : Dir → Dir
  | .left => .right
  | .right => .left

lemma Dir.eq_or_eq_flip (d e : Dir) : d = e ∨ d = e.flip := by
  cases d <;> cases e <;> decide

/-- Binary trees with a colour and a label at each node. -/
inductive ColorTree (α : Type*)
  | nil
  | node (c : Color) (l : ColorTree α) (x : α) (r : ColorTree α)

variable {c : Color}

namespace ColorTree

variable {α : Type*}

/-- The labels in order. -/
def toList : ColorTree α → List α
  | nil => []
  | node _ l x r => l.toList ++ x :: r.toList

/-- A node with `near` on side `d` and `far` on the other side. -/
def bin (d : Dir) (c : Color) (near : ColorTree α) (x : α) (far : ColorTree α) : ColorTree α :=
  match d with
  | .left => node c near x far
  | .right => node c far x near

section

variable (d : Dir) (c : Color) (a : ColorTree α)

@[simp] lemma bin_flip (x : α) (b : ColorTree α) :
    bin d.flip c a x b = bin d c b x a := by cases d <;> rfl

/-- Every node is a `bin` in either direction. -/
lemma node_eq_bin (l : ColorTree α) (x : α) (r : ColorTree α) :
    ∃ near far, node c l x r = bin d c near x far := by
  cases d
  · exact ⟨l, r, rfl⟩
  · exact ⟨r, l, rfl⟩

/-- Does the root carry the colour red? -/
def isRed : ColorTree α → Bool
  | node .red _ _ _ => true
  | _ => false

@[simp] lemma isRed_bin (x : α) (b : ColorTree α) : (bin d c a x b).isRed = decide (c = .red) := by
  cases d <;> cases c <;> rfl

/-- The root coloured black. -/
def blacken : ColorTree α → ColorTree α
  | nil => nil
  | node _ l x r => node .black l x r

@[simp] lemma blacken_bin (x : α) (b : ColorTree α) :
    (bin d c a x b).blacken = bin d .black a x b := by
  cases d <;> rfl

/-- A rotation keeps the order of the labels. -/
lemma toList_rotate (c c' e e' : Color) (a b r : ColorTree α) (x y : α) :
    (bin d c' (bin d c a x b) y r).toList = (bin d e a x (bin d e' b y r)).toList := by
  cases d <;> simp [bin, toList]

end

lemma toList_bin_congr (d : Dir) {c' : Color} {a a' b b' : ColorTree α} (x : α)
    (ha : a'.toList = a.toList) (hb : b'.toList = b.toList) :
    (bin d c' a' x b').toList = (bin d c a x b).toList := by
  cases d <;> simp [bin, toList, ha, hb]

end ColorTree

open ColorTree

variable {α : Type*}

/-! ## Contexts -/

/-- A node on the way to a hole: the hole is on side `dir`, `sib` on the other. -/
structure Frame (α : Type*) where
  dir : Dir
  color : Color
  label : α
  sib : ColorTree α

/-- The node of a frame, with its hole filled. -/
def Frame.fill (f : Frame α) (t : ColorTree α) : ColorTree α := bin f.dir f.color t f.label f.sib

/-- Fill the hole of a context, innermost frame first. -/
def plug : List (Frame α) → ColorTree α → ColorTree α
  | [], t => t
  | f :: fs, t => plug fs (f.fill t)

@[simp] lemma plug_nil (t : ColorTree α) : plug [] t = t := rfl

@[simp] lemma plug_cons (f : Frame α) (fs : List (Frame α)) (t : ColorTree α) :
    plug (f :: fs) t = plug fs (bin f.dir f.color t f.label f.sib) := rfl

/-- The labels to the left of the hole. -/
def before : List (Frame α) → List α
  | [] => []
  | f :: fs =>
    match f.dir with
    | .left => before fs
    | .right => before fs ++ f.sib.toList ++ [f.label]

/-- The labels to the right of the hole. -/
def after : List (Frame α) → List α
  | [] => []
  | f :: fs =>
    match f.dir with
    | .left => f.label :: f.sib.toList ++ after fs
    | .right => after fs

lemma toList_plug (ctx : List (Frame α)) (t : ColorTree α) :
    (plug ctx t).toList = before ctx ++ t.toList ++ after ctx := by
  induction ctx generalizing t with
  | nil => simp [before, after]
  | cons f _ ih =>
    rw [plug_cons, ih]
    cases hd : f.dir <;> simp [before, after, hd, bin, toList]

variable {t : ColorTree α}

lemma toList_plug_congr (ctx : List (Frame α)) {t' : ColorTree α} (h : t'.toList = t.toList) :
    (plug ctx t').toList = (plug ctx t).toList := by
  rw [toList_plug, toList_plug, h]

lemma plug_append (ctx ctx' : List (Frame α)) (t : ColorTree α) :
    plug (ctx ++ ctx') t = plug ctx' (plug ctx t) := by
  induction ctx generalizing t with
  | nil => rfl
  | cons f _ ih => exact ih _

variable {x : α}

/-- Every label is at the root of a subtree. -/
lemma exists_plug_of_mem (h : x ∈ t.toList) : ∃ ctx c l r, t = plug ctx (node c l x r) := by
  induction t with
  | nil => cases h
  | node c l y r ihl ihr =>
    simp only [toList, List.mem_append, List.mem_cons] at h
    obtain h | rfl | h := h
    · obtain ⟨ctx, c', l', r', rfl⟩ := ihl h
      exact ⟨ctx ++ [⟨.left, c, y, r⟩], c', l', r', by rw [plug_append]; rfl⟩
    · exact ⟨[], c, l, r, rfl⟩
    · obtain ⟨ctx, c', l', r', rfl⟩ := ihr h
      exact ⟨ctx ++ [⟨.right, c, y, l⟩], c', l', r', by rw [plug_append]; rfl⟩

/-- A context is no longer than the tree has labels. -/
lemma length_le_toList_plug (ctx : List (Frame α)) (t : ColorTree α) :
    ctx.length + t.toList.length ≤ (plug ctx t).toList.length := by
  induction ctx generalizing t with
  | nil => simp
  | cons f _ ih =>
    have hfill : t.toList.length + 1 ≤ (bin f.dir f.color t f.label f.sib).toList.length := by
      cases f.dir <;> simp only [bin, toList, List.length_append, List.length_cons] <;> omega
    have := ih (bin f.dir f.color t f.label f.sib)
    simp only [List.length_cons, plug_cons]
    omega

variable {ctx : List (Frame α)}

/-- Nothing lies to the left of a path that always went left. -/
lemma before_of_left (h : ∀ f ∈ ctx, f.dir = .left) : before ctx = [] := by
  induction ctx with
  | nil => rfl
  | cons f _ ih =>
    simp only [before, h f List.mem_cons_self]
    exact ih fun g hg => h g (List.mem_cons_of_mem f hg)

/-- The label at the end of such a path is the first one. -/
lemma toList_plug_left (h : ∀ f ∈ ctx, f.dir = .left) (c c' : Color) (y : α) (t : ColorTree α) :
    (plug ctx (node c nil y t)).toList = (node c' nil y (plug ctx t)).toList := by
  simp [toList_plug, before_of_left h, toList]

/-! ## Balance -/

/-- `t` may hang below a node of colour `p` and has `n` black nodes on every path:
no red node below a red one, equal black height. -/
def Below : Color → ℕ → ColorTree α → Prop
  | _, n, nil => n = 0
  | p, n, node .red l _ r => p = .black ∧ Below .red n l ∧ Below .red n r
  | _, n, node .black l _ r => ∃ m, n = m + 1 ∧ Below .black m l ∧ Below .black m r

@[simp] lemma below_nil (p : Color) (n : ℕ) : Below p n (nil : ColorTree α) ↔ n = 0 := by
  cases p <;> rfl

@[simp] lemma below_bin_red (p : Color) (n : ℕ) (d : Dir) (a : ColorTree α) (x : α)
    (b : ColorTree α) :
    Below p n (bin d .red a x b) ↔ p = .black ∧ Below .red n a ∧ Below .red n b := by
  cases d
  · rfl
  · exact and_congr_right fun _ => and_comm

@[simp] lemma below_bin_black (p : Color) (n : ℕ) (d : Dir) (a : ColorTree α) (x : α)
    (b : ColorTree α) :
    Below p n (bin d .black a x b) ↔ ∃ m, n = m + 1 ∧ Below .black m a ∧ Below .black m b := by
  cases d
  · cases p <;> rfl
  · cases p <;> exact exists_congr fun _ => and_congr_right fun _ => and_comm

variable {n : ℕ}

/-- What may hang below a red node may hang below any node. -/
lemma Below.weaken (h : Below .red n t) (p : Color) : Below p n t := by
  match t, h with
  | nil, h => exact (below_nil p n).2 ((below_nil .red n).1 h)
  | node .black l x r, h => cases p <;> exact h

variable {p : Color}

lemma Below.toBlack (h : Below p n t) : Below .black n t := by
  cases p with
  | red => exact h.weaken .black
  | black => exact h

/-- Below a black node the root may be red; if it is not, it fits below a red one. -/
lemma Below.of_not_isRed (h : Below p n t) (ht : t.isRed = false) (q : Color) : Below q n t := by
  match t, h, ht with
  | nil, h, _ => exact (below_nil q n).2 ((below_nil p n).1 h)
  | node .black l x r, h, _ => cases p <;> cases q <;> exact h

/-- A red root coloured black adds one to the black height. -/
lemma Below.blacken (h : Below p n t) (ht : t.isRed = true) {q : Color} :
    Below q (n + 1) t.blacken := by
  match t, h, ht with
  | node .red l x r, ⟨_, hl, hr⟩, _ =>
    exact (below_bin_black q _ .left l x r).2 ⟨n, rfl, hl.weaken _, hr.weaken _⟩

/-- The colour above a hole; above the root, red. -/
def above : List (Frame α) → Color
  | [] => .red
  | f :: _ => f.color

/-- A tree of black height `n` below the colour `above ctx` completes the context. -/
def Fits : ℕ → List (Frame α) → Prop
  | _, [] => True
  | n, f :: fs =>
    match f.color with
    | .red => Below .red n f.sib ∧ above fs = .black ∧ Fits n fs
    | .black => Below .black n f.sib ∧ Fits (n + 1) fs

/-- A red-black tree: balanced, with a black root. -/
def Balanced (t : ColorTree α) : Prop := ∃ n, Below .red n t

lemma Balanced.blacken_eq (h : Balanced t) : t.blacken = t := by
  obtain ⟨n, hn⟩ := h
  match t, hn with
  | nil, _ => rfl
  | node .black l x r, _ => rfl

/-- Filling a hole with a tree that fits. -/
lemma Fits.plug (hctx : Fits n ctx) (ht : Below (above ctx) n t) : Balanced (plug ctx t) := by
  induction ctx generalizing n t with
  | nil => exact ⟨n, ht⟩
  | cons f _ ih =>
    obtain ⟨d, c, x, s⟩ := f
    cases c with
    | red =>
      obtain ⟨hs, habove, hfs⟩ := hctx
      refine ih hfs ?_
      rw [habove]
      exact (below_bin_red _ n d t x s).2 ⟨rfl, ht, hs⟩
    | black =>
      obtain ⟨hs, hfs⟩ := hctx
      exact ih hfs ((below_bin_black _ _ d t x s).2 ⟨n, rfl, ht, hs⟩)

lemma Fits.sib {d : Dir} {s : ColorTree α} {fs : List (Frame α)}
    (h : Fits n (⟨d, c, x, s⟩ :: fs)) : Below c n s := by
  cases c with
  | red => exact h.1
  | black => exact h.1

/-- Balance does not depend on the labels. -/
lemma Fits.relabel {d : Dir} {y : α} {s : ColorTree α} {path fs : List (Frame α)}
    (h : Fits n (path ++ ⟨d, c, x, s⟩ :: fs)) : Fits n (path ++ ⟨d, c, y, s⟩ :: fs) := by
  induction path generalizing n with
  | nil => cases c <;> exact h
  | cons f fs' ih =>
    have habove : above (fs' ++ ⟨d, c, y, s⟩ :: fs) = above (fs' ++ ⟨d, c, x, s⟩ :: fs) := by
      cases fs' <;> rfl
    obtain ⟨_, fc, _, _⟩ := f
    cases fc with
    | red => exact ⟨h.1, habove ▸ h.2.1, ih h.2.2⟩
    | black => exact ⟨h.1, ih h.2⟩

/-- A subtree of a red-black tree fits the context it hangs in. -/
lemma exists_fits (h : Balanced (RedBlack.plug ctx t)) :
    ∃ n, Fits n ctx ∧ Below (above ctx) n t := by
  induction ctx generalizing t with
  | nil =>
    obtain ⟨n, hn⟩ := h
    exact ⟨n, trivial, hn⟩
  | cons f _ ih =>
    obtain ⟨d, c, x, s⟩ := f
    obtain ⟨n, hfs, hsub⟩ := ih h
    cases c with
    | red =>
      obtain ⟨habove, ht, hs⟩ := (below_bin_red _ n d t x s).1 hsub
      exact ⟨n, ⟨hs, habove, hfs⟩, ht⟩
    | black =>
      obtain ⟨m, rfl, ht, hs⟩ := (below_bin_black _ n d t x s).1 hsub
      exact ⟨m, ⟨hs, hfs⟩, ht⟩

/-- A tree of positive black height has a root. -/
lemma Below.exists_bin (h : Below p (n + 1) t) (d : Dir) : ∃ c a x b, t = bin d c a x b := by
  cases t with
  | nil => cases (below_nil p _).1 h
  | node c l x r =>
    obtain ⟨a, b, heq⟩ := node_eq_bin d c l x r
    exact ⟨c, a, x, b, heq⟩

/-! ## Searching -/

/-- The context a search for `x` ends in. -/
def descend (lt : α → α → Prop) [DecidableRel lt] (x : α) :
    ColorTree α → List (Frame α) → List (Frame α)
  | nil, ctx => ctx
  | node c l y r, ctx =>
    if lt x y then descend lt x l (⟨.left, c, y, r⟩ :: ctx)
    else descend lt x r (⟨.right, c, y, l⟩ :: ctx)

variable {lt : α → α → Prop} [DecidableRel lt]

lemma plug_descend (x : α) (t : ColorTree α) (ctx : List (Frame α)) :
    plug (descend lt x t ctx) nil = plug ctx t := by
  induction t generalizing ctx with
  | nil => rfl
  | node c l y r ihl ihr =>
    rw [descend]
    split
    · exact ihl _
    · exact ihr _

lemma before_append_after (lt : α → α → Prop) [DecidableRel lt] (x : α) (t : ColorTree α) :
    before (descend lt x t []) ++ after (descend lt x t []) = t.toList := by
  have h : (plug (descend lt x t []) nil).toList = t.toList := by rw [plug_descend, plug_nil]
  simpa [toList_plug, toList] using h

/-- In a sorted tree the search path separates the smaller from the greater labels. -/
lemma descend_separates (htrans : ∀ a b c, lt a b → lt b c → lt a c)
    (htotal : ∀ y, ¬ lt x y → y = x ∨ lt y x) (t : ColorTree α) (ctx : List (Frame α))
    (hx : x ∉ t.toList) (hsorted : t.toList.Pairwise lt) (hbefore : ∀ y ∈ before ctx, lt y x)
    (hafter : ∀ y ∈ after ctx, lt x y) :
    (∀ y ∈ before (descend lt x t ctx), lt y x) ∧ (∀ y ∈ after (descend lt x t ctx), lt x y) := by
  induction t generalizing ctx with
  | nil => exact ⟨hbefore, hafter⟩
  | node c l y r ihl ihr =>
    simp only [toList, List.mem_append, List.mem_cons, not_or] at hx
    simp only [toList, List.pairwise_append, List.pairwise_cons] at hsorted
    obtain ⟨hl, ⟨hyr, hr⟩, hlr⟩ := hsorted
    rw [descend]
    split
    · next hlt =>
      refine ihl _ hx.1 hl hbefore fun z hz => ?_
      simp only [after, List.cons_append, List.mem_cons, List.mem_append] at hz
      obtain rfl | hz | hz := hz
      · exact hlt
      · exact htrans _ _ _ hlt (hyr z hz)
      · exact hafter z hz
    · next hge =>
      have hlt : lt y x := (htotal y hge).resolve_left fun h => hx.2.1 h.symm
      refine ihr _ hx.2.2 hr (fun z hz => ?_) hafter
      simp only [before, List.mem_append, List.mem_singleton] at hz
      obtain (hz | hz) | rfl := hz
      · exact hbefore z hz
      · exact htrans _ _ _ (hlr z hz y List.mem_cons_self) hlt
      · exact hlt

/-- **Inserting at the end of the search path** keeps the labels sorted. -/
lemma pairwise_insert (htrans : ∀ a b c, lt a b → lt b c → lt a c)
    (htotal : ∀ y, ¬ lt x y → y = x ∨ lt y x) (hx : x ∉ t.toList) (hsorted : t.toList.Pairwise lt)
    (c : Color) : (plug (descend lt x t []) (node c nil x nil)).toList.Pairwise lt := by
  obtain ⟨hbefore, hafter⟩ := descend_separates htrans htotal t [] hx hsorted
    (by simp [before]) (by simp [after])
  rw [← before_append_after lt x t, List.pairwise_append] at hsorted
  obtain ⟨hb, ha, hba⟩ := hsorted
  rw [toList_plug]
  simp only [toList, List.nil_append, List.append_assoc, List.singleton_append,
    List.pairwise_append, List.pairwise_cons, List.mem_cons]
  refine ⟨hb, ⟨hafter, ha⟩, ?_⟩
  rintro y hy z (rfl | hz)
  · exact hbefore y hy
  · exact hba y hy z hz

/-- Inserting adds exactly the new label. -/
lemma perm_insert (x : α) (t : ColorTree α) (c : Color) :
    (plug (descend lt x t []) (node c nil x nil)).toList.Perm (x :: t.toList) := by
  rw [toList_plug, ← before_append_after lt x t]
  simp only [toList, List.nil_append, List.append_assoc, List.singleton_append]
  exact List.perm_middle

end Aurora.Lib.RedBlack
