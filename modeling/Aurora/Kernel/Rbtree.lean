import Aurora.Lib.RedBlack

/-!
# The red-black tree of the scheduler (`rbtree.c`)

An intrusive tree with parent pointers: the nodes live in memory, the tree is the
address of its root. The model writes one field at a time, in the order of the
source. `none` is a null pointer; a function that dereferences one, or whose loop
has not ended within its fuel, returns `none`.

The source writes every fix-up twice, for a left and for a right child. The two
copies are mirror images of each other, so each is one definition with the
direction as a parameter.

## Main definitions

* `RbNode`, `RbTree`: the structures, with all of node memory.
* `rbRotate`, `rbInsert`, `rbTransplant`, `rbErase`: the operations.
* `rbFindMin`, `rbFirst`, `rbFind`, `rbNext`: the searches.
-/

namespace Aurora.Rbtree

open Lib.RedBlack

/-- The address of a node. -/
abbrev Addr := ℕ

/-- `struct rb_node`. -/
structure RbNode where
  color : Color
  parent : Option Addr
  left : Option Addr
  right : Option Addr
  key : ℕ
  deriving DecidableEq, Repr, Inhabited

/-- `struct rb_root`, with the memory its nodes are in. `malformed` records that a
fix-up left through one of the exits the source keeps for malformed trees. -/
structure RbTree where
  node : Addr → RbNode
  root : Option Addr
  malformed : Bool

/-! ## Fields -/

/-- The child on side `d`. -/
def RbNode.child (n : RbNode) : Dir → Option Addr
  | .left => n.left
  | .right => n.right

def RbNode.withChild (n : RbNode) (d : Dir) (v : Option Addr) : RbNode :=
  match d with
  | .left => { n with left := v }
  | .right => { n with right := v }

namespace RbTree

def modify (t : RbTree) (a : Addr) (f : RbNode → RbNode) : RbTree :=
  { t with node := Function.update t.node a (f (t.node a)) }

def setChild (t : RbTree) (a : Addr) (d : Dir) (v : Option Addr) : RbTree :=
  t.modify a (·.withChild d v)

def setParent (t : RbTree) (a : Addr) (v : Option Addr) : RbTree :=
  t.modify a ({ · with parent := v })

/-- `if (a) a->parent = v`. -/
def setParentOf (t : RbTree) (a : Option Addr) (v : Option Addr) : RbTree :=
  match a with
  | none => t
  | some a => t.setParent a v

def setColor (t : RbTree) (a : Addr) (c : Color) : RbTree := t.modify a ({ · with color := c })

/-- `rb_set_red` and `rb_set_black`: no effect on a null pointer. -/
def setColorOf (t : RbTree) (a : Option Addr) (c : Color) : RbTree :=
  match a with
  | none => t
  | some a => t.setColor a c

/-- `rb_is_red`. -/
def isRed (t : RbTree) (a : Option Addr) : Bool :=
  match a with
  | none => false
  | some a => (t.node a).color = .red

/-- `rb_is_black`. -/
def isBlack (t : RbTree) (a : Option Addr) : Bool :=
  match a with
  | none => true
  | some a => (t.node a).color = .black

/-- The side of `p` that `a` is on: `a == p->left`. -/
def sideOf (t : RbTree) (a : Option Addr) (p : Addr) : Dir :=
  if a = (t.node p).left then .left else .right

/-- The side `a` is on: `if (a->parent) x_is_left = (a == a->parent->left)`, from the
value `d`. -/
def sideAt (t : RbTree) (a : Addr) (d : Dir) : Dir :=
  match (t.node a).parent with
  | none => d
  | some p => t.sideOf (some a) p

/-- The link to `u` in its parent, or the root, becomes `v`. -/
def replaceChild (t : RbTree) (u : Addr) (v : Option Addr) : RbTree :=
  match (t.node u).parent with
  | none => { t with root := v }
  | some p => t.setChild p (t.sideOf (some u) p) v

end RbTree

/-- `rb_init`. -/
def rbInit (t : RbTree) : RbTree := { t with root := none }

/-! ## Rotation -/

/-- `rb_rotate_left` for `d = left`, `rb_rotate_right` for `d = right`. -/
def rbRotate (d : Dir) (t : RbTree) (x : Addr) : RbTree :=
  match (t.node x).child d.flip with
  | none => t
  | some y =>
    let b := (t.node y).child d
    let t := t.setChild x d.flip b
    let t := t.setParentOf b (some x)
    let t := t.setParent y (t.node x).parent
    let t := t.replaceChild x (some y)
    let t := t.setChild y d (some x)
    t.setParent x (some y)

def rbRotateLeft : RbTree → Addr → RbTree := rbRotate .left

def rbRotateRight : RbTree → Addr → RbTree := rbRotate .right

/-! ## Insertion -/

/-- The body of `rb_insert_fixup`'s loop, with `parent` on side `e` of
`grandparent`: the tree and the node of the next iteration. -/
def insertFixupBody (e : Dir) (t : RbTree) (node parent grandparent : Addr) : RbTree × Addr :=
  let uncle := (t.node grandparent).child e.flip
  if t.isRed uncle then
    -- Case 1: recolour and continue at the grandparent
    let t := t.setColor parent .black
    let t := t.setColorOf uncle .black
    (t.setColor grandparent .red, grandparent)
  else
    -- Case 2: an inner child is rotated outwards first
    let (t, node, parent) :=
      if some node = (t.node parent).child e.flip then
        let t := rbRotate e t parent
        (t, parent, (t.node parent).parent)
      else (t, node, some parent)
    -- Case 3
    let t := t.setColorOf parent .black
    let t := t.setColor grandparent .red
    (rbRotate e.flip t grandparent, node)

/-- The loop of `rb_insert_fixup`. -/
def insertFixupLoop : ℕ → RbTree → Addr → Option RbTree
  | 0, _, _ => none
  | fuel + 1, t, node =>
    match (t.node node).parent with
    | none => some t
    | some parent =>
      if t.isRed (some parent) then
        match (t.node parent).parent with
        | none => some { t with malformed := true }
        | some grandparent =>
          let (t, node) :=
            insertFixupBody (t.sideOf (some parent) grandparent) t node parent grandparent
          insertFixupLoop fuel t node
      else some t

/-- `rb_insert_fixup`. -/
def rbInsertFixup (fuel : ℕ) (t : RbTree) (node : Addr) : Option RbTree :=
  (insertFixupLoop fuel t node).map fun t => t.setColorOf t.root .black

/-- `struct rb_node **link`: the root pointer or a child pointer. -/
inductive Link
  | root
  | child (p : Addr) (d : Dir)

def RbTree.load (t : RbTree) : Link → Option Addr
  | .root => t.root
  | .child p d => (t.node p).child d

def RbTree.store (t : RbTree) (link : Link) (v : Option Addr) : RbTree :=
  match link with
  | .root => { t with root := v }
  | .child p d => t.setChild p d v

/-- The side of `parent` that `rb_insert` descends to. -/
def insertSide (t : RbTree) (node parent : Addr) : Dir :=
  if (t.node node).key < (t.node parent).key then .left
  else if (t.node node).key > (t.node parent).key then .right
  else if node < parent then .left
  else .right

/-- The search loop of `rb_insert`: the parent and the link of the new node. -/
def insertDescend (t : RbTree) (node : Addr) :
    ℕ → Option Addr → Link → Option (Option Addr × Link)
  | 0, _, _ => none
  | fuel + 1, parent, link =>
    match t.load link with
    | none => some (parent, link)
    | some p => insertDescend t node fuel (some p) (.child p (insertSide t node p))

/-- `rb_insert`. -/
def rbInsert (fuel : ℕ) (t : RbTree) (node : Addr) : Option RbTree := do
  let (parent, link) ← insertDescend t node fuel none .root
  let t := t.modify node fun n => ⟨.red, parent, none, none, n.key⟩
  let t := t.store link (some node)
  rbInsertFixup fuel t node

/-! ## Deletion -/

/-- `rb_transplant`. -/
def rbTransplant (t : RbTree) (u : Addr) (v : Option Addr) : RbTree :=
  let t := t.replaceChild u v
  t.setParentOf v (t.node u).parent

/-- The end of the last iteration of `rb_erase_fixup`, Cases 3 and 4: the tree and
the final `x`. `w` is the sibling, on the side of `p` opposite to `d`. -/
def eraseFixupRotate (d : Dir) (t : RbTree) (x : Option Addr) (p w : Addr) :
    RbTree × Option Addr :=
  let (t, w) :=
    if t.isBlack ((t.node w).child d.flip) then
      let t := t.setColorOf ((t.node w).child d) .black
      let t := t.setColor w .red
      let t := rbRotate d.flip t w
      (t, (t.node p).child d.flip)
    else (t, some w)
  match w with
  | none => ({ t with malformed := true }, x)
  | some w =>
    let t := t.setColor w (t.node p).color
    let t := t.setColor p .black
    let t := t.setColorOf ((t.node w).child d.flip) .black
    let t := rbRotate d t p
    (t, t.root)

/-- Case 1 of `rb_erase_fixup`: the tree and the sibling afterwards. -/
def eraseFixupCase1 (d : Dir) (t : RbTree) (p w : Addr) : RbTree × Option Addr :=
  if t.isRed (some w) then
    let t := t.setColor w .black
    let t := t.setColor p .red
    let t := rbRotate d t p
    (t, (t.node p).child d.flip)
  else (t, some w)

/-- The loop of `rb_erase_fixup`: the tree and the final `x`. `d` is the side of
`x`, the source's `x_is_left`. -/
def eraseFixupLoop : ℕ → RbTree → Option Addr → Option Addr → Dir → Option (RbTree × Option Addr)
  | 0, _, _, _, _ => none
  | fuel + 1, t, x, xParent, d =>
    if x ≠ t.root ∧ t.isBlack x then
      match xParent with
      | none => none
      | some p =>
        match (t.node p).child d.flip with
        | none => some ({ t with malformed := true }, x)
        | some w =>
          match eraseFixupCase1 d t p w with
          | (t, none) => some ({ t with malformed := true }, x)
          | (t, some w) =>
            if t.isBlack (t.node w).left ∧ t.isBlack (t.node w).right then
              -- Case 2: recolour and continue at the parent
              let t := t.setColor w .red
              eraseFixupLoop fuel t (some p) (t.node p).parent (t.sideAt p d)
            else some (eraseFixupRotate d t x p w)
    else some (t, x)

/-- `rb_erase_fixup`. -/
def rbEraseFixup (fuel : ℕ) (t : RbTree) (x xParent : Option Addr) (d : Dir) : Option RbTree :=
  (eraseFixupLoop fuel t x xParent d).map fun (t, x) => t.setColorOf x .black

/-- `while (y->left) y = y->left;` -/
def leftmost (t : RbTree) : ℕ → Addr → Option Addr
  | 0, _ => none
  | fuel + 1, y =>
    match (t.node y).left with
    | none => some y
    | some l => leftmost t fuel l

/-- The successor `y` of `z` gives its own place to its right child and takes over
the right subtree of `z`: the tree, `x_parent` and the side of `x`. -/
def detachSuccessor (t : RbTree) (z y : Addr) : Option (RbTree × Addr × Dir) :=
  if (t.node y).parent = some z then
    some (t.setParentOf (t.node y).right (some y), y, .right)
  else
    match (t.node y).parent with
    | none => none
    | some xParent =>
      let d := t.sideOf (some y) xParent
      let t := rbTransplant t y (t.node y).right
      let t := t.setChild y .right (t.node z).right
      let t := t.setParentOf (t.node y).right (some y)
      some (t, xParent, d)

/-- `y` takes the place of `z`, with its left subtree and its colour. -/
def takePlace (t : RbTree) (z y : Addr) : RbTree :=
  let t := rbTransplant t z (some y)
  let t := t.setChild y .left (t.node z).left
  let t := t.setParentOf (t.node y).left (some y)
  t.setColor y (t.node z).color

/-- The unlinking part of `rb_erase`: the tree, `x`, `x_parent`, the side of `x` and
`y_original_color`. -/
def eraseUnlink (fuel : ℕ) (t : RbTree) (z : Addr) :
    Option (RbTree × Option Addr × Option Addr × Dir × Color) :=
  match (t.node z).left, (t.node z).right with
  | none, right =>
    some (rbTransplant t z right, right, (t.node z).parent, t.sideAt z .right, (t.node z).color)
  | left, none =>
    some (rbTransplant t z left, left, (t.node z).parent, t.sideAt z .right, (t.node z).color)
  | some _, some right => do
    let y ← leftmost t fuel right
    let x := (t.node y).right
    let (t', xParent, d) ← detachSuccessor t z y
    some (takePlace t' z y, x, some xParent, d, (t.node y).color)

/-- `rb_erase`. -/
def rbErase (fuel : ℕ) (t : RbTree) (z : Addr) : Option RbTree := do
  let (t, x, xParent, d, yOriginalColor) ← eraseUnlink fuel t z
  if yOriginalColor = .black then rbEraseFixup fuel t x xParent d else some t

/-! ## Searches -/

/-- `rb_find_min`. -/
def rbFindMin (fuel : ℕ) (t : RbTree) : Option (Option Addr) :=
  match t.root with
  | none => some none
  | some node => (leftmost t fuel node).map some

/-- `rb_first`. -/
def rbFirst : ℕ → RbTree → Option (Option Addr) := rbFindMin

/-- The loop of `rb_find`. -/
def findLoop (t : RbTree) (key : ℕ) : ℕ → Option Addr → Option (Option Addr)
  | 0, _ => none
  | _ + 1, none => some none
  | fuel + 1, some node =>
    if key < (t.node node).key then findLoop t key fuel (t.node node).left
    else if key > (t.node node).key then findLoop t key fuel (t.node node).right
    else some (some node)

/-- `rb_find`. -/
def rbFind (fuel : ℕ) (t : RbTree) (key : ℕ) : Option (Option Addr) := findLoop t key fuel t.root

/-- `while (parent && node == parent->right)` of `rb_next`. -/
def climb (t : RbTree) : ℕ → Addr → Option Addr → Option (Option Addr)
  | 0, _, _ => none
  | _ + 1, _, none => some none
  | fuel + 1, node, some parent =>
    if some node = (t.node parent).right then climb t fuel parent (t.node parent).parent
    else some (some parent)

/-- `rb_next`. -/
def rbNext (fuel : ℕ) (t : RbTree) (node : Addr) : Option (Option Addr) :=
  match (t.node node).right with
  | some next => (leftmost t fuel next).map some
  | none => climb t fuel node (t.node node).parent

end Aurora.Rbtree
