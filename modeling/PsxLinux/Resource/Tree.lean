import PsxLinux.Lib.Exec
import PsxLinux.Lib.Forest
import Mathlib.Data.Nat.Bitwise

/-!
# The resource tree

A `struct resource` has a range, a pointer to its parent, one to its first child and one to its next
sibling. The forest of children is what the `child` pointer leads to, so that the walks over
`*p = tmp->sibling` are recursions over it. Addresses are 32-bit words. The whole tree is the forest
with the root as its only top node; calls name a resource by its identity, as the source does by its
address.
-/

namespace PsxLinux.Resource

open Lib

abbrev Id := ℕ

def word (x : ℕ) : ℕ := x % 2 ^ 32

/-- `struct resource`; `stop` is its `end`, `busy` is `IORESOURCE_BUSY` in its flags. -/
structure Res where
  id : Id
  start : ℕ
  stop : ℕ
  busy : Bool
  parent : Option Id
  deriving DecidableEq

abbrev Kids := Forest Res

/-- `start + n - 1` -/
def lastOf (start n : ℕ) : ℕ := word (start + n + (2 ^ 32 - 1))

/-- The three tests at the start of `__request_resource`. -/
def outside (root new : Res) : Bool :=
  new.stop < new.start || new.start < root.start || new.stop > root.stop

/-- The loop of `__request_resource`: the children with the new resource, or the conflict. `below` is
what hangs below the new resource already. -/
def link (root : Id) (new : Res) (below : Kids) : Kids → Except Res Kids
  | .nil => .ok (.node { new with parent := some root } below .nil)
  | .node tmp child sibling =>
    if tmp.start > new.stop then
      .ok (.node { new with parent := some root } below (.node tmp child sibling))
    else if tmp.stop < new.start then
      match link root new below sibling with
      | .ok sibling' => .ok (.node tmp child sibling')
      | .error conflict => .error conflict
    else .error tmp

def requestResource (root : Res) (kids : Kids) (new : Res) (below : Kids) : Except Res Kids :=
  if outside root new then .error root else link root.id new below kids

/-- The loop of `__release_resource`. -/
def unlink (old : Id) : Kids → Option Kids
  | .nil => none
  | .node tmp child sibling =>
    if tmp.id = old then some sibling
    else match unlink old sibling with
      | some sibling' => some (.node tmp child sibling')
      | none => none

def lookup (tree : Kids) (id : Id) : Option (Res × Kids) := tree.find? (Forest.hasKey Res.id id)

def putKids (tree : Kids) (id : Id) (kids : Kids) : Kids :=
  tree.setKids (Forest.hasKey Res.id id) kids

/-- `__release_resource`: `none` if a pointer does not lead to a resource of the tree, and whether the
resource was found. -/
def releaseResource (tree : Kids) (old : Id) : Option (Kids × Bool) :=
  match lookup tree old with
  | none => none
  | some (res, _) =>
    match res.parent with
    | none => none
    | some parent =>
      match lookup tree parent with
      | none => none
      | some (_, kids) =>
        match unlink old kids with
        | none => some (tree, false)
        | some kids' => some (putKids tree parent kids', true)

/-- `(start + align - 1) & ~(align - 1)` -/
def alignUp (start align : ℕ) : ℕ :=
  word (start + align + (2 ^ 32 - 1)) &&& (2 ^ 32 - 1 - word (align + (2 ^ 32 - 1)))

/-- `find_resource` from the child `this` on, with `new->start` as given: the range found. `alignf` is
what the caller's function makes of `new->start` and `new->end`. -/
def findResource (root : Res) (size min max align : ℕ) (alignf : ℕ × ℕ → ℕ × ℕ) :
    ℕ → Kids → Option (ℕ × ℕ)
  | start, .nil =>
    let new := alignf (alignUp (Nat.max start min) align, Nat.min root.stop max)
    if new.1 < new.2 ∧ word (new.2 - new.1 + 1) ≥ size then some (new.1, lastOf new.1 size) else none
  | start, .node this _ sibling =>
    let new := alignf (alignUp (Nat.max start min) align, Nat.min this.start max)
    if new.1 < new.2 ∧ word (new.2 - new.1 + 1) ≥ size then some (new.1, lastOf new.1 size)
    else findResource root size min max align alignf (word (this.stop + 1)) sibling

/-- The loop of `__request_region` below a parent that the new region lies inside of. Where
`__request_resource` reports a child that is not busy, the loop goes on with that child as the
parent; the two loops are one recursion here. -/
def place (parent : Id) (res : Res) : Kids → Option Kids
  | .nil => some (.node { res with parent := some parent } .nil .nil)
  | .node tmp child sibling =>
    if tmp.start > res.stop then
      some (.node { res with parent := some parent } .nil (.node tmp child sibling))
    else if tmp.stop < res.start then
      match place parent res sibling with
      | some sibling' => some (.node tmp child sibling')
      | none => none
    else if tmp.busy then none
    else if outside tmp res then none
    else match place tmp.id res child with
      | some child' => some (.node tmp child' sibling)
      | none => none

/-- `__request_region` after the allocation. -/
def requestRegion (parent : Res) (kids : Kids) (res : Res) : Option Kids :=
  if outside parent res then none else place parent.id res kids

/-- The loop of `__release_region`: the region that is freed and the children that are left. -/
def releaseRegion (start stop : ℕ) : Kids → Option (Res × Kids)
  | .nil => none
  | .node res child sibling =>
    if res.start ≤ start ∧ res.stop ≥ stop then
      if !res.busy then
        match releaseRegion start stop child with
        | some (freed, child') => some (freed, .node res child' sibling)
        | none => none
      else if res.start ≠ start ∨ res.stop ≠ stop then none
      else some (res, sibling)
    else match releaseRegion start stop sibling with
      | some (freed, sibling') => some (freed, .node res child sibling')
      | none => none

/-! ## The system -/

/-- The tree, what hangs below resources that are not linked, and the regions that
`__request_region` has handed out and nobody has released. -/
structure Sys where
  tree : Kids
  below : Id → Kids
  handed : List Res

inductive Event
  | done
  | failed
  deriving DecidableEq

inductive Act
  | request (root new : Id) (start stop : ℕ) (busy : Bool)
  | release (old : Id)
  | check (root : Id) (start len : ℕ) (tmp : Id)
  | allocate (root new : Id) (busy : Bool) (size min max align : ℕ) (alignf : ℕ × ℕ → ℕ × ℕ)
  | requestRegion (parent : Id) (start n : ℕ) (mem : Option Id)
  | checkRegion (parent : Id) (start n : ℕ) (mem : Option Id)
  | releaseRegion (parent : Id) (start n : ℕ)

def Linked (s : Sys) (id : Id) : Prop := id ∈ s.tree.labels.map Res.id

instance (s : Sys) (id : Id) : Decidable (Linked s id) := inferInstanceAs (Decidable (_ ∈ _))

/-- Memory that `kmalloc` may return: in no use that matters here. -/
def Fresh (s : Sys) (id : Id) : Prop := ¬ Linked s id ∧ id ∉ s.handed.map Res.id

instance (s : Sys) (id : Id) : Decidable (Fresh s id) := inferInstanceAs (Decidable (_ ∧ _))

def newRes (id : Id) (start stop : ℕ) (busy : Bool) : Res :=
  { id := id, start := word start, stop := word stop, busy := busy, parent := none }

/-- `request_resource` for a resource that is not linked yet. -/
def stepRequest (s : Sys) (root : Id) (new : Res) : Option (Sys × List Event) :=
  match lookup s.tree root with
  | none => none
  | some (r, kids) =>
    match requestResource r kids new (s.below new.id) with
    | .ok kids' => some ({ s with tree := putKids s.tree root kids' }, [.done])
    | .error _ => some (s, [.failed])

/-- `release_resource`; what hangs below the resource stays there. -/
def stepRelease (s : Sys) (old : Id) : Option (Sys × List Event) :=
  match lookup s.tree old, releaseResource s.tree old with
  | some (_, child), some (tree, true) =>
    some ({ tree := tree, below := Function.update s.below old child,
            handed := s.handed.filter fun h => h.id ≠ old }, [.done])
  | some _, some (_, false) => some (s, [.failed])
  | _, _ => none

/-- `check_resource` -/
def stepCheck (s : Sys) (root : Id) (tmp : Res) : Option (Sys × List Event) :=
  match lookup s.tree root with
  | none => none
  | some (r, kids) =>
    match requestResource r kids tmp .nil with
    | .error _ => some (s, [.failed])
    | .ok kids' =>
      match releaseResource (putKids s.tree root kids') tmp.id with
      | some (tree, _) => some ({ s with tree := tree }, [.done])
      | none => none

def stepAllocate (s : Sys) (root new : Id) (busy : Bool) (size min max align : ℕ)
    (alignf : ℕ × ℕ → ℕ × ℕ) : Option (Sys × List Event) :=
  match lookup s.tree root with
  | none => none
  | some (r, kids) =>
    match findResource r size min max align alignf r.start kids with
    | some (start, stop) => stepRequest s root (newRes new start stop busy)
    | none => some (s, [.failed])

def stepRequestRegion (s : Sys) (parent : Id) (res : Res) : Option (Sys × List Event) :=
  match lookup s.tree parent with
  | none => none
  | some (p, kids) =>
    match requestRegion p kids res with
    | some kids' =>
      some ({ s with tree := putKids s.tree parent kids', handed := res :: s.handed }, [.done])
    | none => some (s, [.failed])

/-- `__check_region`: a request, and if it succeeds its release. -/
def stepCheckRegion (s : Sys) (parent : Id) (res : Res) : Option (Sys × List Event) :=
  match lookup s.tree parent with
  | none => none
  | some (p, kids) =>
    match requestRegion p kids res with
    | some kids' =>
      match releaseResource (putKids s.tree parent kids') res.id with
      | some (tree, _) => some ({ s with tree := tree }, [.done])
      | none => none
    | none => some (s, [.failed])

def stepReleaseRegion (s : Sys) (parent : Id) (start n : ℕ) : Option (Sys × List Event) :=
  match lookup s.tree parent with
  | none => none
  | some (_, kids) =>
    match releaseRegion (word start) (lastOf (word start) (word n)) kids with
    | some (freed, kids') =>
      some ({ s with tree := putKids s.tree parent kids',
                     handed := s.handed.filter fun h => h.id ≠ freed.id }, [.done])
    | none => some (s, [.failed])

/-- The busy resource that `__request_region` sets up. -/
def region (id : Id) (start n : ℕ) : Res := newRes id start (lastOf (word start) (word n)) true

/-- One call. -/
def step (s : Sys) : Act → Option (Sys × List Event)
  | .request root new start stop busy =>
    if Linked s new then none else stepRequest s root (newRes new start stop busy)
  | .release old => stepRelease s old
  | .check root start len tmp =>
    if Linked s tmp then none
    else stepCheck s root (newRes tmp start (lastOf (word start) (word len)) false)
  | .allocate root new busy size min max align alignf =>
    if Linked s new then none else stepAllocate s root new busy size min max align alignf
  | .requestRegion parent start n mem =>
    match mem with
    | none => some (s, [.failed])
    | some id => if Fresh s id then stepRequestRegion s parent (region id start n) else none
  | .checkRegion parent start n mem =>
    match mem with
    | none => some (s, [.failed])
    | some id => if Fresh s id then stepCheckRegion s parent (region id start n) else none
  | .releaseRegion parent start n => stepReleaseRegion s parent start n

/-- The tree with nothing but its root. -/
def initial (id : Id) (start stop : ℕ) (busy : Bool) : Sys :=
  { tree := .node (newRes id start stop busy) .nil .nil, below := fun _ => .nil, handed := [] }

/-- No region is requested in or below a busy resource, and no resource is released that still
has children. -/
def Act.Proper (s : Sys) : Act → Prop
  | .requestRegion parent _ _ _ =>
    ∀ n ∈ s.tree.nodes, n.1.busy → parent ∉ n.1.id :: n.2.labels.map Res.id
  | .release old => ∀ n ∈ s.tree.nodes, n.1.id = old → n.2.row = []
  | .releaseRegion _ start len => ∀ n ∈ s.tree.nodes, n.1.busy → n.1.start = word start →
    n.1.stop = lastOf (word start) (word len) → n.2.row = []
  | .request .. | .allocate .. | .check .. | .checkRegion .. => True

instance (s : Sys) : (a : Act) → Decidable (a.Proper s)
  | .requestRegion .. | .release _ | .releaseRegion .. =>
    inferInstanceAs (Decidable (∀ n ∈ s.tree.nodes, _))
  | .request .. | .allocate .. | .check .. | .checkRegion .. => inferInstanceAs (Decidable True)

/-- Calls that only look. -/
def Act.Checks : Act → Prop
  | .check _ _ _ _ | .checkRegion _ _ _ _ => True
  | _ => False

end PsxLinux.Resource
