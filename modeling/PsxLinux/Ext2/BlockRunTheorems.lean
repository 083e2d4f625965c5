import PsxLinux.Ext2.BallocTheorems
import PsxLinux.Lib.Exec

/-!
# Block allocation: every sequence of calls

Inodes allocate blocks with and without preallocation, discard their windows and free what they
own. Beside the file system the model keeps the blocks that are handed out. Along every run the
counters agree with the bitmaps and no block has two owners.
-/

namespace PsxLinux.Ext2

open Lib Function

def Window.Holds (w : Window) (b : Nat) : Prop := w.block ≤ b ∧ b < w.block + w.count

instance (w : Window) (b : Nat) : Decidable (w.Holds b) := inferInstanceAs (Decidable (_ ∧ _))

/-- The allocator and its users `ι`. `live` are the blocks handed out and not freed. -/
structure Alloc (ι : Type) where
  fs : Fs
  window : ι → Window
  live : Nat → Bool

/-- The calls. -/
inductive Call (ι : Type) where
  | newBlock (inode : ι) (goal : Nat) (prealloc privileged : Bool)
  | allocBlock (inode : ι) (goal : Nat) (regular privileged : Bool)
  | discardPrealloc (inode : ι)
  | freeBlocks (block count : Nat)

/-- What an allocation returns. -/
structure Returned where
  block : Nat
  err : Option Errno
deriving DecidableEq

section System
variable {ι : Type} [DecidableEq ι]

/-- An allocation has returned: the block is handed out if there is no error. -/
def Alloc.finish (t : Alloc ι) (inode : ι) (block : Nat) (err : Option Errno) (fs : Fs)
    (w : Window) : Alloc ι × List Returned :=
  ({ fs := fs
     window := update t.window inode w
     live := if err = none then update t.live block true else t.live },
   [⟨block, err⟩])

/-- One call; `none` if it does not return. -/
def Alloc.step (s : Super) (t : Alloc ι) : Call ι → Option (Alloc ι × List Returned)
  | .newBlock inode goal prealloc privileged =>
    (ext2NewBlock s privileged goal (if prealloc then some (t.window inode) else none) t.fs).map
      fun r => t.finish inode r.block r.err r.fs (r.window.getD (t.window inode))
  | .allocBlock inode goal regular privileged =>
    (ext2AllocBlock s privileged regular goal (t.window inode) t.fs).map
      fun r => t.finish inode r.1 r.2.1 r.2.2.1 r.2.2.2
  | .discardPrealloc inode =>
    let r := ext2DiscardPrealloc s (t.window inode) t.fs
    some ({ t with fs := r.1, window := update t.window inode r.2 }, [])
  | .freeBlocks block count =>
    some ({ t with
      fs := ext2FreeBlocks s block count t.fs
      live := fun b => t.live b && !decide (block ≤ b ∧ b < block + count) }, [])

/-- Only blocks that are handed out are freed. -/
def Alloc.Owned (t : Alloc ι) : Call ι → Prop
  | .freeBlocks block count => ∀ b, b < block + count → block ≤ b → t.live b
  | _ => True

instance (t : Alloc ι) (c : Call ι) : Decidable (t.Owned c) :=
  match c with
  | .newBlock .. | .allocBlock .. | .discardPrealloc .. => .isTrue trivial
  | .freeBlocks block count =>
    inferInstanceAs (Decidable (∀ b, b < block + count → block ≤ b → t.live b))

/-- No block has two owners, and every block that has one is marked. -/
structure Alloc.Apart (s : Super) (t : Alloc ι) : Prop where
  live : ∀ b, t.live b → s.InZone b ∧ t.fs.used s b ∧ ∀ i, ¬ (t.window i).Holds b
  window : ∀ i b, (t.window i).Holds b → s.InZone b ∧ t.fs.used s b ∧
    ∀ i', (t.window i').Holds b → i' = i

/-- What holds between calls. -/
structure Alloc.Sound (s : Super) (t : Alloc ι) : Prop where
  counts : t.fs.CountsBlocks s
  padded : t.fs.Padded s
  apart : t.Apart s
  small : ∀ i, (t.window i).count < 2 ^ 16

/-- The block was free, is marked now, and had no owner. -/
structure Fresh (s : Super) (t u : Alloc ι) (b : Nat) : Prop where
  zone : s.InZone b
  before : t.fs.used s b = false
  after : u.fs.used s b
  owner : t.live b = false ∧ ∀ i, ¬ (t.window i).Holds b

/-- What a call that leads from `t` to `u` promises. -/
def Promise (s : Super) (t u : Alloc ι) : Call ι → List Returned → Prop
  | .newBlock inode _ prealloc privileged, rs =>
    ∃ r, rs = [r] ∧ match r.err with
    | none => Fresh s t u r.block ∧ u.live r.block ∧
        if prealloc ∧ (t.window inode).count = 0 then
          (u.window inode).block = r.block + 1 ∧ ∀ b, (u.window inode).Holds b → Fresh s t u b
        else u.window inode = t.window inode
    | some e => e = .enospc ∧ r.block = 0 ∧
        ((∀ b, s.InZone b → t.fs.used s b) ∨
          t.fs.sFreeBlocksCount ≤ s.rBlocksCount ∧ privileged = false)
  | .allocBlock inode _ _ _, rs =>
    ∃ r, rs = [r] ∧ (r.err = none → u.live r.block ∧ u.fs.used s r.block ∧
      t.live r.block = false ∧ ∀ i, i ≠ inode → ¬ (t.window i).Holds r.block)
  | .discardPrealloc inode, _ =>
    (u.window inode).count = 0 ∧
      t.fs.Marks s u.fs (t.window inode).block (t.window inode).count false
  | .freeBlocks block count, _ => t.fs.Marks s u.fs block count false

end System

/-! ## One call -/

section Step
variable {ι : Type} [DecidableEq ι] {s : Super} {t u : Alloc ι} {inode : ι} {b k n : Nat}

/-- The block is handed out, or in the window of an inode. -/
def Alloc.Owns (t : Alloc ι) : Option ι → Nat → Prop
  | none, b => t.live b
  | some i, b => (t.window i).Holds b

omit [DecidableEq ι] in
lemma Alloc.apart_iff : t.Apart s ↔ ∀ o b, t.Owns o b →
    s.InZone b ∧ t.fs.used s b ∧ ∀ o', t.Owns o' b → o' = o := by
  constructor
  · rintro h (_ | i) b hb
    · obtain ⟨hzone, hused, hout⟩ := h.live b hb
      refine ⟨hzone, hused, ?_⟩
      rintro (_ | i) hi
      · rfl
      · exact absurd hi (hout i)
    · obtain ⟨hzone, hused, hunique⟩ := h.window i b hb
      refine ⟨hzone, hused, ?_⟩
      rintro (_ | j) hj
      · exact absurd hb ((h.live b hj).2.2 i)
      · exact congrArg some (hunique j hj)
  · intro h
    constructor
    · intro b hb
      obtain ⟨hzone, hused, hunique⟩ := h none b hb
      exact ⟨hzone, hused, fun i hi => Option.some_ne_none i (hunique i hi)⟩
    · intro i b hb
      obtain ⟨hzone, hused, hunique⟩ := h i b hb
      exact ⟨hzone, hused, fun j hj => Option.some.inj (hunique j hj)⟩

omit [DecidableEq ι] in
lemma Alloc.Sound.not_owned (h : t.Sound s) (hfree : t.fs.used s b = false) (o : Option ι) :
    ¬ t.Owns o b := by
  intro howns
  have hused := (apart_iff.1 h.apart o b howns).2.1
  rw [hfree] at hused
  cases hused

lemma Alloc.Sound.small_update (h : t.Sound s) {w : Window} (hw : w.count < 2 ^ 16) :
    ∀ i, (update t.window inode w i).count < 2 ^ 16 :=
  (forall_update_iff t.window fun _ w => w.count < 2 ^ 16).2 ⟨hw, fun i _ => h.small i⟩

omit [DecidableEq ι] in
lemma Alloc.Sound.shrink (hl : s.Layout) (h : t.Sound s)
    (hused : ∀ x, b ≤ x → x < b + n → s.InZone x ∧ t.fs.used s x)
    (hfs : u.fs = ext2FreeBlocks s b n t.fs)
    (howns : ∀ o x, u.Owns o x → t.Owns o x ∧ ¬ (b ≤ x ∧ x < b + n))
    (hsmall : ∀ i, (u.window i).count < 2 ^ 16) :
    u.Sound s ∧ t.fs.Marks s u.fs b n false := by
  obtain ⟨hcounts, hmarks⟩ := ext2FreeBlocks_spec hl h.counts hused
  rw [← hfs] at hcounts hmarks
  refine ⟨⟨hcounts, hmarks.padded h.padded fun x hb hx => (hused x hb hx).1, ?_, hsmall⟩, hmarks⟩
  refine apart_iff.2 fun o x hx => ?_
  obtain ⟨hold, hout⟩ := howns o x hx
  obtain ⟨hzone, hmarked, hunique⟩ := apart_iff.1 h.apart o x hold
  refine ⟨hzone, ?_, fun o' ho' => hunique o' (howns o' x ho').1⟩
  rw [hmarks.used hl hzone.1, if_neg hout]
  exact hmarked

lemma sound_freeBlocks (hl : s.Layout) (h : t.Sound s)
    (howned : t.Owned (.freeBlocks b n)) {rs : List Returned}
    (hstep : t.step s (.freeBlocks b n) = some (u, rs)) :
    u.Sound s ∧ Promise s t u (.freeBlocks b n) rs := by
  cases hstep
  have hrange : ∀ x, b ≤ x → x < b + n → t.live x := fun x hb hx => howned x hx hb
  refine Alloc.Sound.shrink hl h ?_ rfl ?_ h.small
  · intro x hb hx
    obtain ⟨hzone, hused, -⟩ := h.apart.live x (hrange x hb hx)
    exact ⟨hzone, hused⟩
  · rintro (_ | i) x hx
    · obtain ⟨hold, hout⟩ := Bool.and_eq_true_iff.1 hx
      rw [Bool.not_eq_true', decide_eq_false_iff_not] at hout
      exact ⟨hold, hout⟩
    · refine ⟨hx, fun hmem => ?_⟩
      exact (h.apart.live x (hrange x hmem.1 hmem.2)).2.2 i hx

/-- The state after `ext2_discard_prealloc`. -/
def Alloc.discarded (s : Super) (t : Alloc ι) (inode : ι) : Alloc ι :=
  let r := ext2DiscardPrealloc s (t.window inode) t.fs
  { t with fs := r.1, window := update t.window inode r.2 }

lemma sound_discarded (hl : s.Layout) (h : t.Sound s) (inode : ι) :
    (t.discarded s inode).Sound s ∧ ((t.discarded s inode).window inode).count = 0 ∧
      t.fs.Marks s (t.discarded s inode).fs (t.window inode).block (t.window inode).count
        false := by
  unfold Alloc.discarded ext2DiscardPrealloc
  split
  case isTrue hcount =>
    have hmod := Nat.mod_eq_of_lt (h.small inode)
    have hshrink := @Alloc.Sound.shrink ι s t
      { t with
        fs := ext2FreeBlocks s (t.window inode).block ((t.window inode).count % 2 ^ 16) t.fs
        window := update t.window inode ⟨0, 0⟩ }
      (t.window inode).block (t.window inode).count hl h ?_ (by rw [hmod]) ?_ ?_
    · dsimp only
      rw [update_self]
      exact ⟨hshrink.1, rfl, hshrink.2⟩
    · intro x hb hx
      obtain ⟨hzone, hused, -⟩ := h.apart.window inode x ⟨hb, hx⟩
      exact ⟨hzone, hused⟩
    · rintro (_ | i) x hx
      · exact ⟨hx, (h.apart.live x hx).2.2 inode⟩
      · dsimp only [Alloc.Owns] at hx
        by_cases hi : i = inode
        · subst hi
          rw [update_self] at hx
          exact absurd hx.2 (Nat.not_lt_of_le hx.1)
        · rw [update_of_ne hi] at hx
          refine ⟨hx, fun hmem => hi ?_⟩
          exact (h.apart.window inode x hmem).2.2 i hx
    · exact h.small_update (by decide)
  case isFalse hcount =>
    have hzero : (t.window inode).count = 0 := not_not.1 hcount
    dsimp only
    rw [update_eq_self]
    refine ⟨h, hzero, fun g i => ?_⟩
    rw [if_neg (by omega)]

omit [DecidableEq ι] in
/-- A run of free blocks is marked: the first is handed out, and the inode's window is left or is
the rest of the run. -/
lemma Alloc.Sound.grow (inode : ι) (hl : s.Layout) (h : t.Sound s)
    (hfree : ∀ x, b ≤ x → x < b + (k + 1) → s.InZone x ∧ t.fs.used s x = false)
    (hmarks : t.fs.Marks s u.fs b (k + 1) true) (hcounts : u.fs.CountsBlocks s)
    (howns : ∀ o x, u.Owns o x → t.Owns o x ∨
      (b ≤ x ∧ x < b + (k + 1)) ∧ o = if x = b then none else some inode)
    (hsmall : ∀ i, (u.window i).count < 2 ^ 16) : u.Sound s := by
  have hpadded := hmarks.padded h.padded fun x hb hx => (hfree x hb hx).1
  have hnew : ∀ o x, b ≤ x → x < b + (k + 1) → ¬ t.Owns o x := fun o x hb hx =>
    h.not_owned (hfree x hb hx).2 o
  refine ⟨hcounts, hpadded, apart_iff.2 fun o x hx => ?_, hsmall⟩
  rcases howns o x hx with hold | ⟨⟨hb, hlt⟩, ho⟩
  · obtain ⟨hzone, hused, hunique⟩ := apart_iff.1 h.apart o x hold
    refine ⟨hzone, ?_, fun o' ho' => ?_⟩
    · -- what was marked still is
      rw [hmarks.used hl hzone.1, hused, ite_self]
    · rcases howns o' x ho' with hold' | ⟨⟨hb, hlt⟩, -⟩
      · exact hunique o' hold'
      · exact absurd hold (hnew o x hb hlt)
  · have hzone := (hfree x hb hlt).1
    rw [hmarks.used hl hzone.1, if_pos ⟨hb, hlt⟩]
    refine ⟨hzone, rfl, fun o' ho' => ?_⟩
    rcases howns o' x ho' with hold | ⟨-, ho'⟩
    · exact absurd hold (hnew o' x hb hlt)
    · rw [ho, ho']

variable {prealloc : Bool}

lemma taken_window {w : Window} {fs : Fs} {r : NewBlock}
    (h : Taken s (if prealloc then some w else none) fs r k) :
    (prealloc ∧ w.count = 0) ∧ r.window.getD w = ⟨k, r.block + 1⟩ ∨
      ¬ (prealloc ∧ w.count = 0) ∧ r.window.getD w = w ∧ k = 0 := by
  have hempty := h.empty
  rw [h.window]
  cases prealloc with
  | false =>
    refine .inr ⟨(fun h => nomatch h.1), rfl, ?_⟩
    rcases hempty with hk | ⟨x, hx⟩
    · exact hk
    · cases hx
  | true =>
    obtain ⟨count, block⟩ := w
    cases count with
    | zero => exact .inl ⟨⟨rfl, rfl⟩, rfl⟩
    | succ count =>
      refine .inr ⟨(fun h => nomatch h.2), rfl, ?_⟩
      rcases hempty with hk | ⟨x, hx⟩
      · exact hk
      · cases hx

lemma sound_taken (hl : s.Layout) (h : t.Sound s) {r : NewBlock}
    (htaken : Taken s (if prealloc then some (t.window inode) else none) t.fs r k)
    (hu : (u, [(⟨r.block, none⟩ : Returned)]) =
      t.finish inode r.block r.err r.fs (r.window.getD (t.window inode))) :
    u.Sound s ∧ Fresh s t u r.block ∧ u.live r.block ∧
      if prealloc ∧ (t.window inode).count = 0 then
        (u.window inode).block = r.block + 1 ∧ ∀ b, (u.window inode).Holds b → Fresh s t u b
      else u.window inode = t.window inode := by
  have hwindow := taken_window htaken
  obtain ⟨herr, hfree, hmarks, hcounts, hk, -, -⟩ := htaken
  obtain rfl : u = _ := (Prod.mk.inj hu).1
  dsimp only
  rw [herr, if_pos rfl]
  generalize r.window.getD (t.window inode) = w at hwindow ⊢
  have hfresh : ∀ x, r.block ≤ x → x < r.block + (k + 1) →
      Fresh s t ⟨r.fs, update t.window inode w, update t.live r.block true⟩ x := by
    intro x hb hx
    obtain ⟨hzone, hclear⟩ := hfree x hb hx
    have howner := h.not_owned hclear
    refine ⟨hzone, hclear, ?_, Bool.eq_false_of_not_eq_true (howner none), fun i => howner i⟩
    rw [hmarks.used hl hzone.1, if_pos ⟨hb, hx⟩]
  refine ⟨?_, hfresh _ (Nat.le_refl _) (by omega), update_self .., ?_⟩
  · refine Alloc.Sound.grow inode hl h hfree hmarks hcounts ?_ ?_
    · rintro (_ | i) x hx <;> dsimp only [Alloc.Owns] at hx
      · rw [update_apply] at hx
        split at hx
        case isTrue heq => exact .inr ⟨by omega, by rw [if_pos heq]⟩
        case isFalse => exact .inl hx
      · by_cases hi : i = inode
        · subst hi
          rw [update_self] at hx
          rcases hwindow with ⟨-, rfl⟩ | ⟨-, rfl, -⟩
          · have h₁ : r.block + 1 ≤ x := hx.1
            have h₂ : x < r.block + 1 + k := hx.2
            exact .inr ⟨by omega, by rw [if_neg (by omega)]⟩
          · exact .inl hx
        · rw [update_of_ne hi] at hx
          exact .inl hx
    · refine h.small_update ?_
      rcases hwindow with ⟨-, rfl⟩ | ⟨-, rfl, -⟩
      · exact Nat.lt_trans hk (by decide)
      · exact h.small _
  · rw [update_self]
    rcases hwindow with ⟨hempty, rfl⟩ | ⟨hfull, rfl, -⟩
    · rw [if_pos hempty]
      refine ⟨rfl, fun x hx => ?_⟩
      have h₁ : r.block + 1 ≤ x := hx.1
      have h₂ : x < r.block + 1 + k := hx.2
      exact hfresh x (by omega) (by omega)
    · rw [if_neg hfull]

lemma sound_newBlock (hl : s.Layout) (h : t.Sound s) (inode : ι) (goal : Nat)
    (prealloc privileged : Bool) :
    ∃ u rs, t.step s (.newBlock inode goal prealloc privileged) = some (u, rs) ∧ u.Sound s ∧
      Promise s t u (.newBlock inode goal prealloc privileged) rs := by
  obtain ⟨r, hcall, hresult⟩ := ext2NewBlock_spec hl h.padded h.counts privileged goal
    (if prealloc then some (t.window inode) else none)
  simp only [Alloc.step, hcall]
  refine ⟨_, _, rfl, ?_⟩
  rcases hresult with ⟨k, htaken⟩ | ⟨rfl, hwhy⟩
  · have herr := htaken.err
    have hpromise := sound_taken (u := (t.finish inode r.block r.err r.fs
      (r.window.getD (t.window inode))).1) hl h htaken (by rw [Alloc.finish, herr])
    refine ⟨hpromise.1, _, rfl, ?_⟩
    rw [herr] at hpromise ⊢
    exact hpromise.2
  · -- nothing has changed
    have hsame : (if prealloc then some (t.window inode) else none).getD (t.window inode) =
        t.window inode := by cases prealloc <;> rfl
    refine ⟨?_, _, rfl, rfl, rfl, hwhy⟩
    simp only [hsame, update_eq_self]
    exact h

/-- `ext2_alloc_block` without a hit is a discarded window and a new block. -/
lemma step_allocBlock_of_miss {goal : Nat} {regular privileged : Bool}
    (hmiss : ¬ ((t.window inode).count ≠ 0 ∧
      (goal = (t.window inode).block ∨ goal + 1 = (t.window inode).block))) :
    t.step s (.allocBlock inode goal regular privileged) =
      (t.discarded s inode).step s (.newBlock inode goal regular privileged) := by
  simp only [Alloc.step, ext2AllocBlock, if_neg hmiss, Option.map_map, Alloc.discarded, update_self]
  congr 1
  funext r
  simp only [comp_apply, Alloc.finish, update_idem]

lemma sound_hit (h : t.Sound s) (hcount : (t.window inode).count ≠ 0)
    (hu : u = (t.finish inode (t.window inode).block none t.fs
      ⟨(t.window inode).count - 1, (t.window inode).block + 1⟩).1) :
    u.Sound s ∧ u.live (t.window inode).block ∧
      u.fs.used s (t.window inode).block ∧ t.live (t.window inode).block = false ∧
      ∀ i, i ≠ inode → ¬ (t.window i).Holds (t.window inode).block := by
  have hfirst : (t.window inode).Holds (t.window inode).block := ⟨Nat.le_refl _, by omega⟩
  obtain ⟨hzone, hused, hunique⟩ := h.apart.window inode _ hfirst
  have hdead : t.live (t.window inode).block = false := by
    by_contra hlive
    exact (h.apart.live _ (Bool.not_eq_false _ ▸ hlive)).2.2 inode hfirst
  have hothers : ∀ i, i ≠ inode → ¬ (t.window i).Holds (t.window inode).block :=
    fun i hi hholds => hi (hunique i hholds)
  subst hu
  -- the window of every inode is a part of what it was, without the block handed out
  have hwindow : ∀ i x, ((update t.window inode
      ⟨(t.window inode).count - 1, (t.window inode).block + 1⟩) i).Holds x →
      (t.window i).Holds x ∧ x ≠ (t.window inode).block := by
    intro i x hx
    by_cases hi : i = inode
    · subst hi
      rw [update_self] at hx
      have h₁ : (t.window i).block + 1 ≤ x := hx.1
      have h₂ : x < (t.window i).block + 1 + ((t.window i).count - 1) := hx.2
      exact ⟨⟨by omega, by omega⟩, by omega⟩
    · rw [update_of_ne hi] at hx
      refine ⟨hx, ?_⟩
      rintro rfl
      exact hothers i hi hx
  refine ⟨⟨h.counts, h.padded, ⟨?_, ?_⟩, ?_⟩, update_self .., hused, hdead, hothers⟩
  · intro x hx
    simp only [Alloc.finish, if_true, update_apply] at hx
    split at hx
    case isTrue heq =>
      subst heq
      exact ⟨hzone, hused, fun i hi => (hwindow i _ hi).2 rfl⟩
    case isFalse =>
      obtain ⟨hzone', hused', hout⟩ := h.apart.live x hx
      exact ⟨hzone', hused', fun i hi => hout i (hwindow i x hi).1⟩
  · intro i x hx
    obtain ⟨hzone', hused', hunique'⟩ := h.apart.window i x (hwindow i x hx).1
    exact ⟨hzone', hused', fun i' hi' => hunique' i' (hwindow i' x hi').1⟩
  · exact h.small_update (Nat.lt_of_le_of_lt (Nat.sub_le _ _) (h.small inode))

lemma sound_allocBlock (hl : s.Layout) (h : t.Sound s) (inode : ι) (goal : Nat)
    (regular privileged : Bool) :
    ∃ u rs, t.step s (.allocBlock inode goal regular privileged) = some (u, rs) ∧ u.Sound s ∧
      Promise s t u (.allocBlock inode goal regular privileged) rs := by
  by_cases hhit : (t.window inode).count ≠ 0 ∧
      (goal = (t.window inode).block ∨ goal + 1 = (t.window inode).block)
  · obtain ⟨hsound, hpromise⟩ := sound_hit h hhit.1 rfl
    simp only [Alloc.step, ext2AllocBlock, if_pos hhit]
    exact ⟨_, _, rfl, hsound, _, rfl, fun _ => hpromise⟩
  · obtain ⟨hsound, hempty, hmarks⟩ := sound_discarded hl h inode
    obtain ⟨u, rs, hstep, hsound', r, hrs, hpromise⟩ :=
      sound_newBlock hl hsound inode goal regular privileged
    rw [step_allocBlock_of_miss hhit]
    refine ⟨u, rs, hstep, hsound', r, hrs, fun herr => ?_⟩
    rw [herr] at hpromise
    obtain ⟨⟨hzone, hfree, hused, hlive, hwindows⟩, hlive', -⟩ := hpromise
    refine ⟨hlive', hused, hlive, fun i hi hholds => hwindows i ?_⟩
    simp only [Alloc.discarded]
    rw [update_of_ne hi]
    exact hholds

/-- Every call returns, keeps what holds between calls, and keeps its promise. -/
lemma sound_step (hl : s.Layout) (h : t.Sound s) (c : Call ι) (howned : t.Owned c) :
    ∃ u rs, t.step s c = some (u, rs) ∧ u.Sound s ∧ Promise s t u c rs := by
  cases c with
  | newBlock inode goal prealloc privileged =>
    exact sound_newBlock hl h inode goal prealloc privileged
  | allocBlock inode goal regular privileged =>
    exact sound_allocBlock hl h inode goal regular privileged
  | discardPrealloc inode =>
    obtain ⟨hsound, hempty, hmarks⟩ := sound_discarded hl h inode
    exact ⟨_, _, rfl, hsound, hempty, hmarks⟩
  | freeBlocks block count =>
    exact ⟨_, _, rfl, sound_freeBlocks hl h howned rfl⟩

end Step

/-! ## Runs -/

section Runs
variable {ι : Type} [DecidableEq ι] {s : Super} {t₀ t : Alloc ι}

/-- **The block allocator.** On a file system laid out as the format says, with the bits that stand
for no block set and consistent counters, whatever is handed out in the beginning: in every run the
counters stay consistent and no block gets two owners, and the next call returns and keeps its
promise. -/
theorem allocator_sound {calls : List (Call ι)} {rs : List Returned} (hl : s.Layout)
    (hcounts : t₀.fs.CountsBlocks s) (hpadded : t₀.fs.Padded s)
    (hlive : ∀ b, t₀.live b → s.InZone b ∧ t₀.fs.used s b)
    (hwindow : ∀ i, (t₀.window i).count = 0)
    (hrun : Exec (Alloc.step s) Alloc.Owned t₀ calls rs t) :
    t.fs.CountsBlocks s ∧ t.Apart s ∧
      ∀ c, t.Owned c → ∃ u rs, t.step s c = some (u, rs) ∧ Promise s t u c rs := by
  have hinit : t₀.Sound s := by
    have hout : ∀ i b, ¬ (t₀.window i).Holds b := by
      intro i b hholds
      have h₁ := hholds.1
      have h₂ := hholds.2
      rw [hwindow i] at h₂
      omega
    refine ⟨hcounts, hpadded, ⟨?_, fun i b hholds => absurd hholds (hout i b)⟩, fun i => ?_⟩
    · intro b hb
      obtain ⟨hzone, hused⟩ := hlive b hb
      exact ⟨hzone, hused, fun i => hout i b⟩
    · rw [hwindow i]
      decide
  have hsound : t.Sound s := by
    refine hrun.invariant_state (P := fun t => t.Sound s) hinit ?_
    intro t c u rs h howned hstep
    obtain ⟨u', rs', hstep', hsound, -⟩ := sound_step hl h c howned
    rw [hstep] at hstep'
    cases hstep'
    exact hsound
  refine ⟨hsound.counts, hsound.apart, fun c howned => ?_⟩
  obtain ⟨u, rs, hstep, -, hpromise⟩ := sound_step hl hsound c howned
  exact ⟨u, rs, hstep, hpromise⟩

end Runs

/-- Two groups, of 16 and of 8 blocks. -/
def twoGroups : Super where
  firstDataBlock := 1
  blocksCount := 25
  rBlocksCount := 0
  blocksPerGroup := 16
  groupsCount := 2
  preallocBlocks := 0
  blocksize := 1024
  inodesPerGroup := 8
  inodesCount := 16
  firstIno := 11

/-- Blocks 10 to 20, which lie in both groups, are handed out. -/
def twoGroupsStart : Alloc Bool where
  fs :=
    { blockBitmap := fun g i => if g = 0 then decide (i < 2 ∨ 9 ≤ i) else decide (i < 4 ∨ 8 ≤ i)
      inodeBitmap := fun _ _ => true
      bgFreeBlocksCount := fun g => if g = 0 then 7 else 4
      bgFreeInodesCount := fun _ => 0
      bgUsedDirsCount := fun _ => 0
      sFreeBlocksCount := 11
      sFreeInodesCount := 0 }
  window := fun _ => ⟨0, 0⟩
  live := fun b => decide (10 ≤ b ∧ b < 21)

lemma layout_twoGroups : twoGroups.Layout :=
  ⟨by decide, by decide, by decide, by decide, by decide, by decide⟩

/-- Two inodes allocate, one of them with preallocation, a range over both groups is freed, and a
window is discarded. -/
theorem allocator_sound_two_groups :
    ∃ t rs, Exec (Alloc.step twoGroups) Alloc.Owned twoGroupsStart
        [.newBlock true 3 true false, .allocBlock true 4 true false, .newBlock false 20 false true,
          .freeBlocks 10 11, .discardPrealloc true] rs t ∧
      rs = [⟨3, none⟩, ⟨4, none⟩, ⟨21, none⟩] ∧ t.fs.CountsBlocks twoGroups := by
  have hpadded : twoGroupsStart.fs.Padded twoGroups := by
    intro g i hg hle hlt
    have hg : g = 0 ∨ g = 1 := by
      have : g < 2 := hg
      omega
    rcases hg with rfl | rfl
    · have hi : 16 ≤ i := hle
      exact decide_eq_true (.inr (by omega))
    · have hi : 8 ≤ i := hle
      exact decide_eq_true (.inr hi)
  have hlive : ∀ b, twoGroupsStart.live b →
      twoGroups.InZone b ∧ twoGroupsStart.fs.used twoGroups b := by
    intro b hb
    have hb := of_decide_eq_true hb
    have hall : ∀ b, b < 21 → 10 ≤ b →
      twoGroups.InZone b ∧ twoGroupsStart.fs.used twoGroups b := by decide
    exact hall b hb.2 hb.1
  refine Exec.exists_of_decide (fun _ rs => rs = [⟨3, none⟩, ⟨4, none⟩, ⟨21, none⟩])
    (by decide +kernel) fun t rs hrun hend => ?_
  have hsound := allocator_sound layout_twoGroups ⟨by decide, by decide⟩ hpadded hlive
    (fun _ => rfl) hrun
  exact ⟨hend, hsound.1⟩

/-- One group of 12 blocks whose bitmap block has room for 8192; the bits behind the 12 are clear. -/
def shortGroup : Super where
  firstDataBlock := 1
  blocksCount := 13
  rBlocksCount := 0
  blocksPerGroup := 64
  groupsCount := 1
  preallocBlocks := 0
  blocksize := 1024
  inodesPerGroup := 8
  inodesCount := 8
  firstIno := 11

/-- Block 4 is free and every other block is in use. -/
def unpadded : Fs where
  blockBitmap := fun _ i => decide (i < 12 ∧ i ≠ 3)
  inodeBitmap := fun _ _ => true
  bgFreeBlocksCount := fun _ => 1
  bgFreeInodesCount := fun _ => 0
  bgUsedDirsCount := fun _ => 0
  sFreeBlocksCount := 1
  sFreeInodesCount := 0

/-- Clear bits behind the last block: the counters are consistent and a block is free, but the
search ends behind it and `ENOSPC` is returned. -/
theorem unpadded_enospc :
    unpadded.CountsBlocks shortGroup ∧
      (ext2NewBlock shortGroup true 1 none unpadded).map (fun r => (r.block, r.err)) =
        some (0, some .enospc) ∧
      shortGroup.InZone 4 ∧ unpadded.used shortGroup 4 = false :=
  ⟨⟨by decide, by decide⟩, by decide +kernel, by decide, by decide⟩

/-- Two groups of 12 blocks: the bits of a group end within a byte. -/
def raggedGroups : Super := { twoGroups with blocksPerGroup := 12 }

/-- One block of the second group is free and every other block is in use. -/
def ragged : Fs :=
  { unpadded with
    blockBitmap := fun g i => decide (¬ (g = 1 ∧ i = 3))
    bgFreeBlocksCount := fun g => if g = 1 then 1 else 0 }

/-- With `blocks_per_group` not a multiple of 8, the search of another group takes the bit behind
the last whole byte for free, finds it set and starts again, for ever. -/
theorem ragged_never_returns :
    ragged.CountsBlocks raggedGroups ∧ ragged.Padded raggedGroups ∧
      (ext2NewBlock raggedGroups true 1 none ragged).isNone := by
  refine ⟨⟨by decide, by decide⟩, fun g i hg hle _ => decide_eq_true ?_, by decide +kernel⟩
  have hblocks : ∀ g < 2, raggedGroups.groupBlocks g = 12 := by decide
  rw [hblocks g hg] at hle
  omega

end PsxLinux.Ext2
