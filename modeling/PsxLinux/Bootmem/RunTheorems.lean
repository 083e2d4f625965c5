import PsxLinux.Bootmem.AllocTheorems

/-!
# The boot memory allocator over whole runs

What has been handed out or reserved is never available again. From this follows that the byte
ranges returned by all allocations are disjoint and lie in pages that were free and not reserved
before (`ranges_apart_of_regular`), in every run whose calls are `Regular`.

Without that condition it is not so: a scan that finds nothing leaves `start` at 0, which the test
`start >= eidx` does not notice (`alloc_beyond_node`), and an allocation from the pages of the bitmap
clears the bits there.
-/

namespace PsxLinux.Bootmem

open Lib List

/-! ## What should hold -/

def Touches (addr size p : ℕ) : Prop := addr / pageSize ≤ p ∧ pageSize * p < addr + size

/-- An earlier event and a later one do not interfere. -/
def Apart : Event → Event → Prop
  | .allocated ret size _, .allocated ret' size' _ => ret + size ≤ ret' ∨ ret' + size' ≤ ret
  | .reserved addr size, .allocated ret size' _ => ∀ p, ¬ (Touches addr size p ∧ Touches ret size' p)
  | _, .reserved _ _ => True

/-- The allocations of a run from `b₀` to `b` are as they should be. -/
structure Sound (b₀ b : Bdata) (events : List Event) : Prop where
  apart : events.Pairwise Apart
  aligned : ∀ ret size align, .allocated ret size align ∈ events → align ∣ ret
  pages : ∀ ret size align, .allocated ret size align ∈ events → ∀ p, Touches ret size p →
    b₀.nodeBootStart / pageSize ≤ p ∧ p < b₀.nodeLowPfn ∧
      b₀.nodeBootmemMap (p - b₀.nodeBootStart / pageSize) = false ∧
      b.nodeBootmemMap (p - b₀.nodeBootStart / pageSize)

/-- The alignment is a power of two that the node's first byte has. -/
def Aligned (b : Bdata) : Call → Prop
  | .reserve _ _ => True
  | .alloc _ align _ => (∃ k, align.toNat = 2 ^ k) ∧ align.toNat ∣ b.nodeBootStart

/-- A page of the node with bytes to hand out: its bit is clear, or the last allocation filled it in
part. -/
def HasFree (b : Bdata) (p : ℕ) : Prop :=
  b.nodeBootStart / pageSize ≤ p ∧ p < b.nodeLowPfn ∧
    (b.nodeBootmemMap (p - b.nodeBootStart / pageSize) = false ∨
      b.lastOffset ≠ 0 ∧ p = b.nodeBootStart / pageSize + b.lastPos)

/-- An allocation asks for no more pages than the node has, its size rounded up is a machine word,
and no page of the bitmap has bytes to hand out; a reservation begins inside the node, its end
rounded up is a machine word, and it leaves out the page that the last allocation filled in part. -/
def Regular (b : Bdata) : Call → Prop
  | .reserve addr size => b.nodeBootStart ≤ addr.toNat ∧
      addr.toNat + size.toNat + (pageSize - 1) < 2 ^ 32 ∧
      (b.lastOffset ≠ 0 → ¬ Touches addr.toNat size.toNat (b.nodeBootStart / pageSize + b.lastPos))
  | .alloc size _ _ => size.toNat + (pageSize - 1) < 2 ^ 32 ∧
      (size.toNat + (pageSize - 1)) / pageSize ≤ b.nodeLowPfn - b.nodeBootStart / pageSize ∧
      ∀ i < b.nodeLowPfn - b.nodeBootStart / pageSize, ¬ HasFree b (b.mapByte i / pageSize)

instance (addr size p : ℕ) : Decidable (Touches addr size p) :=
  inferInstanceAs (Decidable (_ ∧ _))

instance (b : Bdata) (p : ℕ) : Decidable (HasFree b p) :=
  inferInstanceAs (Decidable (_ ∧ _ ∧ (_ ∨ _)))

instance (b : Bdata) : (c : Call) → Decidable (Regular b c)
  | .reserve _ _ => inferInstanceAs (Decidable (_ ∧ _ ∧ (_ → _)))
  | .alloc _ _ _ => inferInstanceAs (Decidable (_ ∧ _ ∧ ∀ _, _))

/-! ## The invariant -/

/-- No byte of what the event took is available. -/
def Taken (start stop : ℕ) (b : Bdata) : Event → Prop
  | .reserved addr size => ∀ x, Avail start stop b x → ¬ Touches addr size (x / 4096)
  | .allocated ret size _ => ∀ x, Avail start stop b x → ¬ (ret ≤ x ∧ x < ret + size)

structure RunInv (start stop : ℕ) (b₀ b : Bdata) (events : List Event) : Prop where
  node : Node start stop b
  sound : Sound b₀ b events
  taken : ∀ e ∈ events, Taken start stop b e
  positive : ∀ ret size align, .allocated ret size align ∈ events → 0 < size
  avail : ∀ x, Avail start stop b x → b₀.nodeBootmemMap (x / 4096 - start) = false

variable {start stop : ℕ} {b₀ b b' : Bdata} {events : List Event}

lemma Touches.byte {addr size p : ℕ} (h : Touches addr size p) (hsize : 0 < size) :
    ∃ x, addr ≤ x ∧ x < addr + size ∧ x / 4096 = p := by
  obtain ⟨h₁, h₂⟩ := h
  simp only [pageSize] at h₁ h₂
  rcases Nat.le_total addr (4096 * p) with hle | hle
  · exact ⟨4096 * p, hle, h₂, by omega⟩
  · exact ⟨addr, le_rfl, by omega, by omega⟩

/-- What is taken stays taken. -/
lemma Taken.mono {e : Event} (h : Taken start stop b e)
    (hgone : ∀ x, Avail start stop b' x → Avail start stop b x) : Taken start stop b' e := by
  cases e with
  | reserved addr size => exact fun x hx => h x (hgone x hx)
  | allocated ret size align => exact fun x hx => h x (hgone x hx)

lemma Sound.mono (h : Sound b₀ b events)
    (hmono : ∀ i < b₀.nodeLowPfn - b₀.nodeBootStart / pageSize,
      b.nodeBootmemMap i → b'.nodeBootmemMap i) : Sound b₀ b' events := by
  refine ⟨h.apart, h.aligned, fun ret size align he p hp => ?_⟩
  obtain ⟨h₁, h₂, h₃, h₄⟩ := h.pages ret size align he p hp
  exact ⟨h₁, h₂, h₃, hmono _ (by omega) h₄⟩

/-- A byte of a page that is not free is not available. -/
lemma Node.not_avail (h : Node start stop b) {x : ℕ} (hx : ¬ HasFree b (x / pageSize)) :
    ¬ Avail start stop b x := by
  rintro ⟨hge, hlt, hbit⟩
  refine hx ?_
  unfold HasFree
  rw [h.bootStart, h.lowPfn, pageSize, Nat.mul_div_cancel_left _ (by decide)]
  exact ⟨by omega, by omega, hbit.imp_right fun hpart => ⟨hpart.1, hpart.2.1⟩⟩

/-- **A reservation** keeps the invariant. -/
lemma RunInv.reserve (h : RunInv start stop b₀ b events) {addr size : UInt32}
    (hregular : Regular b (.reserve addr size))
    (hcall : reserveBootmemCore b addr.toNat size.toNat = some b') :
    RunInv start stop b₀ b' (events ++ [.reserved addr.toNat size.toNat]) := by
  obtain ⟨hlow, hwrap, hlast⟩ := hregular
  have hboot : b.nodeBootStart / pageSize = start := by
    rw [h.node.bootStart, pageSize, Nat.mul_div_cancel_left _ (by decide)]
  rw [h.node.bootStart] at hlow
  rw [hboot] at hlast
  obtain ⟨hnode, hmono, hgone⟩ :=
    h.node.reserve_spec addr.toNat_lt size.toNat_lt hlow hwrap hlast hcall
  have hsound := h.sound.mono fun i _ => hmono i
  refine ⟨hnode, ?_, ?_, fun ret size' align he => h.positive ret size' align (by simpa using he),
    fun x hx => h.avail x (hgone x hx).1⟩
  · refine ⟨?_, ?_, ?_⟩
    · refine pairwise_append.2 ⟨h.sound.apart, pairwise_singleton _ _, ?_⟩
      intro e _ e' he'
      rw [mem_singleton.1 he']
      cases e <;> trivial
    · intro ret size' align he
      exact h.sound.aligned ret size' align (by simpa using he)
    · intro ret size' align he
      exact hsound.pages ret size' align (by simpa using he)
  · intro e he
    rcases mem_append.1 he with he | he
    · exact (h.taken e he).mono fun x hx => (hgone x hx).1
    · rw [mem_singleton.1 he]
      exact fun x hx => (hgone x hx).2

/-- **An allocation** keeps the invariant. -/
lemma RunInv.alloc (h : RunInv start stop b₀ b events) (hboot₀ : b₀.nodeBootStart = 4096 * start)
    (hstop₀ : b₀.nodeLowPfn = stop) {size align goal : UInt32} {ret : ℕ}
    (haligned : Aligned b (.alloc size align goal)) (hregular : Regular b (.alloc size align goal))
    (hcall : allocBootmemCore b size.toNat align.toNat goal.toNat = some (b', ret)) :
    RunInv start stop b₀ b' (events ++ [.allocated ret size.toNat align.toNat]) := by
  obtain ⟨hpow, hdvd⟩ := haligned
  obtain ⟨hwrap, hfit, hkept⟩ := hregular
  have hpfn : 4096 * start / pageSize = start := by
    rw [pageSize, Nat.mul_div_cancel_left _ (by decide)]
  rw [h.node.bootStart] at hdvd
  rw [h.node.bootStart, h.node.lowPfn, hpfn] at hfit hkept
  obtain ⟨hne, htook, hnode, hret⟩ := h.node.alloc_spec hwrap hfit hpow hdvd
    (fun i hi => h.node.not_avail (hkept i hi)) hcall
  have hpos : 0 < size.toNat := Nat.pos_of_ne_zero hne
  have hsound := h.sound.mono fun i hi => htook.mono i (by rwa [hboot₀, hstop₀, hpfn] at hi)
  refine ⟨hnode, ⟨?_, ?_, ?_⟩, ?_, ?_, fun x hx => h.avail x (htook.gone x hx).1⟩
  · refine pairwise_append.2 ⟨h.sound.apart, pairwise_singleton _ _, ?_⟩
    intro e he e' he'
    rw [mem_singleton.1 he']
    have htaken := h.taken e he
    cases e with
    | reserved addr size' =>
      rintro p ⟨hp, hp'⟩
      obtain ⟨x, h₁, h₂, rfl⟩ := hp'.byte hpos
      exact htaken x (htook.avail x h₁ h₂) hp
    | allocated ret' size' align' =>
      -- a byte in both would be available and taken
      have hpos' := h.positive ret' size' align' he
      show ret' + size' ≤ ret ∨ ret + size.toNat ≤ ret'
      by_contra hno
      rcases Nat.le_total ret ret' with hle | hle
      · exact htaken ret' (htook.avail ret' hle (by omega)) ⟨le_rfl, by omega⟩
      · exact htaken ret (htook.avail ret le_rfl (by omega)) ⟨hle, by omega⟩
  · intro ret' size' align' he
    rcases mem_append.1 he with he | he
    · exact h.sound.aligned ret' size' align' he
    · obtain ⟨rfl, rfl, rfl⟩ := Event.allocated.inj (mem_singleton.1 he)
      exact hret
  · intro ret' size' align' he p hp
    rcases mem_append.1 he with he | he
    · exact hsound.pages ret' size' align' he p hp
    · obtain ⟨rfl, rfl, rfl⟩ := Event.allocated.inj (mem_singleton.1 he)
      obtain ⟨x, h₁, h₂, rfl⟩ := hp.byte hpos
      have hx := htook.avail x h₁ h₂
      rw [hboot₀, hpfn]
      refine ⟨?_, ?_, h.avail x hx, htook.marked x h₁ h₂⟩
      · have := hx.1
        omega
      · have := hx.2.1
        omega
  · intro e he
    rcases mem_append.1 he with he | he
    · exact (h.taken e he).mono fun x hx => (htook.gone x hx).1
    · rw [mem_singleton.1 he]
      exact fun x hx => (htook.gone x hx).2
  · intro ret' size' align' he
    rcases mem_append.1 he with he | he
    · exact h.positive ret' size' align' he
    · obtain ⟨rfl, rfl, rfl⟩ := Event.allocated.inj (mem_singleton.1 he)
      exact hpos

/-! ## Runs -/

lemma freeAll_fields {ranges : List (UInt32 × UInt32)} (h : freeAll b ranges = some b') :
    b'.nodeBootStart = b.nodeBootStart ∧ b'.nodeLowPfn = b.nodeLowPfn ∧
      b'.lastOffset = b.lastOffset := by
  induction ranges generalizing b with
  | nil =>
    cases h
    exact ⟨rfl, rfl, rfl⟩
  | cons range ranges ih =>
    obtain ⟨b₁, hfree, hrest⟩ := Option.bind_eq_some_iff.1 h
    simp only [freeBootmemCore] at hfree
    split_ifs at hfree
    cases hfree
    have hfields := ih hrest
    exact hfields

/-- **The boot memory allocator.** On a node of pages `[start, stop)`, once RAM is registered, in
every run of regular calls the ranges handed out are disjoint, aligned, in pages that were free at
the beginning and not reserved since, and their pages are marked. -/
theorem ranges_apart_of_regular {memory : ℕ → Bool} {mapstart : ℕ}
    {ranges : List (UInt32 × UInt32)} {calls : List Call} (hnode : start < stop ∧ stop ≤ 2 ^ 20)
    (hfree : freeAll (initBootmemCore memory mapstart start stop) ranges = some b₀)
    (hrun : Exec step (fun b c => Aligned b c ∧ Regular b c) b₀ calls events b) :
    Sound b₀ b events := by
  obtain ⟨hboot₀, hstop₀, hoff₀⟩ := freeAll_fields hfree
  have hboot : b₀.nodeBootStart = 4096 * start := by
    rw [hboot₀]
    show word (start * 4096) = 4096 * start
    rw [word_of_lt (by omega), Nat.mul_comm]
  have hinv : RunInv start stop b₀ b events := by
    refine hrun.invariant (P := fun b events => RunInv start stop b₀ b events) ?_ ?_
    · have hpart : ¬ b₀.lastOffset ≠ 0 := not_not.2 hoff₀
      refine ⟨⟨hboot, hstop₀, hnode.1, hnode.2, ?_, fun h => absurd h hpart,
        fun h => absurd h hpart⟩, ⟨Pairwise.nil, by simp, by simp⟩, by simp, by simp, ?_⟩
      · rw [hoff₀]
        exact Nat.zero_lt_succ _
      · rintro x ⟨-, -, hclear | ⟨hne, -⟩⟩
        · exact hclear
        · exact absurd hne hpart
    · rintro b es c b' fs hinv ⟨haligned, hregular⟩ hstep
      cases c with
      | reserve addr size =>
        obtain ⟨b₁, hcall, heq⟩ := Option.map_eq_some_iff.1 hstep
        cases heq
        exact hinv.reserve hregular hcall
      | alloc size align goal =>
        obtain ⟨⟨b₁, ret⟩, hcall, heq⟩ := Option.map_eq_some_iff.1 hstep
        cases heq
        exact hinv.alloc hboot hstop₀ haligned hregular hcall
  exact hinv.sound

/-- A call for a node at address 0 that asks for 16 bytes of alignment, if any. -/
def sixteen (b : Bdata) : Call → Bool
  | .alloc _ align _ => b.nodeBootStart == 0 && align == 16
  | .reserve _ _ => true

lemma aligned_of_sixteen {b : Bdata} {c : Call} (h : sixteen b c) : Aligned b c := by
  cases c with
  | reserve => trivial
  | alloc size align goal =>
    obtain ⟨hboot, halign⟩ := Bool.and_eq_true_iff.1 h
    rw [eq_of_beq halign]
    exact ⟨⟨4, rfl⟩, eq_of_beq hboot ▸ Dvd.intro 0 rfl⟩

/-- The page of the map is reserved. Two allocations share a page, a page behind them is reserved,
and a third goes on behind that. -/
theorem ranges_apart_of_regular_shared_page :
    ∃ b₀ b events,
      freeAll (initBootmemCore (fun _ => false) 31 0 32) [(0, 0x20000)] = some b₀ ∧
      Exec step (fun b c => Aligned b c ∧ Regular b c) b₀ [.reserve 0x1f000 4, .alloc 100 16 0,
        .alloc 200 16 0, .reserve 0x1000 0x1000, .alloc 5000 16 0] events b ∧
      events = [.reserved 0x1f000 4, .allocated 0 100 16, .allocated 112 200 16,
        .reserved 0x1000 0x1000, .allocated 0x2000 5000 16] ∧ Sound b₀ b events := by
  have htest : ∀ b c, (sixteen b c && decide (Regular b c)) → Aligned b c ∧ Regular b c :=
    fun b c h => (Bool.and_eq_true_iff.1 h).imp aligned_of_sixteen of_decide_eq_true
  refine Exec.exists_of_start htest (fun _ events => events = [.reserved 0x1f000 4,
    .allocated 0 100 16, .allocated 112 200 16, .reserved 0x1000 0x1000,
    .allocated 0x2000 5000 16]) (by decide +kernel) ?_
  intro b₀ b events hfree hrun hevents
  exact ⟨hevents, ranges_apart_of_regular ⟨by decide, by decide⟩ hfree hrun⟩

/-- On a node of 32 free pages whose map lies in page 40, with clear memory behind it, 33 pages are
handed out: the last one is not a page of the node. -/
theorem alloc_beyond_node :
    ∃ b₀ b events,
      freeAll (initBootmemCore (fun _ => false) 40 0 32) [(0, 0x20000)] = some b₀ ∧
      Exec step Aligned b₀ [.alloc 0x21000 16 0] events b ∧
      events = [.allocated 0 0x21000 16] ∧ ¬ Sound b₀ b events := by
  refine Exec.exists_of_start (fun _ _ => aligned_of_sixteen)
    (fun _ events => events = [.allocated 0 0x21000 16])
    (by decide +kernel) fun b₀ b events hfree hrun hevents => ⟨hevents, fun hsound => ?_⟩
  obtain ⟨-, hstop, -⟩ := freeAll_fields hfree
  obtain ⟨-, hlt, -⟩ := hsound.pages 0 0x21000 16 (by simp [hevents]) 32 (by decide)
  rw [hstop] at hlt
  exact absurd hlt (by decide)

end PsxLinux.Bootmem
