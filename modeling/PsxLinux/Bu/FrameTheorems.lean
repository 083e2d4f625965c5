import PsxLinux.Bu.Frame
import Mathlib.Tactic.IntervalCases

/-!
# What one dispatch of the frame FSM can do

`Running bu` says where a transfer that has neither failed nor stopped can be: at a table
entry of its frame, with the byte counter that entry is reached with. `buRdRoutine_running`
is the one fact the driver proofs use about the FSM: from a running transfer the dispatch
never faults, and it fails, stops, or leaves a running transfer that is nearer to its end.
-/

namespace PsxLinux.Bu

/-- The dispatch index is an entry of the 27-entry table that is not `NULL`, and a data
handler is only reached with its counter inside the block. -/
def DispatchOk (state cnt : ℕ) : Prop :=
  (state ≤ 12 ∨ 16 ≤ state ∧ state ≤ 26) ∧ (state = 11 ∨ state = 22 → cnt < buBlkSize)

instance (state cnt : ℕ) : Decidable (DispatchOk state cnt) :=
  inferInstanceAs (Decidable (_ ∧ _))

/-- Positions inside a read frame. -/
def ReadPos (state cnt : ℕ) : Prop :=
  (state ≤ 10 ∧ cnt = 0) ∨ (state = 11 ∧ cnt < 128) ∨ (state = 12 ∧ cnt = 128)

/-- Positions inside a write frame. -/
def WritePos (state cnt : ℕ) : Prop :=
  (16 ≤ state ∧ state ≤ 21 ∧ cnt = 0) ∨ (state = 22 ∧ cnt < 128) ∨
    (23 ≤ state ∧ state ≤ 26 ∧ cnt = 128)

/-- A transfer that is under way. -/
structure Running (bu : BuT) : Prop where
  stop : bu.stop = false
  pos : ReadPos bu.state bu.cnt ∨ WritePos bu.state bu.cnt

variable {bu : BuT}

lemma Running.dispatchOk (h : Running bu) : DispatchOk bu.state bu.cnt := by
  obtain ⟨-, hr | hw⟩ := h
  · unfold ReadPos at hr; unfold DispatchOk buBlkSize; omega
  · unfold WritePos at hw; unfold DispatchOk buBlkSize; omega

/-- Dispatches left until the frame ends, if none of them fails. -/
def left (state cnt : ℕ) : ℕ :=
  if state ≤ 10 then 140 - state
  else if state = 11 then 129 - cnt
  else if state = 12 then 1
  else if state ≤ 21 then 154 - state
  else if state = 22 then 132 - cnt
  else 27 - state

/-- Bytes the data handlers have moved so far in this frame. -/
def movedSoFar (bu : BuT) : List UInt8 := bu.request.buffer.toList.take bu.cnt

/-! ## Initialisation -/

/-- A request to read or to write is accepted, no other. -/
lemma buSwInit_eq_some (bu : BuT) :
    (buSwInit bu).2 = some () ↔ bu.request.mode = modeR ∨ bu.request.mode = modeW := by
  unfold buSwInit
  simp only
  split_ifs with hr hw
  · simp [hr]
  · simp [hw]
  · simp [hr, hw]

@[simp] lemma buSwInit_request (bu : BuT) : (buSwInit bu).1.request = bu.request := by
  unfold buSwInit
  simp only
  split_ifs <;> rfl

@[simp] lemma buSwInit_cnt (bu : BuT) : (buSwInit bu).1.cnt = 0 := by
  unfold buSwInit
  simp only
  split_ifs <;> rfl

lemma buSwInit_state (bu : BuT) (h : (buSwInit bu).2 = some ()) :
    (buSwInit bu).1.state = if bu.request.mode = modeR then 0 else 16 := by
  rw [buSwInit_eq_some] at h
  unfold buSwInit
  simp only
  split_ifs with hr hw
  · rfl
  · rfl
  · exact absurd (h.resolve_left hr) hw

lemma running_buSwInit (bu : BuT) (h : (buSwInit bu).2 = some ()) : Running (buSwInit bu).1 := by
  have hstate := buSwInit_state bu h
  constructor
  · unfold buSwInit
    simp only
    split_ifs <;> rfl
  · rw [hstate, buSwInit_cnt]
    unfold ReadPos WritePos
    split_ifs <;> omega

/-! ## The handlers -/

/-- Entries that are neither a data handler nor the last one of their frame. -/
def PlainEntry (state : ℕ) : Prop :=
  state ≤ 10 ∨ 16 ≤ state ∧ state ≤ 21 ∨ 23 ≤ state ∧ state ≤ 25

/-- What such an entry sends. -/
def outAt (bu : BuT) : UInt8 :=
  match bu.state with
  | 0 | 16 => UInt8.ofNat (0x81 + bu.request.floor)
  | 1 | 17 => UInt8.ofNat bu.request.mode
  | 4 | 20 => hiByte bu.request.block
  | 5 | 21 => loByte bu.request.block
  | 23 => bu.cs
  | _ => 0

/-- The byte that such an entry goes on with, where it does not take any. -/
def expectsAt (bu : BuT) : Option UInt8 :=
  match bu.state with
  | 3 | 19 => some 0x5a
  | 4 | 8 | 20 => some 0x5d
  | 7 | 25 => some 0x5c
  | 9 => some (hiByte bu.request.block)
  | 10 => some (loByte bu.request.block)
  | _ => none

/-- What only the data handlers write. -/
structure Kept (bu bu' : BuT) : Prop where
  request : bu'.request = bu.request
  cnt : bu'.cnt = bu.cnt
  cs : bu'.cs = bu.cs

lemma buRdRoutine_of_handler {p : Port} {hd : Handler} {ans : Answer}
    (ht : buRdStates bu.state = some hd) (hh : hd bu p = .ok ans) :
    buRdRoutine bu p = .ok (match ans.status with
      | none => ans
      | some k => { ans with bu := { ans.bu with state := ans.bu.state + k } }) := by
  unfold buRdRoutine
  simp only [ht, hh]
  cases ans.status <;> rfl

/-- Most states send a byte and compare the answer. -/
lemma buRdStates_plain (p : Port) (h : PlainEntry bu.state) :
    ∃ hd ans, buRdStates bu.state = some hd ∧ hd bu p = .ok ans ∧ Kept bu ans.bu ∧
      ans.bu.state = bu.state ∧ ans.bu.stop = bu.stop ∧ ans.sent = [outAt bu] ∧ ans.moved = [] ∧
      ans.status = if (expectsAt bu).all (p.data 0 == ·) then some 1 else none := by
  obtain ⟨request, cs, cnt, state, stop, hwState, byte⟩ := bu
  rcases h with h | ⟨h₁, h₂⟩ | ⟨h₁, h₂⟩ <;> dsimp only at * <;> interval_cases state
  all_goals exact ⟨_, _, rfl, rfl, ⟨rfl, rfl, rfl⟩, rfl, rfl, rfl, rfl, rfl⟩

/-- A plain entry exchanges one byte and advances by one, or fails. -/
lemma buRdRoutine_plain (p : Port) (h : PlainEntry bu.state) :
    ∃ ans, buRdRoutine bu p = .ok ans ∧ Kept bu ans.bu ∧ ans.bu.stop = bu.stop ∧
      ans.sent = [outAt bu] ∧ ans.moved = [] ∧
      if (expectsAt bu).all (p.data 0 == ·) then ans.status = some 1 ∧ ans.bu.state = bu.state + 1
      else ans.status = none := by
  obtain ⟨hd, ans, ht, ha, hkept, hstate, hstop, hsent, hmoved, hstat⟩ := buRdStates_plain p h
  have hans := buRdRoutine_of_handler ht ha
  split_ifs at hstat ⊢
  · rw [hstat] at hans
    exact ⟨_, hans, { hkept with }, hstop, hsent, hmoved, rfl,
      congrArg (· + 1) hstate⟩
  · rw [hstat] at hans
    exact ⟨ans, hans, hkept, hstop, hsent, hmoved, hstat⟩

/-- The last entry exchanges one byte, waits, and stops the transfer with a second one; or it
fails. -/
lemma buRdRoutine_last (p : Port) (hl : bu.state = 12 ∨ bu.state = 26) :
    ∃ ans, buRdRoutine bu p = .ok ans ∧ Kept bu ans.bu ∧ ans.moved = [] ∧
      if bu.request.mode = modeR ∧ p.data 0 ≠ bu.cs ∨ waitStatus p.status 10002 0 = false then
        ans.sent = [0] ∧ ans.status = none ∧ ans.bu.stop = bu.stop
      else
        ans.sent = [0, 0] ∧ if p.data 1 = 0x47 then ans.status = some 1 ∧ ans.bu.stop
          else ans.status = none ∧ ans.bu.stop = bu.stop := by
  have ht : buRdStates bu.state = some buRdState12 := by
    rcases hl with hl | hl <;> rw [hl] <;> rfl
  simp only [buRdRoutine, ht, buRdState12]
  by_cases hcs : bu.request.mode = modeR ∧ p.data 0 ≠ bu.cs
  · simp only [if_pos hcs, if_pos (Or.inl hcs)]
    exact ⟨_, rfl, ⟨rfl, rfl, rfl⟩, rfl, rfl, rfl, rfl⟩
  by_cases hwait : waitStatus p.status 10002 0 = false
  · simp only [if_neg hcs, if_pos hwait, if_pos (Or.inr hwait)]
    exact ⟨_, rfl, ⟨rfl, rfl, rfl⟩, rfl, rfl, rfl, rfl⟩
  simp only [if_neg (not_or_intro hcs hwait)]
  split_ifs
  all_goals exact ⟨_, rfl, ⟨rfl, rfl, rfl⟩, rfl, rfl, rfl, rfl⟩

/-! ## Positions

Where a frame stands after a plain entry, and after a data entry. -/

/-- Such a state is followed by the next one. -/
lemma pos_plain {state cnt : ℕ} (hp : PlainEntry state)
    (hpos : ReadPos state cnt ∨ WritePos state cnt) :
    (ReadPos (state + 1) cnt ∨ WritePos (state + 1) cnt) ∧
      left (state + 1) cnt < left state cnt ∧
      (WritePos state cnt ↔ WritePos (state + 1) cnt) := by
  unfold PlainEntry at hp
  unfold ReadPos WritePos at *
  refine ⟨by omega, ?_, by omega⟩
  unfold left
  split_ifs <;> omega

def dataStatus (cnt : ℕ) : ℕ := if cnt + 1 = buBlkSize then 1 else 0

/-- A data state is left after 128 bytes. -/
lemma pos_data {state cnt : ℕ} (hs : state = 11 ∨ state = 22) (hcnt : cnt < 128) :
    (ReadPos (state + dataStatus cnt) (cnt + 1) ∨ WritePos (state + dataStatus cnt) (cnt + 1)) ∧
      left (state + dataStatus cnt) (cnt + 1) < left state cnt ∧
      (WritePos state cnt ↔ WritePos (state + dataStatus cnt) (cnt + 1)) := by
  unfold dataStatus buBlkSize
  by_cases hlast : cnt + 1 = 128
  · rw [if_pos hlast]
    unfold ReadPos WritePos left
    rcases hs with rfl | rfl <;> simp <;> omega
  · rw [if_neg hlast]
    unfold ReadPos WritePos left
    rcases hs with rfl | rfl <;> simp <;> omega

/-! ## The routine -/

/-- The parts of the request that no handler writes. -/
def SameFrame (r r' : BuRequest) : Prop :=
  r'.floor = r.floor ∧ r'.block = r.block ∧ r'.card = r.card ∧ r'.mode = r.mode

lemma SameFrame.refl (r : BuRequest) : SameFrame r r := ⟨rfl, rfl, rfl, rfl⟩

/-- What a dispatch that did not fail leaves behind. -/
structure Advanced (bu bu' : BuT) (moved : List UInt8) : Prop where
  frame : SameFrame bu.request bu'.request
  data : movedSoFar bu' = movedSoFar bu ++ moved
  write : WritePos bu.state bu.cnt → bu'.request.buffer = bu.request.buffer
  next : (bu'.stop ∧ bu'.cnt = 128) ∨
    (Running bu' ∧ left bu'.state bu'.cnt < left bu.state bu.cnt ∧
      (WritePos bu.state bu.cnt ↔ WritePos bu'.state bu'.cnt))

lemma Kept.frame {bu' : BuT} (h : Kept bu bu') :
    SameFrame bu.request bu'.request ∧ movedSoFar bu' = movedSoFar bu := by
  unfold movedSoFar
  rw [h.request, h.cnt]
  exact ⟨.refl _, rfl⟩

lemma take_succ_toList_set (v : Vector UInt8 128) (n : ℕ) (b : UInt8) (h : n < 128) :
    (v.set n b h).toList.take (n + 1) = v.toList.take n ++ [b] := by
  rw [List.take_add_one]
  congr 1
  · apply List.ext_getElem?
    intro i
    by_cases hi : i < n
    · simp only [List.getElem?_take_of_lt hi, Vector.getElem?_toList]
      exact Vector.getElem?_set_ne h (by omega)
    · simp only [List.getElem?_take_eq_none (Nat.le_of_not_lt hi)]
  · simp

lemma take_succ_toList (v : Vector UInt8 128) (n : ℕ) (h : n < 128) :
    v.toList.take (n + 1) = v.toList.take n ++ [v[n]] := by
  rw [List.take_add_one]
  simp

/-- What a data handler that moves `b` leaves. -/
structure Moves (bu : BuT) (b : UInt8) (ans : Answer) : Prop where
  frame : SameFrame bu.request ans.bu.request
  data : movedSoFar ans.bu = movedSoFar bu ++ [b]
  cs : ans.bu.cs = bu.cs ^^^ b
  cnt : ans.bu.cnt = bu.cnt + 1
  stop : ans.bu.stop = bu.stop
  state : ans.bu.state = bu.state + dataStatus bu.cnt
  moved : ans.moved = [b]
  status : ans.status = some (dataStatus bu.cnt)

/-- One byte is read into the buffer. -/
lemma buRdRoutine_rdData (p : Port) (hs : bu.state = 11) (hcnt : bu.cnt < 128) :
    ∃ ans, buRdRoutine bu p = .ok ans ∧ Moves bu (p.data 0) ans ∧ ans.sent = [0] := by
  have ht : buRdStates bu.state = some buRdData := by rw [hs]; rfl
  have ha : buRdData bu p = .ok _ := dif_pos hcnt
  exact ⟨_, buRdRoutine_of_handler ht ha, ⟨⟨rfl, rfl, rfl, rfl⟩, take_succ_toList_set _ _ _ hcnt,
    rfl, rfl, rfl, rfl, rfl, rfl⟩, rfl⟩

/-- One byte of the buffer is sent. -/
lemma buRdRoutine_wrData (p : Port) (hs : bu.state = 22) (hcnt : bu.cnt < 128) :
    ∃ ans, buRdRoutine bu p = .ok ans ∧ Moves bu bu.request.buffer[bu.cnt] ans ∧
      ans.sent = [bu.request.buffer[bu.cnt]] ∧ ans.bu.request = bu.request := by
  have ht : buRdStates bu.state = some buWrData := by rw [hs]; rfl
  have ha : buWrData bu p = .ok _ := dif_pos hcnt
  exact ⟨_, buRdRoutine_of_handler ht ha, ⟨⟨rfl, rfl, rfl, rfl⟩, take_succ_toList _ _ hcnt,
    rfl, rfl, rfl, rfl, rfl, rfl⟩, rfl, rfl⟩

lemma Moves.advanced {b : UInt8} {ans : Answer} (h : Moves bu b ans)
    (hs : bu.state = 11 ∨ bu.state = 22) (hcnt : bu.cnt < 128) (hstop : bu.stop = false)
    (hw : bu.state = 22 → ans.bu.request = bu.request) :
    (∃ k, ans.status = some k) ∧ Advanced bu ans.bu ans.moved := by
  have hnext := pos_data hs hcnt
  rw [← h.state, ← h.cnt] at hnext
  refine ⟨⟨_, h.status⟩, h.frame, by rw [h.data, h.moved], fun hpos => ?_,
    .inr ⟨⟨h.stop.trans hstop, hnext.1⟩, hnext.2⟩⟩
  rw [hw (by unfold WritePos at hpos; omega)]

/-- **One dispatch of a running transfer.** It never faults. It fails and leaves the frame
parameters as they were, or it advances the frame. -/
theorem buRdRoutine_running (p : Port) (h : Running bu) :
    ∃ ans, buRdRoutine bu p = .ok ans ∧
      ((ans.status = none ∧ ans.moved = [] ∧ ans.bu.request = bu.request ∧ ans.bu.stop = false) ∨
        (∃ k, ans.status = some k) ∧ Advanced bu ans.bu ans.moved) := by
  obtain ⟨hstop, hpos⟩ := h
  -- the table entry is plain, the last one of the frame, or a data handler
  have hcase : PlainEntry bu.state ∨ ((bu.state = 12 ∨ bu.state = 26) ∧ bu.cnt = 128) ∨
      (bu.state = 11 ∧ bu.cnt < 128) ∨ (bu.state = 22 ∧ bu.cnt < 128) := by
    unfold PlainEntry
    unfold ReadPos WritePos at hpos
    omega
  rcases hcase with hp | ⟨hl, hcnt⟩ | ⟨hs, hcnt⟩ | ⟨hs, hcnt⟩
  · obtain ⟨ans, hans, hkept, hsp, -, hm, hstat⟩ := buRdRoutine_plain p hp
    refine ⟨ans, hans, ?_⟩
    split_ifs at hstat
    · have hnext := pos_plain hp hpos
      rw [← hstat.2, ← hkept.cnt] at hnext
      refine .inr ⟨⟨1, hstat.1⟩, hkept.frame.1, by simp [hkept.frame.2, hm],
        fun _ => by rw [hkept.request], .inr ⟨⟨hsp.trans hstop, hnext.1⟩, ?_⟩⟩
      rw [← hkept.cnt]
      exact hnext.2
    · exact .inl ⟨hstat, hm, hkept.request, hsp.trans hstop⟩
  · obtain ⟨ans, hans, hkept, hm, hstat⟩ := buRdRoutine_last p hl
    refine ⟨ans, hans, ?_⟩
    split_ifs at hstat
    · exact .inl ⟨hstat.2.1, hm, hkept.request, hstat.2.2.trans hstop⟩
    · exact .inr ⟨⟨1, hstat.2.1⟩, hkept.frame.1, by simp [hkept.frame.2, hm],
        fun _ => by rw [hkept.request], .inl ⟨hstat.2.2, hkept.cnt.trans hcnt⟩⟩
    · exact .inl ⟨hstat.2.1, hm, hkept.request, hstat.2.2.trans hstop⟩
  · obtain ⟨ans, hans, hmoves, -⟩ := buRdRoutine_rdData p hs hcnt
    exact ⟨ans, hans, .inr (hmoves.advanced (.inl hs) hcnt hstop (by omega))⟩
  · obtain ⟨ans, hans, hmoves, -, hreq⟩ := buRdRoutine_wrData p hs hcnt
    exact ⟨ans, hans, .inr (hmoves.advanced (.inr hs) hcnt hstop fun _ => hreq)⟩

end PsxLinux.Bu
