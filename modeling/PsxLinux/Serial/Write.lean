import Mathlib.Data.Int.Notation
import Mathlib.Tactic.Common

/-!
# Writing to the serial port

`psxs_write` of `drivers/char/serial_psx.c` sends a buffer byte by byte through `psxs_xmit`, which asks
`sio_ready` (`arch/mipsnommu/ps/siocon.c`) before a byte and once more before the carriage return behind
a newline. Both answers may be a timeout. `psxs_xmit` always returns 1, so the byte that a timeout drops
is counted as written: the count is right exactly if no poll before a byte of the buffer times out
(`accounted_iff`).
-/

namespace PsxLinux.Serial

open List

abbrev Byte := UInt8

/-- What the reads of `SIO_STAT_REG` give, one after the other. -/
abbrev Reads := ℕ → UInt16

def sioRfw : UInt16 := 0x0001

def newline : Byte := 0x0a

/-- The loop of `sio_ready (SIO_RFW)`; `n` more reads that are not ready are waited out. -/
def pollLoop : ℕ → Reads → Bool × Reads
  | n, stat =>
    if stat 0 &&& sioRfw = sioRfw then (true, fun i => stat (i + 1))
    else match n with
      | 0 => (false, fun i => stat (i + 1))
      | n + 1 => pollLoop n fun i => stat (i + 1)

/-- `sio_ready (SIO_RFW)`: `cnt` counts to 9001 before the timeout. -/
def sioReady (stat : Reads) : Bool × Reads := pollLoop 9001 stat

/-- The reads to come, and the bytes that were written to `SIO_DATA_REG`. -/
structure Port where
  stat : Reads
  data : List Byte

/-- `psxs_xmit` with its result. -/
def psxsXmit (ch : Byte) (p : Port) : Port × ℤ :=
  let (ready, stat) := sioReady p.stat
  if !ready then ({ p with stat := stat }, 1)
  else
    let p : Port := ⟨stat, p.data ++ [ch]⟩
    if ch = newline then
      -- the result of the second poll is not used
      ({ stat := (sioReady p.stat).2, data := p.data ++ [0x0d] }, 1)
    else (p, 1)

/-- The loop of `psxs_write` over the bytes that are left, from `i` on. -/
def writeLoop : List Byte → ℕ → Port → ℕ × Port
  | [], i, p => (i, p)
  | ch :: rest, i, p =>
    let (p, ret) := psxsXmit ch p
    if ret = 0 then (i, p) else writeLoop rest (i + 1) p

/-- `psxs_write`; `verify_area` never fails on this port. -/
def psxsWrite (buf : ℕ → Byte) (count : ℤ) (p : Port) : ℕ × Port :=
  writeLoop ((range count.toNat).map buf) 0 p

/-! ## What the count should say -/

/-- The bytes on the line for a text. -/
def crlf (text : List Byte) : List Byte :=
  text.flatMap fun ch => if ch = newline then [ch, 0x0d] else [ch]

/-- The result is a number of bytes of the buffer, and these are what was sent. -/
def Accounted (buf : ℕ → Byte) (count : ℤ) (p : Port) : Prop :=
  (psxsWrite buf count p).1 ≤ count.toNat ∧
    (psxsWrite buf count p).2.data = p.data ++ crlf ((range (psxsWrite buf count p).1).map buf)

/-- The reads that are left after `n` polls. -/
def afterPolls (stat : Reads) : ℕ → Reads
  | 0 => stat
  | n + 1 => (sioReady (afterPolls stat n)).2

/-- The poll after `n` others times out. -/
def timesOut (stat : Reads) (n : ℕ) : Bool := !(sioReady (afterPolls stat n)).1

/-- How many polls there are before the byte `k` if none of those before the bytes times out. -/
def pollOf (text : List Byte) (k : ℕ) : ℕ := k + (text.take k).count newline

lemma afterPolls_add (stat : Reads) (m n : ℕ) :
    afterPolls (afterPolls stat m) n = afterPolls stat (m + n) := by
  induction n with
  | zero => rfl
  | succ n ih => rw [← Nat.add_assoc, afterPolls, afterPolls, ih]

lemma timesOut_afterPolls (stat : Reads) (m n : ℕ) :
    timesOut (afterPolls stat m) n = timesOut stat (m + n) := by
  rw [timesOut, timesOut, afterPolls_add]

/-! ## One byte -/

/-- A transmitter that is not ready in time loses the character. -/
lemma psxsXmit_of_timesOut {ch : Byte} {p : Port} (h : timesOut p.stat 0) :
    psxsXmit ch p = ({ p with stat := afterPolls p.stat 1 }, 1) := by
  simp only [timesOut, afterPolls] at h
  simp only [psxsXmit, h, if_true]
  rfl

/-- A transmitter that is ready sends the character. -/
lemma psxsXmit_of_ready {ch : Byte} {p : Port} (h : timesOut p.stat 0 = false) :
    psxsXmit ch p = (⟨afterPolls p.stat (pollOf [ch] 1), p.data ++ crlf [ch]⟩, 1) := by
  simp only [timesOut, afterPolls] at h
  simp only [psxsXmit, h, Bool.false_eq_true, if_false]
  by_cases hch : ch = newline
  · subst hch
    simp [crlf, pollOf, afterPolls]
  · simp [crlf, pollOf, afterPolls, hch]

/-! ## The loop -/

lemma writeLoop_cons (ch : Byte) (rest : List Byte) (i : ℕ) (p : Port) :
    writeLoop (ch :: rest) i p = writeLoop rest (i + 1) (psxsXmit ch p).1 := by
  cases h : timesOut p.stat 0 with
  | true =>
    rw [writeLoop, psxsXmit_of_timesOut h]
    rfl
  | false =>
    rw [writeLoop, psxsXmit_of_ready h]
    rfl

/-- The count that is returned is the length of the text. -/
lemma writeLoop_fst (text : List Byte) (i : ℕ) (p : Port) :
    (writeLoop text i p).1 = i + text.length := by
  induction text generalizing i p with
  | nil => rfl
  | cons ch rest ih => rw [writeLoop_cons, ih, length_cons, Nat.add_right_comm, Nat.add_assoc]

lemma length_data_writeLoop (text : List Byte) (i : ℕ) (p : Port) :
    (writeLoop text i p).2.data.length ≤ p.data.length + (crlf text).length := by
  induction text generalizing i p with
  | nil => simp [writeLoop]
  | cons ch rest ih =>
    have hone : (psxsXmit ch p).1.data.length ≤ p.data.length + (crlf [ch]).length := by
      cases h : timesOut p.stat 0 with
      | true =>
        rw [psxsXmit_of_timesOut h]
        exact Nat.le_add_right _ _
      | false =>
        rw [psxsXmit_of_ready h]
        exact Nat.le_of_eq (length_append ..)
    have hrest := ih (i + 1) (psxsXmit ch p).1
    have hsplit : (crlf (ch :: rest)).length = (crlf [ch]).length + (crlf rest).length := by
      simp [crlf]
    rw [writeLoop_cons]
    omega

/-- The whole text is sent exactly if no poll before one of its bytes times out. -/
lemma data_writeLoop_iff (text : List Byte) (i : ℕ) (p : Port) :
    (writeLoop text i p).2.data = p.data ++ crlf text ↔
      ∀ k < text.length, timesOut p.stat (pollOf text k) = false := by
  induction text generalizing i p with
  | nil => simp [writeLoop, crlf]
  | cons ch rest ih =>
    have hsplit : crlf (ch :: rest) = crlf [ch] ++ crlf rest := by simp [crlf]
    rw [writeLoop_cons, hsplit]
    cases h : timesOut p.stat 0 with
    | true =>
      -- the byte is dropped, and the rest cannot make up for it
      rw [psxsXmit_of_timesOut h]
      refine iff_of_false (fun heq => ?_) fun hall => ?_
      · have hle := length_data_writeLoop rest (i + 1) { p with stat := afterPolls p.stat 1 }
        have hpos : 0 < (crlf [ch]).length := by
          by_cases hch : ch = newline <;> simp [crlf, hch]
        rw [heq] at hle
        simp only [length_append] at hle
        omega
      · have hfirst := hall 0 (Nat.succ_pos _)
        rw [show pollOf (ch :: rest) 0 = 0 from rfl, h] at hfirst
        cases hfirst
    | false =>
      rw [psxsXmit_of_ready h, ← append_assoc, ih]
      have hpoll : ∀ k, pollOf (ch :: rest) (k + 1) = pollOf [ch] 1 + pollOf rest k := by
        intro k
        simp only [pollOf, take_succ_cons, take_zero, count_cons, count_nil]
        omega
      simp only [timesOut_afterPolls, ← hpoll]
      refine ⟨fun hall k hk => ?_, fun hall k hk => hall (k + 1) (Nat.succ_lt_succ hk)⟩
      cases k with
      | zero => exact h
      | succ k => exact hall k (Nat.lt_of_succ_lt_succ hk)

/-- **The count of a write.** It is right exactly if no poll before a byte of the buffer times out. -/
theorem accounted_iff (buf : ℕ → Byte) (count : ℤ) (p : Port) :
    Accounted buf count p ↔ ∀ k < count.toNat,
      timesOut p.stat (pollOf ((range count.toNat).map buf) k) = false := by
  have hcount : (psxsWrite buf count p).1 = count.toNat := by
    rw [psxsWrite, writeLoop_fst, length_map, length_range, Nat.zero_add]
  rw [Accounted, hcount, psxsWrite, data_writeLoop_iff, length_map, length_range]
  exact and_iff_right (Nat.le_refl _)

lemma pollLoop_never (n : ℕ) : (pollLoop n fun _ => 0).1 = false := by
  induction n with
  | zero => rfl
  | succ n ih => exact ih

/-- One byte to a port that is never ready: nothing is sent, and one byte is counted. -/
theorem dropped_byte_counted :
    (psxsWrite (fun _ => 0x41) 1 ⟨fun _ => 0, []⟩).1 = 1 ∧
      (psxsWrite (fun _ => 0x41) 1 ⟨fun _ => 0, []⟩).2.data = [] ∧
      ¬ Accounted (fun _ => 0x41) 1 ⟨fun _ => 0, []⟩ := by
  have hpoll : timesOut (fun _ => 0) 0 := by
    rw [timesOut, afterPolls, sioReady, pollLoop_never]
    rfl
  have hwrite : psxsWrite (fun _ => 0x41) 1 ⟨fun _ => 0, []⟩ =
      (1, ⟨afterPolls (fun _ => 0) 1, []⟩) := by
    show writeLoop [0x41] 0 ⟨fun _ => 0, []⟩ = _
    rw [writeLoop_cons, psxsXmit_of_timesOut (p := ⟨fun _ => 0, []⟩) hpoll]
    rfl
  rw [Accounted, hwrite]
  exact ⟨rfl, rfl, fun h => nomatch h.2⟩

end PsxLinux.Serial
