import PsxLinux.Printk.Log

/-!
# What `printk` logs

`logAll` is the logging of a list of bytes. Two facts meet in the main theorem: a `printk` logs what
its text is in the stream (`printk_eq`), and a ring that overwrites its oldest bytes holds the last
bytes of what was logged (`Holds.logAll`).
-/

namespace PsxLinux.Printk

open Lib RingBuffer List

def logAll (s : Sys) (bytes : List Byte) : Sys := bytes.foldl logChar s

variable {s : Sys} {c : Byte} {bytes str text xs : List Byte} {p n : ℕ}

/-! ## The ring -/

lemma contents_word (buf : ℕ → Byte) (start len : ℕ) :
    contents logBufLen buf (word start) len = contents logBufLen buf start len := by
  rw [← contents_mod, ← @contents_mod _ _ start]
  congr 1
  exact Nat.mod_mod_of_dvd _ (by decide)

lemma stored_eq (s : Sys) (c : Byte) :
    s.stored c = Function.update s.logBuf ((s.logStart + s.logSize) % logBufLen) c := by
  unfold Sys.stored word
  rw [Nat.mod_mod_of_dvd _ (by decide)]

/-- A byte is added behind the unread ones. -/
lemma unread_logChar_of_lt (h : s.logSize < logBufLen) :
    (logChar s c).unread = s.unread ++ [c] := by
  unfold logChar Sys.unread
  rw [if_pos h, stored_eq]
  exact contents_update h c

/-- In a full ring the oldest byte is lost. -/
lemma unread_logChar_of_full (h : s.logSize = logBufLen) :
    (logChar s c).unread = s.unread.drop 1 ++ [c] := by
  have hnew : (logChar s c).unread =
      contents logBufLen (s.stored c) (s.logStart + 1) logBufLen := by
    unfold logChar Sys.unread
    rw [if_neg (by omega)]
    simp only [contents_word, h]
  rw [hnew, stored_eq, Sys.unread, h]
  exact contents_overwrite rfl c

/-- The ring holds the last bytes of the stream. -/
structure Holds (s : Sys) (str : List Byte) : Prop where
  size_le : s.logSize ≤ logBufLen
  size_le_length : s.logSize ≤ str.length
  unread : s.unread = str.drop (str.length - s.logSize)

lemma Holds.logChar (h : Holds s str) (c : Byte) : Holds (logChar s c) (str ++ [c]) ∧
    (Printk.logChar s c).logSize = min (s.logSize + 1) logBufLen := by
  obtain ⟨h₁, h₂, h₃⟩ := h
  by_cases hroom : s.logSize < logBufLen
  · have hsize : (Printk.logChar s c).logSize = s.logSize + 1 := by
      unfold Printk.logChar
      rw [if_pos hroom]
    refine ⟨⟨by omega, by rw [hsize]; simpa using h₂, ?_⟩, by omega⟩
    rw [unread_logChar_of_lt hroom, h₃, hsize, length_append, length_singleton,
      Nat.add_sub_add_right, drop_append_of_le_length (by omega)]
  · have hsize : (Printk.logChar s c).logSize = s.logSize := by
      unfold Printk.logChar
      rw [if_neg hroom]
    refine ⟨⟨by omega, by rw [hsize, length_append]; omega, ?_⟩, by omega⟩
    rw [unread_logChar_of_full (by omega), h₃, hsize, drop_drop, length_append,
      length_singleton, show str.length + 1 - s.logSize = str.length - s.logSize + 1 by omega,
      drop_append_of_le_length (by unfold logBufLen at hroom; omega)]

/-- The ring holds the end of what has been logged. -/
lemma Holds.logAll (h : Holds s str) (bytes : List Byte) : Holds (logAll s bytes) (str ++ bytes) ∧
    (Printk.logAll s bytes).logSize = min (s.logSize + bytes.length) logBufLen := by
  induction bytes generalizing s str with
  | nil =>
    rw [append_nil]
    exact ⟨h, by have := h.size_le; simp [Printk.logAll]; omega⟩
  | cons c bytes ih =>
    obtain ⟨hc, hsize⟩ := h.logChar c
    obtain ⟨hall, hsize'⟩ := ih hc
    rw [append_assoc] at hall
    refine ⟨hall, ?_⟩
    change (Printk.logAll (Printk.logChar s c) bytes).logSize = _
    rw [hsize', hsize, length_cons]
    omega

/-! ## One `printk` -/

lemma logAll_append (s : Sys) (xs ys : List Byte) : logAll s (xs ++ ys) = logAll (logAll s xs) ys :=
  foldl_append

lemma logAll_with (s : Sys) (buf : ℕ → Byte) (level : ℤ) (bytes : List Byte) :
    logAll { s with buf := buf, msgLevel := level } bytes =
      { logAll s bytes with buf := buf, msgLevel := level } := by
  induction bytes generalizing s with
  | nil => rfl
  | cons c bytes ih =>
    have hc : logChar { s with buf := buf, msgLevel := level } c =
        { logChar s c with buf := buf, msgLevel := level } := by
      unfold logChar
      split_ifs <;> rfl
    change logAll (logChar _ c) bytes = _
    rw [hc, ih]
    rfl

lemma logAll_buf (s : Sys) (bytes : List Byte) :
    (logAll s bytes).buf = s.buf ∧ (logAll s bytes).msgLevel = s.msgLevel ∧
    (logAll s bytes).calls = s.calls := by
  induction bytes generalizing s with
  | nil => exact ⟨rfl, rfl, rfl⟩
  | cons c bytes ih =>
    have hc : (logChar s c).buf = s.buf ∧ (logChar s c).msgLevel = s.msgLevel ∧
        (logChar s c).calls = s.calls := by
      unfold logChar
      split_ifs <;> exact ⟨rfl, rfl, rfl⟩
    have := ih (logChar s c)
    exact ⟨this.1.trans hc.1, this.2.1.trans hc.2.1, this.2.2.trans hc.2.2⟩

variable {buf : ℕ → Byte}

lemma slice_cons (h : slice buf p (n + 1) = c :: xs) : buf p = c ∧ slice buf (p + 1) n = xs := by
  rw [Nat.add_comm, slice_add] at h
  exact cons.inj h

/-- A part without a newline is logged as it is. -/
lemma logLine_none (hs : slice s.buf p xs.length = xs) (h : newline ∉ xs) :
    logLine s p xs.length = (logAll s xs, p + xs.length, false) := by
  induction xs generalizing s p with
  | nil => rfl
  | cons c xs ih =>
    obtain ⟨hc, hxs⟩ := slice_cons hs
    simp only [mem_cons, not_or] at h
    rw [length_cons, logLine, hc, if_neg (Ne.symm h.1), ih _ h.2]
    · simp [logAll, Nat.add_assoc, Nat.add_comm 1]
    · have hbuf : (logChar s c).buf = s.buf := (logAll_buf s [c]).1
      rw [hbuf]
      exact hxs

variable {pre rest : List Byte}

/-- A line ends at its newline. -/
lemma logLine_newline (hs : slice s.buf p (pre ++ newline :: rest).length = pre ++ newline :: rest)
    (h : newline ∉ pre) :
    logLine s p (pre ++ newline :: rest).length =
      (logAll s (pre ++ [newline]), p + pre.length, true) := by
  induction pre generalizing s p with
  | nil =>
    obtain ⟨hc, -⟩ := slice_cons hs
    rw [nil_append, length_cons, logLine, hc]
    rfl
  | cons c pre ih =>
    obtain ⟨hc, hxs⟩ := slice_cons hs
    simp only [mem_cons, not_or] at h
    have hbuf : (logChar s c).buf = s.buf := (logAll_buf s [c]).1
    rw [cons_append, length_cons, logLine, hc, if_neg (Ne.symm h.1),
      ih (by rw [hbuf]; exact hxs) h.2]
    simp [logAll, Nat.add_assoc, Nat.add_comm 1]

/-! ### The stream of a text, line by line -/

/-- A line start adds a level to a text that is not empty and has none. -/
lemma streamOf_true (h : text ≠ []) :
    streamOf true text = (if hasLevel text then [] else levelPrefix) ++ streamOf false text := by
  cases text with
  | nil => exact absurd rfl h
  | cons c text => cases hl : hasLevel (c :: text) <;> simp [streamOf, hl]

lemma streamOf_none (h : newline ∉ xs) : streamOf false xs = xs := by
  induction xs with
  | nil => rfl
  | cons c xs ih =>
    simp only [mem_cons, not_or] at h
    have hc : decide (c = newline) = false := decide_eq_false (Ne.symm h.1)
    simp [streamOf, hc, ih h.2]

lemma streamOf_newline (h : newline ∉ pre) :
    streamOf false (pre ++ newline :: rest) = pre ++ newline :: streamOf true rest := by
  induction pre with
  | nil => simp [streamOf]
  | cons c pre ih =>
    simp only [mem_cons, not_or] at h
    have hc : decide (c = newline) = false := decide_eq_false (Ne.symm h.1)
    simp [streamOf, hc, ih h.2]

lemma atLineStart_none {b : Bool} (h : newline ∉ xs) (hne : xs ≠ []) : atLineStart b xs = false := by
  induction xs generalizing b with
  | nil => exact absurd rfl hne
  | cons c xs ih =>
    simp only [mem_cons, not_or] at h
    have hc : decide (c = newline) = false := decide_eq_false (Ne.symm h.1)
    cases xs with
    | nil => simp [atLineStart, hc]
    | cons d xs =>
      rw [atLineStart]
      exact ih h.2 (by simp)

lemma atLineStart_newline {b : Bool} :
    atLineStart b (pre ++ newline :: rest) = atLineStart true rest := by
  induction pre generalizing b with
  | nil => simp [atLineStart]
  | cons c pre ih =>
    exact ih

/-! ### The loops -/

/-- What the outer loop has before it: the bytes `xs` from `p` on, and the zero byte behind them. -/
structure Ahead (buf : ℕ → Byte) (p bufEnd : ℕ) (xs : List Byte) : Prop where
  bufEnd_eq : bufEnd = p + xs.length
  bytes : slice buf p xs.length = xs
  zero : buf bufEnd = 0

variable {bufEnd : ℕ}

lemma Ahead.drop (h : Ahead buf p bufEnd (pre ++ xs)) : Ahead buf (p + pre.length) bufEnd xs := by
  obtain ⟨hend, hbytes, hzero⟩ := h
  refine ⟨?_, (slice_append _ hbytes).2, hzero⟩
  rw [hend, length_append, Nat.add_assoc]

lemma Ahead.tail (h : Ahead buf p bufEnd (c :: xs)) : Ahead buf (p + 1) bufEnd xs :=
  @Ahead.drop xs p buf [c] bufEnd h

/-- The test of the source looks past the end of a short text, and finds the zero byte there. -/
lemma lacksLevel_eq (h : Ahead buf p bufEnd xs) (hne : xs ≠ []) :
    lacksLevel buf p = !hasLevel xs := by
  obtain ⟨hend, hbytes, hzero⟩ := h
  rcases xs with _ | ⟨a, _ | ⟨b, _ | ⟨c, xs⟩⟩⟩
  · exact absurd rfl hne
  · have hb : buf (p + 1) = 0 := by rw [← hzero, hend]; rfl
    simp [lacksLevel, hasLevel, hb]
  · have hc : buf (p + 2) = 0 := by rw [← hzero, hend]; rfl
    simp [lacksLevel, hasLevel, hc]
  · obtain ⟨ha, hbytes⟩ := slice_cons hbytes
    obtain ⟨hb, hbytes⟩ := slice_cons hbytes
    obtain ⟨hc, -⟩ := slice_cons hbytes
    simp [lacksLevel, hasLevel, ha, hb, hc, ← UInt8.not_le]

/-- Three bytes stored in front of the bytes ahead are ahead too. -/
lemma Ahead.writeAt (h : Ahead buf p bufEnd xs) (hp : 3 ≤ p) :
    Ahead (writeAt buf (p - 3) levelPrefix) (p - 3) bufEnd (levelPrefix ++ xs) := by
  obtain ⟨hend, hbytes, hzero⟩ := h
  have hlen : levelPrefix.length = 3 := rfl
  have hplace : p - 3 + levelPrefix.length = p := by omega
  refine ⟨by rw [length_append]; omega, ?_, ?_⟩
  · have hrest : slice (RingBuffer.writeAt buf (p - 3) levelPrefix) p xs.length = xs := by
      conv_rhs => rw [← hbytes]
      apply map_congr_left
      intro i _
      exact writeAt_of_ge (by omega)
    rw [length_append, slice_add, hplace, hrest, slice_writeAt]
  · rw [writeAt_of_ge (by omega), hzero]

/-- The start of a pass puts `q` in front of the bytes ahead, as the stream has it. -/
lemma startLine_spec (h : Ahead s.buf p bufEnd xs) (hp : 3 ≤ p) (hne : xs ≠ []) :
    ∃ buf level q, startLine s p = ({ s with buf := buf, msgLevel := level }, p - q.length) ∧
      Ahead buf (p - q.length) bufEnd (q ++ xs) ∧ 0 ≤ level ∧ newline ∉ q ∧
      streamOf (decide (s.msgLevel < 0)) xs = q ++ streamOf false xs := by
  by_cases hlevel : s.msgLevel < 0
  · have hlacks := lacksLevel_eq h hne
    rw [decide_eq_true hlevel, streamOf_true hne]
    unfold startLine
    rw [if_pos hlevel]
    cases hl : hasLevel xs with
    | true =>
      rw [hl] at hlacks
      rw [if_neg (by simp [hlacks])]
      refine ⟨s.buf, _, [], rfl, h, ?_, by simp, by simp⟩
      -- the digit is at least '0'
      simp only [Bool.not_true, lacksLevel, Bool.or_eq_false_iff, decide_eq_false_iff_not] at hlacks
      have hdigit : (48 : Byte) ≤ s.buf (p + 1) := UInt8.not_lt.mp hlacks.1.1.2
      have hnat : 48 ≤ (s.buf (p + 1)).toNat := UInt8.le_iff_toNat_le.mp hdigit
      omega
    | false =>
      rw [hl, Bool.not_false] at hlacks
      rw [if_pos hlacks]
      refine ⟨_, _, levelPrefix, rfl, h.writeAt hp, ?_, by decide, by simp⟩
      exact Int.natCast_nonneg _
  · unfold startLine
    rw [if_neg hlevel, decide_eq_false hlevel]
    exact ⟨s.buf, s.msgLevel, [], rfl, h, not_lt.mp hlevel, by simp, rfl⟩

/-- The outer loop logs the stream of what is ahead, and leaves the level negative exactly at the
start of a line. -/
lemma logLines_eq {fuel : ℕ} (h : Ahead s.buf p bufEnd xs) (hp : 3 ≤ p) (hfuel : xs.length ≤ fuel) :
    ∃ buf level, logLines bufEnd fuel s p =
        { logAll s (streamOf (decide (s.msgLevel < 0)) xs) with buf := buf, msgLevel := level } ∧
      decide (level < 0) = atLineStart (decide (s.msgLevel < 0)) xs := by
  induction fuel generalizing s p xs with
  | zero =>
    have hnil : xs = [] := length_eq_zero_iff.mp (by omega)
    subst hnil
    exact ⟨s.buf, s.msgLevel, rfl, rfl⟩
  | succ fuel ih =>
    by_cases hne : xs = []
    · subst hne
      refine ⟨s.buf, s.msgLevel, ?_, rfl⟩
      rw [logLines, if_neg (by have := h.bufEnd_eq; simp at this; omega)]
      rfl
    have hpos : 0 < xs.length := length_pos_iff.mpr hne
    obtain ⟨buf, level, q, hstart, hahead, hlevel, hq, hstream⟩ := startLine_spec h hp hne
    have hleft : bufEnd - (p - q.length) = (q ++ xs).length := by
      have := hahead.bufEnd_eq
      omega
    have hlt : p < bufEnd := by
      have := h.bufEnd_eq
      omega
    have hstep : logLines bufEnd (fuel + 1) s p =
        (let l := logLine { s with buf := buf, msgLevel := level } (p - q.length) (q ++ xs).length
        logLines bufEnd fuel (if l.2.2 then { l.1 with msgLevel := -1 } else l.1) (l.2.1 + 1)) := by
      rw [logLines, if_pos hlt, hstart]
      simp only [hleft]
    rw [hstep, hstream]
    by_cases hmem : newline ∈ xs
    · obtain ⟨pre, rest, rfl, hpre⟩ := eq_append_cons_of_mem hmem
      have hqpre : newline ∉ q ++ pre := by
        rw [mem_append]
        exact not_or.mpr ⟨hq, hpre⟩
      rw [← append_assoc] at hahead
      rw [← append_assoc, logLine_newline hahead.bytes hqpre, logAll_with]
      -- the pass has logged one line; the rest starts a new one
      obtain ⟨buf', level', hrest, hstart'⟩ :=
        ih (s := { logAll s (q ++ pre ++ [newline]) with buf := buf, msgLevel := -1 })
          hahead.drop.tail (by rw [length_append]; omega)
          (by simp only [length_append, length_cons] at hfuel; omega)
      refine ⟨buf', level', ?_, ?_⟩
      · have hbytes : q ++ streamOf false (pre ++ newline :: rest) =
            q ++ pre ++ [newline] ++ streamOf true rest := by
          simp [streamOf_newline hpre]
        have hwith := logAll_with (logAll s (q ++ pre ++ [newline])) buf (-1) (streamOf true rest)
        rw [hbytes, logAll_append s _ (streamOf true rest)]
        refine hrest.trans ?_
        exact congrArg (fun t : Sys => { t with buf := buf', msgLevel := level' }) hwith
      · rw [hstart', atLineStart_newline]
        rfl
    · -- the line goes on in the next call
      have hnone : newline ∉ q ++ xs := by
        rw [mem_append]
        exact not_or.mpr ⟨hq, hmem⟩
      rw [logLine_none hahead.bytes hnone, logAll_with, streamOf_none hmem]
      refine ⟨buf, level, ?_, ?_⟩
      · change logLines bufEnd fuel { logAll s (q ++ xs) with buf := buf, msgLevel := level }
          (p - q.length + (q ++ xs).length + 1) = _
        cases fuel with
        | zero => rfl
        | succ fuel => rw [logLines, if_neg (by have := hahead.bufEnd_eq; omega)]
      · rw [atLineStart_none hmem hne]
        exact decide_eq_false (not_lt.mpr hlevel)

/-- **One call.** It logs what its text is in the stream. -/
theorem printk_eq (s : Sys) (text : List Byte) :
    ∃ buf level, printk s text =
        { logAll s (streamOf (decide (s.msgLevel < 0)) text) with buf := buf, msgLevel := level } ∧
      decide (level < 0) = atLineStart (decide (s.msgLevel < 0)) text := by
  have hahead : Ahead (sprintf s.buf text) 3 (3 + text.length) text := by
    unfold sprintf
    have hslice := @slice_writeAt _ 3 s.buf (text ++ [0])
    refine ⟨rfl, ?_, ?_⟩
    · exact (slice_append _ hslice).1
    · simp [RingBuffer.writeAt]
  obtain ⟨buf, level, heq, hstart⟩ :=
    logLines_eq (s := { s with buf := sprintf s.buf text }) hahead le_rfl le_rfl
  refine ⟨buf, level, heq.trans ?_, hstart⟩
  have hwith := logAll_with s (sprintf s.buf text) s.msgLevel (streamOf (decide (s.msgLevel < 0)) text)
  rw [hwith]

end PsxLinux.Printk
