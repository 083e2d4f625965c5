import PsxLinux.Printk.LogTheorems

/-!
# The log and its readers

In every run the ring holds the last bytes of the stream, and the readers take the stream in order,
except for bytes that were overwritten while nobody had read them.
-/

namespace PsxLinux.Printk

open Lib RingBuffer Function List

variable {s s' s₀ : Sys} {as : List Act} {es fs : List Event} {a : Act} {st : Stream}

/-- The log and the stream of the calls so far. -/
structure Logged (s : Sys) (st : Stream) : Prop where
  holds : Holds s st.bytes
  lineStart : decide (s.msgLevel < 0) = st.lineStart

/-- A call extends the stream, and the ring follows up to its size. -/
lemma Logged.printk (h : Logged s st) (text : List Byte) :
    Logged (printk s text) (st.follow (.printk text)) ∧
    (Printk.printk s text).logSize =
      min (s.logSize + (streamOf st.lineStart text).length) logBufLen ∧
    (Printk.printk s text).calls = s.calls := by
  obtain ⟨buf, level, heq, hlevel⟩ := printk_eq s text
  rw [h.lineStart] at heq hlevel
  obtain ⟨hall, hsize⟩ := h.holds.logAll (streamOf st.lineStart text)
  have hcalls := (logAll_buf s (streamOf st.lineStart text)).2.2
  rw [heq]
  exact ⟨⟨{ hall with }, hlevel⟩, hsize, hcalls⟩

variable {k : ℕ}

lemma unread_succ (h : s.logSize = k + 1) :
    s.unread = s.logBuf (s.logStart % logBufLen) ::
      contents logBufLen s.logBuf (word (s.logStart + 1)) k := by
  unfold Sys.unread
  rw [h, Nat.add_comm, contents_add, contents_word]
  rfl

/-- A reader takes the oldest byte. -/
lemma Holds.fetch {str : List Byte} (h : Holds s str) (hk : s.logSize = k + 1) :
    Holds { s with logStart := word (s.logStart + 1), logSize := k } str ∧
    str[str.length - s.logSize]? = some (s.logBuf (s.logStart % logBufLen)) := by
  obtain ⟨h₁, h₂, h₃⟩ := h
  rw [unread_succ hk] at h₃
  have hhead : str[str.length - s.logSize]? = some (s.logBuf (s.logStart % logBufLen)) := by
    rw [← head?_drop, ← h₃]
    rfl
  have hless : k ≤ s.logSize := by omega
  refine ⟨⟨hless.trans h₁, hless.trans h₂, ?_⟩, hhead⟩
  have htail := congrArg (drop 1) h₃
  rw [drop_drop] at htail
  rw [show str.length - k = str.length - s.logSize + 1 by omega, ← htail]
  rfl

/-! ## Steps -/

lemma fetchedBytes_append (es fs : List Event) :
    fetchedBytes (es ++ fs) = fetchedBytes es ++ fetchedBytes fs := filterMap_append

lemma Overrun.mono {j : ℕ} (h : Overrun k s₀ as j) (a : Act) : Overrun k s₀ (as ++ [a]) j := by
  obtain ⟨as₁, text, as₂, es₁, s₁, rfl, hrest⟩ := h
  exact ⟨as₁, text, as₂ ++ [a], es₁, s₁, by simp, hrest⟩

lemma stream_append (as : List Act) (a : Act) : stream (as ++ [a]) = (stream as).follow a := by
  unfold stream
  rw [foldl_append]
  rfl

/-- What the readers have taken, and what the ring has lost. -/
def Read (s₀ s : Sys) (as : List Act) (es : List Event) : Prop :=
  Delivers (stream as).bytes ((stream as).bytes.length - s.logSize) (fetchedBytes es)
    (Overrun logBufLen s₀ as)

/-- A step that fetches nothing. -/
lemma Read.keep (h : Read s₀ s as es) (hstream : stream (as ++ [a]) = stream as)
    (hsize : s'.logSize = s.logSize) (hfs : fetchedBytes fs = []) :
    Read s₀ s' (as ++ [a]) (es ++ fs) := by
  obtain ⟨idx, hmono, hlt, hget, hskip⟩ := h
  unfold Read
  rw [hstream, hsize, fetchedBytes_append, hfs, append_nil]
  exact ⟨idx, hmono, hlt, hget, fun j hj hmem => (hskip j hj hmem).mono a⟩

/-- A call may push unread bytes out of the ring, but only once the ring is full of later ones. -/
lemma Read.printk {text : List Byte} (hrun : Exec step (fun _ a => a.Fits) s₀ as es s)
    (h : Read s₀ s as es) (hlog : Logged s (stream as)) :
    Read s₀ (printk s text) (as ++ [.printk text]) es := by
  obtain ⟨idx, hmono, hlt, hget, hskip⟩ := h
  have hsize := (hlog.printk text).2.1
  have hbytes : (stream (as ++ [.printk text])).bytes =
      (stream as).bytes ++ streamOf (stream as).lineStart text := by
    rw [stream_append]
    rfl
  unfold Read
  rw [hbytes, length_append]
  refine ⟨idx, hmono, fun i hi => ?_, ?_, fun j hj hmem => ?_⟩
  · have := hlt i hi
    omega
  · rw [← hget]
    apply map_congr_left
    intro i hi
    have := hlt i hi
    exact getElem?_append_left (by omega)
  · by_cases hold : j < (stream as).bytes.length - s.logSize
    · exact (hskip j hold hmem).mono _
    · refine ⟨as, text, [], es, s, rfl, hrun, by omega, ?_⟩
      rw [hbytes, length_append]
      omega

/-- A step that fetches one byte. -/
lemma Read.fetch {id : ℕ} {c : Byte} (h : Read s₀ s as es) (hlog : Logged s (stream as))
    (hk : s.logSize = k + 1) (hsize : s'.logSize = k) (hstream : stream (as ++ [a]) = stream as)
    (hc : c = s.logBuf (s.logStart % logBufLen)) :
    Read s₀ s' (as ++ [a]) (es ++ [.fetched id c]) := by
  obtain ⟨idx, hmono, hlt, hget, hskip⟩ := h
  have hle := hlog.holds.size_le_length
  unfold Read
  rw [hstream, fetchedBytes_append]
  refine ⟨idx ++ [(stream as).bytes.length - s.logSize], ?_, fun i hi => ?_, ?_, fun j hj hmem => ?_⟩
  · rw [pairwise_append]
    refine ⟨hmono, pairwise_singleton _ _, fun i hi j hj => ?_⟩
    rw [mem_singleton] at hj
    rw [hj]
    exact hlt i hi
  · rw [mem_append, mem_singleton] at hi
    rcases hi with hi | hi
    · have := hlt i hi
      omega
    · omega
  · rw [map_append, map_append, hget, map_singleton, (hlog.holds.fetch hk).2, ← hc]
    rfl
  · rw [mem_append, mem_singleton, not_or] at hmem
    exact (hskip j (by omega) hmem.1).mono a

/-- The bytes of each reader. -/
def Returned (s : Sys) (es : List Event) : Prop :=
  ∀ id, returnedBy id es ++ s.pending id = fetchedBy id es

lemma fetchedBy_append (id : ℕ) (es fs : List Event) :
    fetchedBy id (es ++ fs) = fetchedBy id es ++ fetchedBy id fs := filterMap_append

lemma returnedBy_append (id : ℕ) (es fs : List Event) :
    returnedBy id (es ++ fs) = returnedBy id es ++ returnedBy id fs := flatMap_append

/-- What holds after a run. -/
structure Inv (s₀ s : Sys) (as : List Act) (es : List Event) : Prop where
  logged : Logged s (stream as)
  read : Read s₀ s as es
  returned : Returned s es

/-- **One step** keeps the invariant. -/
lemma Inv.step (hrun : Exec step (fun _ a => a.Fits) s₀ as es s) (h : Inv s₀ s as es)
    (hs : Printk.step s a = some (s', fs)) : Inv s₀ s' (as ++ [a]) (es ++ fs) := by
  obtain ⟨hlog, hread, hret⟩ := h
  cases a with
  | printk text =>
    cases hs
    rw [append_nil]
    refine ⟨?_, hread.printk hrun hlog, ?_⟩
    · rw [stream_append]
      exact (hlog.printk text).1
    · unfold Returned Sys.pending
      rw [(hlog.printk text).2.2]
      exact hret
  | startRead id len =>
    have hstream : stream (as ++ [.startRead id len]) = stream as := stream_append _ _
    simp only [Printk.step] at hs
    split_ifs at hs with hfree
    cases hs
    refine ⟨?_, hread.keep hstream rfl rfl, ?_⟩
    · rw [hstream]
      exact ⟨{ hlog.holds with }, hlog.lineStart⟩
    · intro i
      rw [append_nil, ← hret i]
      congr 1
      unfold Sys.pending
      by_cases hi : i = id
      · subst hi
        simp [hfree.1]
      · simp [update_of_ne hi]
  | fetch id =>
    have hstream : stream (as ++ [.fetch id]) = stream as := stream_append _ _
    simp only [Printk.step] at hs
    cases hcall : s.calls id with
    | none => simp [hcall] at hs
    | some call =>
      simp only [hcall] at hs
      split_ifs at hs with hmore
      cases hs
      obtain ⟨k, hk⟩ := Nat.exists_eq_succ_of_ne_zero hmore.1
      have hsize : s.logSize - 1 = k := by omega
      refine ⟨?_, hread.fetch hlog hk hsize hstream rfl, ?_⟩
      · rw [hstream, hsize]
        exact ⟨{ (hlog.holds.fetch hk).1 with }, hlog.lineStart⟩
      · intro i
        rw [returnedBy_append, fetchedBy_append, ← hret i]
        unfold Sys.pending
        by_cases hi : i = id
        · subst hi
          simp [hcall, returnedBy, fetchedBy]
        · simp [update_of_ne hi, returnedBy, fetchedBy, Ne.symm hi]
  | finishRead id =>
    have hstream : stream (as ++ [.finishRead id]) = stream as := stream_append _ _
    simp only [Printk.step] at hs
    cases hcall : s.calls id with
    | none => simp [hcall] at hs
    | some call =>
      simp only [hcall] at hs
      split_ifs at hs with hmore
      cases hs
      refine ⟨?_, hread.keep hstream rfl rfl, ?_⟩
      · rw [hstream]
        exact ⟨{ hlog.holds with }, hlog.lineStart⟩
      · intro i
        rw [returnedBy_append, fetchedBy_append, ← hret i]
        unfold Sys.pending
        by_cases hi : i = id
        · subst hi
          simp [hcall, returnedBy, fetchedBy]
        · simp [update_of_ne hi, returnedBy, fetchedBy, Ne.symm hi]

lemma logged_initial (buf logBuf : ℕ → Byte) : Logged (initial buf logBuf) (stream []) :=
  ⟨⟨Nat.zero_le _, Nat.zero_le _, rfl⟩, rfl⟩

lemma inv_run {buf logBuf : ℕ → Byte}
    (h : Exec step (fun _ a => a.Fits) (initial buf logBuf) as es s) :
    Inv (initial buf logBuf) s as es := by
  induction h with
  | refl =>
    refine ⟨logged_initial buf logBuf, ⟨[], Pairwise.nil, ?_, rfl, ?_⟩, fun _ => rfl⟩
    · intro i hi
      simp at hi
    · intro j hj
      exact absurd hj (Nat.not_lt_zero j)
  | tail hrun _ hs ih => exact ih.step hrun hs

/-- **The kernel log.** In every run of calls and reads the ring holds the last bytes of the stream.
The readers take the bytes of the stream in order, and one is left out only if at least `LOG_BUF_LEN`
bytes were written after it while it was unread. Each reader gets what its reads have taken. -/
theorem kernel_log {buf logBuf : ℕ → Byte}
    (h : Exec step (fun _ a => a.Fits) (initial buf logBuf) as es s) :
    s.logSize ≤ logBufLen ∧
    s.unread = (stream as).bytes.drop ((stream as).bytes.length - s.logSize) ∧
    Delivers (stream as).bytes ((stream as).bytes.length - s.logSize) (fetchedBytes es)
      (Overrun logBufLen (initial buf logBuf) as) ∧
    ∀ id, returnedBy id es ++ s.pending id = fetchedBy id es := by
  obtain ⟨hlog, hread, hret⟩ := inv_run h
  exact ⟨hlog.holds.size_le, hlog.holds.unread, hread, hret⟩

/-- Two lines, the first without a level, and a read of five bytes. -/
theorem kernel_log_two_lines : ∃ s es,
    Exec step (fun _ a => a.Fits) (initial (fun _ => 0) fun _ => 0)
      [.printk [97, 10], .printk [60, 49, 62, 98], .startRead 0 5, .fetch 0, .fetch 0, .fetch 0,
        .fetch 0, .fetch 0, .finishRead 0] es s ∧
    returnedBy 0 es = [60, 52, 62, 97, 10] ∧ s.unread = [60, 49, 62, 98] := by
  refine Exec.exists_of_decide (fun s es => returnedBy 0 es = [60, 52, 62, 97, 10] ∧ s.logSize = 4)
    (by decide +kernel) fun s es hrun ⟨hret, hsize⟩ => ⟨hret, ?_⟩
  obtain ⟨-, hunread, -⟩ := kernel_log hrun
  rw [hunread, hsize]
  decide +kernel

/-! ## A byte lost to exactly `LOG_BUF_LEN` later ones -/

/-- Calls of `printk` that no reader disturbs. -/
lemma exec_printk (h : Logged s st) (hsize : s.logSize = min st.bytes.length logBufLen)
    (texts : List (List Byte)) (hfit : ∀ text ∈ texts, text.length < 1020) :
    ∃ t, Exec step (fun _ a => a.Fits) s (texts.map .printk) [] t ∧
      t.logSize = min ((texts.map .printk).foldl Stream.follow st).bytes.length logBufLen := by
  induction texts generalizing s st with
  | nil => exact ⟨s, .refl s, hsize⟩
  | cons text texts ih =>
    obtain ⟨hlog, hsize', -⟩ := h.printk text
    have hfull : (printk s text).logSize =
        min (st.follow (.printk text)).bytes.length logBufLen := by
      simp only [Stream.follow, length_append]
      omega
    obtain ⟨t, hrun, ht⟩ := ih hlog hfull fun text' hmem => hfit text' (mem_cons_of_mem _ hmem)
    have hfirst : Exec step (fun _ a => a.Fits) s [.printk text] [] (printk s text) :=
      Exec.single (hfit text mem_cons_self) rfl
    exact ⟨t, hfirst.trans hrun, ht⟩

lemma follow_replicate (n : ℕ) (bytes : List Byte) :
    ((replicate n [97]).map Act.printk).foldl Stream.follow ⟨bytes, false⟩ =
      ⟨bytes ++ replicate n 97, false⟩ := by
  induction n generalizing bytes with
  | zero => simp
  | succ n ih =>
    rw [replicate_succ, map_cons, foldl_cons]
    have hone : Stream.follow ⟨bytes, false⟩ (.printk [97]) = ⟨bytes ++ [97], false⟩ := rfl
    rw [hone, ih, append_assoc]
    rfl

lemma length_stream_le (as₁ as₂ : List Act) :
    (stream as₁).bytes.length ≤ (stream (as₁ ++ as₂)).bytes.length := by
  induction as₂ generalizing as₁ with
  | nil => rw [append_nil]
  | cons a as₂ ih =>
    have hstep : (stream as₁).bytes.length ≤ (stream (as₁ ++ [a])).bytes.length := by
      rw [stream_append]
      cases a with
      | printk text => simp [Stream.follow]
      | _ => exact le_rfl
    have hrest := ih (as₁ ++ [a])
    rw [append_assoc] at hrest
    exact hstep.trans hrest

/-- A byte can be lost to `LOG_BUF_LEN` later ones; it does not take more than that. The ring is full
with the first byte of the stream overwritten, and nothing was written after that. -/
theorem overrun_without_surplus :
    ¬ ∀ as es s, Exec step (fun _ a => a.Fits) (initial (fun _ => 0) fun _ => 0) as es s →
      Delivers (stream as).bytes ((stream as).bytes.length - s.logSize) (fetchedBytes es)
        (Overrun (logBufLen + 1) (initial (fun _ => 0) fun _ => 0) as) := by
  intro hall
  obtain ⟨n, hn⟩ : ∃ n, logBufLen = n + 2 := ⟨16382, rfl⟩
  obtain ⟨t, hrun, hsize⟩ := exec_printk (logged_initial (fun _ => 0) fun _ => 0) rfl
    ([60, 52, 62] :: replicate n [97]) (by
      intro text hmem
      simp only [mem_cons, mem_replicate] at hmem
      rcases hmem with rfl | ⟨-, rfl⟩ <;> decide)
  have hlen : (stream (([60, 52, 62] :: replicate n [97]).map .printk)).bytes.length = n + 3 := by
    have hbytes := congrArg Stream.bytes (follow_replicate n [60, 52, 62])
    refine (congrArg length hbytes).trans ?_
    rw [length_append, length_replicate, Nat.add_comm]
    rfl
  obtain ⟨idx, -, -, hmap, hskip⟩ := hall _ _ _ hrun
  obtain rfl : idx = [] := map_eq_nil_iff.1 hmap
  -- the first byte was not read, and too few stand behind it
  obtain ⟨as₁, text, as₂, -, -, has, -, -, hmany⟩ := hskip 0 (by
    rw [hsize]
    omega) not_mem_nil
  have hle := length_stream_le (as₁ ++ [.printk text]) as₂
  rw [append_assoc, singleton_append, ← has] at hle
  omega

end PsxLinux.Printk
