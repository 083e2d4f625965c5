import PsxLinux.Lib.Exec
import PsxLinux.Lib.RingBuffer

/-!
# The kernel log

`printk` formats its text into a shared buffer three bytes in, puts a level in front of every line
that has none by writing over the three bytes before it, and logs the bytes one by one into a ring
that overwrites what nobody has read. All of it happens under `console_lock` and is one step. A read
of the log (`do_syslog` with type 2) takes the lock for one byte at a time, so that other calls come
between its bytes. `default_message_loglevel`, which sysctl can set, keeps its first value.
-/

namespace PsxLinux.Printk

open Lib Function

abbrev Byte := UInt8

def logBufLen : ℕ := 16384

def word (x : ℕ) : ℕ := x % 2 ^ 32

def defaultMessageLoglevel : UInt8 := 4

def newline : Byte := 10

/-- A read in progress: the length asked for and the bytes it has stored so far. -/
structure Call where
  len : ℕ
  got : List Byte

structure Sys where
  buf : ℕ → Byte
  logBuf : ℕ → Byte
  logStart : ℕ
  logSize : ℕ
  msgLevel : ℤ
  calls : ℕ → Option Call

/-- `vsprintf(buf + 3, ..)`: the text and the zero byte behind it. -/
def sprintf (buf : ℕ → Byte) (text : List Byte) : ℕ → Byte :=
  RingBuffer.writeAt buf 3 (text ++ [0])

/-- `log_buf` with one byte stored behind the unread ones. -/
def Sys.stored (s : Sys) (c : Byte) : ℕ → Byte :=
  update s.logBuf (word (s.logStart + s.logSize) % logBufLen) c

/-- One byte goes into the ring. -/
def logChar (s : Sys) (c : Byte) : Sys :=
  if s.logSize < logBufLen then { s with logBuf := s.stored c, logSize := s.logSize + 1 }
  else { s with logBuf := s.stored c, logStart := word (s.logStart + 1) }

/-- The inner loop over the `n` bytes from `p` on, up to a line feed: the state, where it stopped, and
`line_feed`. -/
def logLine (s : Sys) (p : ℕ) : ℕ → Sys × ℕ × Bool
  | 0 => (s, p, false)
  | n + 1 =>
    if s.buf p = newline then (logChar s (s.buf p), p, true)
    else logLine (logChar s (s.buf p)) (p + 1) n

/-- `p[0] != '<' || p[1] < '0' || p[1] > '7' || p[2] != '>'` -/
def lacksLevel (buf : ℕ → Byte) (p : ℕ) : Bool :=
  buf p ≠ 60 || buf (p + 1) < 48 || buf (p + 1) > 55 || buf (p + 2) ≠ 62

/-- The start of a pass of the outer loop: at the start of a line a level is put in front, or read. -/
def startLine (s : Sys) (p : ℕ) : Sys × ℕ :=
  if s.msgLevel < 0 then
    if lacksLevel s.buf p then
      ({ s with buf := RingBuffer.writeAt s.buf (p - 3) [60, defaultMessageLoglevel + 48, 62],
                msgLevel := (defaultMessageLoglevel.toNat : ℤ) }, p - 3)
    else ({ s with msgLevel := (s.buf (p + 1)).toNat - 48 }, p)
  else (s, p)

/-- The outer loop from `p` on, for at most `fuel` passes. -/
def logLines (bufEnd : ℕ) : ℕ → Sys → ℕ → Sys
  | 0, s, _ => s
  | fuel + 1, s, p =>
    if p < bufEnd then
      let r := startLine s p
      let l := logLine r.1 r.2 (bufEnd - r.2)
      logLines bufEnd fuel (if l.2.2 then { l.1 with msgLevel := -1 } else l.1) (l.2.1 + 1)
    else s

def printk (s : Sys) (text : List Byte) : Sys :=
  logLines (3 + text.length) text.length { s with buf := sprintf s.buf text } 3

inductive Event
  | fetched (id : ℕ) (c : Byte)
  | returned (id : ℕ) (bytes : List Byte)
  deriving DecidableEq

inductive Act
  | printk (text : List Byte)
  | startRead (id len : ℕ)
  | fetch (id : ℕ)
  | finishRead (id : ℕ)
  deriving DecidableEq

/-- One step: a `printk`, the start of a read once there is something to read, one byte of a read, or
its return. -/
def step (s : Sys) : Act → Option (Sys × List Event)
  | .printk text => some (printk s text, [])
  | .startRead id len =>
    if s.calls id = none ∧ 0 < len ∧ s.logSize ≠ 0 then
      some ({ s with calls := update s.calls id (some ⟨len, []⟩) }, [])
    else none
  | .fetch id =>
    match s.calls id with
    | some call =>
      if s.logSize ≠ 0 ∧ call.got.length < call.len then
        let c := s.logBuf (s.logStart % logBufLen)
        some ({ s with logStart := word (s.logStart + 1), logSize := s.logSize - 1,
                       calls := update s.calls id
                         (some { call with got := call.got ++ [c] }) }, [.fetched id c])
      else none
    | none => none
  | .finishRead id =>
    match s.calls id with
    | some call =>
      if s.logSize ≠ 0 ∧ call.got.length < call.len then none
      else some ({ s with calls := update s.calls id none }, [.returned id call.got])
    | none => none

/-- Before the first `printk`. -/
def initial (buf logBuf : ℕ → Byte) : Sys :=
  { buf := buf, logBuf := logBuf, logStart := 0, logSize := 0, msgLevel := -1,
    calls := fun _ => none }

/-- The formatted text fits the buffer. -/
def Act.Fits : Act → Prop
  | .printk text => text.length < 1020
  | _ => True

instance (a : Act) : Decidable a.Fits :=
  match a with
  | .printk text => inferInstanceAs (Decidable (text.length < 1020))
  | .startRead .. | .fetch _ | .finishRead _ => inferInstanceAs (Decidable True)

/-! ## The stream -/

/-- A level prefix: a digit from 0 to 7 in angle brackets. -/
def hasLevel : List Byte → Bool
  | a :: b :: c :: _ => a = 60 && 48 ≤ b && b ≤ 55 && c = 62
  | _ => false

/-- What stands in front of a line without a level. -/
def levelPrefix : List Byte := [60, 52, 62]

/-- The text of one call in the stream, from a line start or from the middle of a line. -/
def streamOf : Bool → List Byte → List Byte
  | _, [] => []
  | lineStart, c :: text =>
    (if lineStart ∧ ¬ hasLevel (c :: text) then levelPrefix else []) ++
      c :: streamOf (c = newline) text

/-- Whether the line is over after a text. -/
def atLineStart : Bool → List Byte → Bool
  | lineStart, [] => lineStart
  | _, c :: text => atLineStart (c = newline) text

/-- The stream of the calls so far, and whether it ends at a line start. -/
structure Stream where
  bytes : List Byte
  lineStart : Bool

def Stream.follow (st : Stream) : Act → Stream
  | .printk text => ⟨st.bytes ++ streamOf st.lineStart text, atLineStart st.lineStart text⟩
  | _ => st

/-- The log stream of the actions of a run. -/
def stream (as : List Act) : Stream := as.foldl Stream.follow ⟨[], true⟩

def Sys.unread (s : Sys) : List Byte := RingBuffer.contents logBufLen s.logBuf s.logStart s.logSize

/-- The bytes that the reads have taken, in order. -/
def fetchedBytes (es : List Event) : List Byte :=
  es.filterMap fun
    | .fetched _ c => some c
    | .returned _ _ => none

/-- The bytes that one reader has taken. -/
def fetchedBy (id : ℕ) (es : List Event) : List Byte :=
  es.filterMap fun
    | .fetched i c => if i = id then some c else none
    | .returned _ _ => none

/-- The bytes that the finished reads of one reader have returned, one read after the other. -/
def returnedBy (id : ℕ) (es : List Event) : List Byte :=
  es.flatMap fun
    | .fetched _ _ => []
    | .returned i bytes => if i = id then bytes else []

def Sys.pending (s : Sys) (id : ℕ) : List Byte := ((s.calls id).map Call.got).getD []

/-- `got` is a subsequence of the first `n` bytes of the stream, and each byte it leaves out is
`skipped`. -/
def Delivers (str : List Byte) (n : ℕ) (got : List Byte) (skipped : ℕ → Prop) : Prop :=
  ∃ idx : List ℕ, idx.Pairwise (· < ·) ∧ (∀ i ∈ idx, i < n) ∧
    idx.map (fun i => str[i]?) = got.map some ∧ ∀ j < n, j ∉ idx → skipped j

/-- A call found the byte at place `j` of the stream unread, or wrote it, and went on until `k` bytes or
more stood behind it. -/
def Overrun (k : ℕ) (s₀ : Sys) (as : List Act) (j : ℕ) : Prop :=
  ∃ as₁ text as₂ es₁ s₁, as = as₁ ++ .printk text :: as₂ ∧
    Exec step (fun _ a => a.Fits) s₀ as₁ es₁ s₁ ∧
    (stream as₁).bytes.length - s₁.logSize ≤ j ∧
    k ≤ (stream (as₁ ++ [.printk text])).bytes.length - 1 - j

end PsxLinux.Printk
