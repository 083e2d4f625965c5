import Mathlib.Algebra.Order.Ring.Int
import Mathlib.Data.List.Basic

/-!
# Files that are written at positions

A file is a size and the bytes it holds; past its size it reads zero, as the gap that a
write beyond the end leaves does. Writes at arbitrary positions may overlap: after a list of
them each byte is the one of the last write that covers it (`File.byte_writes`).

Little-endian words are read with `File.u16` and `File.u32`; `File.u32_of_le32` reads back a
word that was written byte by byte.
-/

namespace PsxLinux.Lib

structure File where
  size : ℕ
  byte : ℕ → UInt8

namespace File

def empty : File := { size := 0, byte := fun _ => 0 }

/-- A block of bytes and where it goes. -/
structure Write where
  pos : ℕ
  len : ℕ
  src : ℕ → UInt8

def Write.covers (w : Write) (i : ℕ) : Bool := decide (w.pos ≤ i ∧ i < w.pos + w.len)

/-- Write one block. -/
def write (f : File) (w : Write) : File where
  size := max f.size (w.pos + w.len)
  byte := fun i => if w.covers i then w.src (i - w.pos) else f.byte i

def writes (f : File) (ws : List Write) : File := ws.foldl write f

/-- **The last write wins.** -/
theorem byte_writes (f : File) (ws : List Write) (i : ℕ) :
    (f.writes ws).byte i =
      match ws.reverse.find? fun w => w.covers i with
      | some w => w.src (i - w.pos)
      | none => f.byte i := by
  induction ws generalizing f with
  | nil => rfl
  | cons w ws ih =>
    show ((f.write w).writes ws).byte i = _
    rw [ih, List.reverse_cons, List.find?_append]
    cases ws.reverse.find? fun w => w.covers i with
    | some v => rfl
    | none =>
      show (f.write w).byte i = _
      by_cases hc : w.covers i
      · simp [write, hc]
      · simp [write, hc]

lemma size_writes (f : File) (ws : List Write) (h : ∀ w ∈ ws, w.pos + w.len ≤ f.size) :
    (f.writes ws).size = f.size := by
  induction ws generalizing f with
  | nil => rfl
  | cons w ws ih =>
    have hw : (f.write w).size = f.size := Nat.max_eq_left (h w List.mem_cons_self)
    show ((f.write w).writes ws).size = _
    rw [ih (f.write w), hw]
    intro v hv
    rw [hw]
    exact h v (List.mem_cons_of_mem _ hv)

/-! ## Little-endian words -/

def u16 (f : File) (off : ℕ) : UInt16 :=
  UInt16.ofNat ((f.byte off).toNat + 256 * (f.byte (off + 1)).toNat)

def u32 (f : File) (off : ℕ) : UInt32 :=
  UInt32.ofNat ((f.byte off).toNat + 256 * (f.byte (off + 1)).toNat +
    65536 * (f.byte (off + 2)).toNat + 16777216 * (f.byte (off + 3)).toNat)

end File

def le32 (x : UInt32) (i : ℕ) : UInt8 := UInt8.ofNat (x.toNat / 256 ^ i)

lemma File.u32_of_le32 {f : File} {off : ℕ} {x : UInt32}
    (h : ∀ i < 4, f.byte (off + i) = le32 x i) : f.u32 off = x := by
  have h0 : (f.byte off).toNat = x.toNat % 256 := by
    have := h 0 (by omega)
    rw [Nat.add_zero] at this
    simp [this, le32]
  have h1 : (f.byte (off + 1)).toNat = x.toNat / 256 % 256 := by
    simp [h 1 (by omega), le32]
  have h2 : (f.byte (off + 2)).toNat = x.toNat / 65536 % 256 := by
    simp [h 2 (by omega), le32]
  have h3 : (f.byte (off + 3)).toNat = x.toNat / 16777216 % 256 := by
    simp [h 3 (by omega), le32]
  have hx : x.toNat < 4294967296 := x.toNat_lt
  have hsum : x.toNat % 256 + 256 * (x.toNat / 256 % 256) + 65536 * (x.toNat / 65536 % 256) +
      16777216 * (x.toNat / 16777216 % 256) = x.toNat := by omega
  rw [File.u32, h0, h1, h2, h3, hsum, UInt32.ofNat_toNat]

end PsxLinux.Lib
