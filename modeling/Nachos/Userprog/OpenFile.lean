import Mathlib

/-!
# Files

`class OpenFile` (`filesys/openfile.h`) over a UNIX file. `ReadAt` leaves the bytes of its buffer
alone that lie past the end of the file.

* `readAt_writeAt_self`: a file reads back what was written.
* `readAt_writeAt_of_disjoint`: a write leaves the bytes elsewhere alone.
-/

namespace Nachos.Userprog

/-- The bytes of a UNIX file. -/
structure File where
  size : ℕ
  byte : ℕ → UInt8

namespace File

/-- The file that `Create` makes. -/
def empty : File := ⟨0, fun _ => 0⟩

/-- `ReadAt(into, n, position)` (openfile.h:34). -/
def readAt {n : ℕ} (f : File) (into : Fin n → UInt8) (position : ℕ) : Fin n → UInt8 :=
  fun k => if position + k < f.size then f.byte (position + k) else into k

/-- `WriteAt(from, n, position)` (openfile.h:38). A gap is filled with zeros. -/
def writeAt {n : ℕ} (f : File) (bytes : Fin n → UInt8) (position : ℕ) : File where
  size := max f.size (position + n)
  byte i :=
    if h : position ≤ i ∧ i < position + n then bytes ⟨i - position, by omega⟩
    else if i < f.size then f.byte i
    else 0

/-- An `int` at the position, on a host with the byte order of the file. -/
def int (f : File) (position : ℕ) : ℤ :=
  (BitVec.ofNat 32 (((f.byte (position + 3)).toNat * 256 + (f.byte (position + 2)).toNat) * 65536 +
    ((f.byte (position + 1)).toNat * 256 + (f.byte position).toNat))).toInt

/-- A file of `int`s. -/
def ofInts (l : List ℕ) : File where
  size := 4 * l.length
  byte i := UInt8.ofNat ((l[i / 4]?).getD 0 / 256 ^ (i % 4))

variable {n m : ℕ} {f : File} {bytes : Fin n → UInt8} {p q : ℕ}

theorem readAt_of_lt {into : Fin n → UInt8} {k : Fin n} (h : p + k < f.size) :
    f.readAt into p k = f.byte (p + k) := if_pos h

theorem readAt_of_le {into : Fin n → UInt8} {k : Fin n} (h : f.size ≤ p + k) :
    f.readAt into p k = into k := if_neg (by omega)

/-- **A file reads back what was written.** -/
theorem readAt_writeAt_self (into : Fin n → UInt8) : (f.writeAt bytes p).readAt into p = bytes := by
  funext k
  have hk : p + k < (f.writeAt bytes p).size := by
    show p + k < max f.size (p + n)
    omega
  rw [readAt_of_lt hk]
  unfold writeAt
  simp

/-- The write leaves alone what a read gets elsewhere, if that was inside the file. -/
theorem readAt_writeAt_of_disjoint {into : Fin m → UInt8} (hin : q + m ≤ f.size)
    (h : q + m ≤ p ∨ p + n ≤ q) : (f.writeAt bytes p).readAt into q = f.readAt into q := by
  funext k
  have hk := k.isLt
  have hlt : q + k < (f.writeAt bytes p).size := by
    show q + k < max f.size (p + n)
    omega
  rw [readAt_of_lt hlt, readAt_of_lt (by omega)]
  unfold writeAt
  simp only
  rw [dif_neg (by omega), if_pos (by omega)]

theorem le_size_writeAt : f.size ≤ (f.writeAt bytes p).size := le_max_left _ _

theorem add_le_size_writeAt : p + n ≤ (f.writeAt bytes p).size := le_max_right _ _

end File

end Nachos.Userprog
