import Mathlib.Data.List.Basic
import Mathlib.Data.List.Range

namespace TctiUefi

/-- The bytes a C pointer gives access to, numbered from the pointer on.  How many of
them belong to the object pointed to is a matter for the code that uses the pointer. -/
abbrev Buffer := Nat → UInt8

namespace Buffer

def bytes (b : Buffer) (n : Nat) : List UInt8 := (List.range n).map b

def copy (dst src : Buffer) (n : Nat) : Buffer := fun i => if i < n then src i else dst i

/-- `CopyMem (dst, bs, bs.length)`. -/
def write (b : Buffer) (bs : List UInt8) : Buffer := fun i => bs.getD i (b i)

@[simp] theorem length_bytes (b : Buffer) (n : Nat) : (b.bytes n).length = n := by simp [bytes]

theorem getElem_bytes (b : Buffer) {n i : Nat} (h : i < (b.bytes n).length) :
    (b.bytes n)[i] = b i := by simp [bytes]

theorem getElem?_bytes (b : Buffer) {n i : Nat} (h : i < n) : (b.bytes n)[i]? = some (b i) := by
  simp [bytes, h]

theorem bytes_inj {b c : Buffer} {n : Nat} : b.bytes n = c.bytes n ↔ ∀ i < n, b i = c i := by
  simp [bytes, List.map_inj_left]

theorem bytes_congr {b c : Buffer} {n : Nat} (h : ∀ i < n, b i = c i) : b.bytes n = c.bytes n :=
  bytes_inj.mpr h

theorem take_bytes (b : Buffer) {m n : Nat} (h : m ≤ n) : (b.bytes n).take m = b.bytes m := by
  simp [bytes, ← List.map_take, List.take_range, Nat.min_eq_left h]

theorem bytes_add (b : Buffer) (m n : Nat) :
    b.bytes (m + n) = b.bytes m ++ bytes (fun i => b (m + i)) n := by
  simp [bytes, List.range_add, Function.comp_def]

theorem copy_of_lt (dst src : Buffer) {n i : Nat} (h : i < n) : dst.copy src n i = src i := by
  simp [copy, h]

theorem copy_of_le (dst src : Buffer) {n i : Nat} (h : n ≤ i) : dst.copy src n i = dst i := by
  simp [copy, Nat.not_lt.mpr h]

theorem bytes_copy (dst src : Buffer) (n : Nat) : (dst.copy src n).bytes n = src.bytes n :=
  bytes_congr fun _ h => copy_of_lt dst src h

theorem write_of_lt (b : Buffer) {bs : List UInt8} {i : Nat} (h : i < bs.length) :
    b.write bs i = bs[i] := by
  rw [write, List.getD_eq_getElem?_getD, List.getElem?_eq_getElem h, Option.getD_some]

theorem bytes_write (b : Buffer) (bs : List UInt8) : (b.write bs).bytes bs.length = bs := by
  apply List.ext_getElem (length_bytes _ _)
  intro i hi hbs
  rw [getElem_bytes, write_of_lt b hbs]

theorem bytes_write_of_le (b : Buffer) {bs : List UInt8} {n : Nat} (h : bs.length ≤ n) :
    (b.write bs).bytes n = bs ++ (b.bytes n).drop bs.length := by
  apply List.ext_getElem
  · simp [h]
  · intro i hi _
    rw [length_bytes] at hi
    rw [getElem_bytes, List.getElem_append]
    split
    · rename_i hlt
      exact write_of_lt b hlt
    · rename_i hge
      rw [List.getElem_drop, getElem_bytes, Nat.add_sub_of_le (Nat.not_lt.mp hge)]
      simp [write, Nat.not_lt.mp hge]

theorem copy_eq_write (dst src : Buffer) (n : Nat) : dst.copy src n = dst.write (src.bytes n) := by
  funext i
  by_cases h : i < n
  · rw [copy_of_lt _ _ h, write, List.getD_eq_getElem?_getD, getElem?_bytes _ h, Option.getD_some]
  · simp [copy, write, h]

/-- The bits of the bytes, numbered from the least significant bit of the first byte on. -/
def hasBit (b : Buffer) (p : Nat) : Bool := (b (p / 8)).toBitVec.getLsbD (p % 8)

end Buffer

end TctiUefi
