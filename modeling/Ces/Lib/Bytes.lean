import Mathlib.Data.List.Basic
import Mathlib.Data.Nat.Notation

/-!
# Byte arrays of fixed size

`ByteArr n` is `std::array<uint8_t, n>`. `ByteArr.ofList` copies a byte string into an array,
truncating or zero-padding it, which is what every `memcpy` between fixed layouts amounts to.
-/

namespace Ces.Lib

/-- Bytes on the wire or in memory. -/
abbrev Bytes := List UInt8

/-- An array of exactly `n` bytes. -/
structure ByteArr (n : Nat) where
  bytes : Bytes
  size_eq : bytes.length = n
  deriving DecidableEq

namespace ByteArr

variable {n : Nat}

@[ext] theorem ext {a b : ByteArr n} (h : a.bytes = b.bytes) : a = b := by
  cases a
  cases b
  congr

/-- Copy a byte string into an array of size `n`. -/
def ofList (n : Nat) (l : Bytes) : ByteArr n :=
  ⟨(l ++ List.replicate n 0).take n, by simp⟩

/-- The array of zeros, the value-initialised array. -/
def zero (n : Nat) : ByteArr n := ⟨List.replicate n 0, List.length_replicate⟩

/-- The `len` bytes starting at `off`. -/
def slice (a : ByteArr n) (off len : Nat) : ByteArr len := ofList len (a.bytes.drop off)

/-- Overwrite the bytes starting at `off` by `src`. -/
def patch (a : ByteArr n) (off : Nat) (src : Bytes) : ByteArr n :=
  ofList n (a.bytes.take off ++ src ++ a.bytes.drop (off + src.length))

theorem ofList_bytes {l : Bytes} (h : l.length = n) : (ofList n l).bytes = l := by
  simp [ofList, ← h]

end ByteArr

/-- Big-endian value of a byte string. -/
def beNat (l : Bytes) : Nat := l.foldl (fun acc b => 256 * acc + b.toNat) 0

/-- Little-endian value of a byte string. -/
def leNat (l : Bytes) : Nat := l.foldr (fun b acc => b.toNat + 256 * acc) 0

/-- The `k` little-endian bytes of a number. -/
def leBytes : Nat → Nat → Bytes
  | 0, _ => []
  | k + 1, v => UInt8.ofNat (v % 256) :: leBytes k (v / 256)

theorem leBytes_length (k v : Nat) : (leBytes k v).length = k := by
  induction k generalizing v with
  | zero => rfl
  | succ k ih => simp [leBytes, ih]

/-- The `k` big-endian bytes of a number. -/
def beBytes (k v : Nat) : Bytes := (leBytes k v).reverse

@[simp] theorem beBytes_length (k v : Nat) : (beBytes k v).length = k := by
  rw [beBytes, List.length_reverse, leBytes_length]

theorem beNat_reverse (l : Bytes) : beNat l.reverse = leNat l := by
  unfold beNat leNat
  rw [List.foldl_reverse]
  congr 1
  funext b acc
  exact Nat.add_comm _ _

end Ces.Lib
