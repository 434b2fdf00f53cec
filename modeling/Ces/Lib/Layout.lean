import Mathlib.Tactic.Ring
import Ces.Lib.Bytes

/-!
# Layouts of byte arrays

What a patch of an array leaves of the fields around it, little-endian numbers read back, and masks of a packed
word.
-/

namespace Ces.Lib

namespace ByteArr

variable {n off len : Nat} {src : Bytes}

theorem bytes_patch (a : ByteArr n) (h : off + src.length ≤ n) :
    (a.patch off src).bytes = a.bytes.take off ++ src ++ a.bytes.drop (off + src.length) := by
  refine ofList_bytes ?_
  simp only [List.length_append, List.length_take, List.length_drop, a.size_eq]
  omega

theorem bytes_slice (a : ByteArr n) (h : off + len ≤ n) : (a.slice off len).bytes = (a.bytes.drop off).take len := by
  have hlen : len ≤ (a.bytes.drop off).length := by
    rw [List.length_drop, a.size_eq]
    omega
  exact List.take_append_of_le_length hlen

/-- A patch leaves the fields before it alone. -/
theorem slice_patch_of_le (a : ByteArr n) {o : Nat} (hbefore : o + len ≤ off) (h : off + src.length ≤ n) :
    (a.patch off src).slice o len = a.slice o len := by
  apply ext
  rw [bytes_slice _ (by omega), bytes_slice _ (by omega), bytes_patch a h]
  have hlen := a.size_eq
  apply List.ext_getElem?
  intro i
  by_cases hi : i < len
  · rw [List.getElem?_take_of_lt hi, List.getElem?_take_of_lt hi, List.getElem?_drop, List.getElem?_drop,
      List.append_assoc, List.getElem?_append_left (by rw [List.length_take]; omega),
      List.getElem?_take_of_lt (by omega)]
  · rw [List.getElem?_take_eq_none (by omega), List.getElem?_take_eq_none (by omega)]

/-- The patched field reads back. -/
theorem slice_patch_self (a : ByteArr n) (h : off + src.length ≤ n) :
    ((a.patch off src).slice off src.length).bytes = src := by
  have htake : (a.bytes.take off).length = off := by
    rw [List.length_take, a.size_eq]
    omega
  rw [bytes_slice _ h, bytes_patch a h, List.append_assoc, List.drop_append_of_le_length (by omega),
    List.drop_eq_nil_of_le (by omega), List.nil_append, List.take_left]

end ByteArr

theorem leNat_cons (b : UInt8) (rest : Bytes) : leNat (b :: rest) = b.toNat + 256 * leNat rest := rfl

theorem leNat_lt (bytes : Bytes) : leNat bytes < 256 ^ bytes.length := by
  induction bytes with
  | nil => exact Nat.one_pos
  | cons b rest ih =>
    have hb := b.toNat_lt
    rw [leNat_cons, List.length_cons, Nat.pow_succ]
    omega

theorem leBytes_leNat (bytes : Bytes) : leBytes bytes.length (leNat bytes) = bytes := by
  induction bytes with
  | nil => rfl
  | cons b rest ih =>
    have hb := b.toNat_lt
    have hlow : leNat (b :: rest) % 256 = b.toNat := by
      rw [leNat_cons]
      omega
    have hhigh : leNat (b :: rest) / 256 = leNat rest := by
      rw [leNat_cons]
      omega
    rw [List.length_cons, leBytes, hlow, hhigh, ih, UInt8.ofNat_toNat]

theorem leNat_leBytes (k v : Nat) : leNat (leBytes k v) = v % 256 ^ k := by
  induction k generalizing v with
  | zero => simp [leBytes, leNat, Nat.mod_one]
  | succ k ih =>
    have hbyte : (UInt8.ofNat (v % 256)).toNat = v % 256 := by
      rw [UInt8.toNat_ofNat']
      exact Nat.mod_eq_of_lt (Nat.mod_lt _ (by decide))
    have hcons : leNat (leBytes (k + 1) v) = (UInt8.ofNat (v % 256)).toNat + 256 * leNat (leBytes k (v / 256)) :=
      rfl
    rw [hcons, hbyte, ih, Nat.pow_succ', Nat.mod_mul]

theorem leBytes_inj {k v w : Nat} (hv : v < 256 ^ k) (hw : w < 256 ^ k) (h : leBytes k v = leBytes k w) : v = w := by
  have hsame := congrArg leNat h
  rwa [leNat_leBytes, leNat_leBytes, Nat.mod_eq_of_lt hv, Nat.mod_eq_of_lt hw] at hsame

theorem uint16_or_and (a b c : UInt16) : (a ||| b) &&& c = a &&& c ||| b &&& c := by
  apply UInt16.toBitVec_inj.mp
  rw [UInt16.toBitVec_and, UInt16.toBitVec_or, UInt16.toBitVec_or, UInt16.toBitVec_and, UInt16.toBitVec_and]
  ext i hi
  simp only [BitVec.getElem_and, BitVec.getElem_or, Bool.and_or_distrib_right]

end Ces.Lib
