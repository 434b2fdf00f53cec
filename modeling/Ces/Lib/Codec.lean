import Mathlib.Logic.Equiv.Defs
import Ces.Lib.Layout

/-!
# Fields of fixed width

A `FixedCodec α` writes an `α` into `width` bytes and reads it back, and every string of that width is what some
value is written as. Records are pairs of fields (`pair`) under a change of names (`iso`). `take` reads a field off
a stream: it succeeds exactly on the streams that start with a written value (`take_eq_some`).
-/

namespace Ces.Lib

structure FixedCodec (α : Type) where
  width : Nat
  put : α → Bytes
  get : Bytes → α
  put_length : ∀ a, (put a).length = width
  get_put : ∀ a, get (put a) = a
  put_get : ∀ b : Bytes, b.length = width → put (get b) = b

namespace FixedCodec

variable {α β : Type}

/-- An array goes as it is. -/
def raw (n : Nat) : FixedCodec (ByteArr n) where
  width := n
  put := ByteArr.bytes
  get := ByteArr.ofList n
  put_length := ByteArr.size_eq
  get_put a := ByteArr.ext (ByteArr.ofList_bytes a.size_eq)
  put_get _ h := ByteArr.ofList_bytes h

@[simp] theorem raw_width (n : Nat) : (raw n).width = n := rfl

theorem beNat_beBytes {k v : Nat} (h : v < 256 ^ k) : beNat (beBytes k v) = v := by
  rw [beBytes, beNat_reverse, leNat_leBytes, Nat.mod_eq_of_lt h]

theorem beBytes_beNat {b : Bytes} {k : Nat} (h : b.length = k) : beBytes k (beNat b) = b := by
  have hsame := leBytes_leNat b.reverse
  rw [← beNat_reverse, List.reverse_reverse, List.length_reverse, h] at hsame
  rw [beBytes, hsame, List.reverse_reverse]

theorem beNat_lt {b : Bytes} {k : Nat} (h : b.length = k) : beNat b < 256 ^ k := by
  have hlt := leNat_lt b.reverse
  rwa [← beNat_reverse, List.reverse_reverse, List.length_reverse, h] at hlt

/-- A word of `k` bytes, the high byte first. -/
def bigEndian (k : Nat) (toNat : α → Nat) (ofNat : Nat → α) (hlt : ∀ a, toNat a < 256 ^ k)
    (hof : ∀ a, ofNat (toNat a) = a) (hto : ∀ n < 256 ^ k, toNat (ofNat n) = n) : FixedCodec α where
  width := k
  put a := beBytes k (toNat a)
  get b := ofNat (beNat b)
  put_length a := beBytes_length k (toNat a)
  get_put a := by rw [beNat_beBytes (hlt a), hof]
  put_get b h := by rw [hto _ (beNat_lt h), beBytes_beNat h]

def be8 : FixedCodec UInt8 :=
  bigEndian 1 UInt8.toNat UInt8.ofNat UInt8.toNat_lt (fun _ => UInt8.ofNat_toNat) fun _ => UInt8.toNat_ofNat_of_lt'

def be16 : FixedCodec UInt16 :=
  bigEndian 2 UInt16.toNat UInt16.ofNat UInt16.toNat_lt (fun _ => UInt16.ofNat_toNat) fun _ => UInt16.toNat_ofNat_of_lt'

def be32 : FixedCodec UInt32 :=
  bigEndian 4 UInt32.toNat UInt32.ofNat UInt32.toNat_lt (fun _ => UInt32.ofNat_toNat) fun _ => UInt32.toNat_ofNat_of_lt'

def be64 : FixedCodec UInt64 :=
  bigEndian 8 UInt64.toNat UInt64.ofNat UInt64.toNat_lt (fun _ => UInt64.ofNat_toNat) fun _ => UInt64.toNat_ofNat_of_lt'

/-- One field behind the other. -/
def pair (f : FixedCodec α) (g : FixedCodec β) : FixedCodec (α × β) where
  width := f.width + g.width
  put a := f.put a.1 ++ g.put a.2
  get b := (f.get (b.take f.width), g.get (b.drop f.width))
  put_length a := by rw [List.length_append, f.put_length, g.put_length]
  get_put a := by rw [← f.put_length a.1, List.take_left, List.drop_left, f.get_put, g.get_put]
  put_get b h := by
    rw [f.put_get _ (by rw [List.length_take]; omega), g.put_get _ (by rw [List.length_drop]; omega),
      List.take_append_drop]

/-- The same bytes, read as another type. -/
def iso (f : FixedCodec α) (e : α ≃ β) : FixedCodec β where
  width := f.width
  put b := f.put (e.symm b)
  get b := e (f.get b)
  put_length b := f.put_length (e.symm b)
  get_put b := by rw [f.get_put, e.apply_symm_apply]
  put_get b h := by rw [e.symm_apply_apply, f.put_get b h]

theorem put_injective (f : FixedCodec α) {a a' : α} (h : f.put a = f.put a') : a = a' := by
  rw [← f.get_put a, h, f.get_put]

/-- Read the field off the front of a stream; a short stream is refused. -/
def take (f : FixedCodec α) (b : Bytes) : Option (α × Bytes) :=
  if b.length < f.width then none else some (f.get (b.take f.width), b.drop f.width)

theorem take_eq_some {f : FixedCodec α} {b rest : Bytes} {a : α} : f.take b = some (a, rest) ↔ b = f.put a ++ rest := by
  unfold take
  constructor
  · intro h
    split_ifs at h with hshort
    obtain ⟨rfl, rfl⟩ : f.get (b.take f.width) = a ∧ b.drop f.width = rest := by simpa using h
    rw [f.put_get _ (by rw [List.length_take]; omega), List.take_append_drop]
  · rintro rfl
    have hlen := f.put_length a
    rw [if_neg (by rw [List.length_append]; omega), ← hlen, List.take_left, List.drop_left, f.get_put]

@[simp] theorem take_put (f : FixedCodec α) (a : α) (rest : Bytes) : f.take (f.put a ++ rest) = some (a, rest) :=
  take_eq_some.mpr rfl

end FixedCodec

end Ces.Lib
