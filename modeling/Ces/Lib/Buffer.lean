import Ces.Lib.Codec

/-!
# Fields in a buffer

A record is written to a buffer of a given size one field after another, and read back the same way. The first field
that the buffer does not hold stops the writer or the reader, which then counts up to the end of that field
(`fieldEnd`).

`Scan.Reads p fs a`: the reader `p` takes the fields `fs` off every buffer that starts with them and returns `a`,
and stops at the first missing field of every buffer that ends before they do. Readers compose (`Reads.bind`).
-/

namespace Ces.Lib

/-- The end of the first field that `n` bytes do not hold. -/
def fieldEnd : List Bytes → Nat → Nat
  | [], _ => 0
  | f :: fs, n => if n < f.length then f.length else f.length + fieldEnd fs (n - f.length)

/-- What stands in a buffer of the given size after the fields were written, and the bytes counted. -/
def writeFields : List Bytes → Nat → Bytes × Nat
  | [], _ => ([], 0)
  | f :: fs, size =>
    if size < f.length then ([], f.length)
    else (f ++ (writeFields fs (size - f.length)).1, f.length + (writeFields fs (size - f.length)).2)

variable {fs gs : List Bytes} {n size : Nat}

theorem fieldEnd_append_left (h : n < fs.flatten.length) : fieldEnd (fs ++ gs) n = fieldEnd fs n := by
  induction fs generalizing n with
  | nil => simp at h
  | cons f fs ih =>
    rw [List.flatten_cons, List.length_append] at h
    by_cases hf : n < f.length
    · simp [fieldEnd, hf]
    · simp [fieldEnd, hf, ih (n := n - f.length) (by omega)]

theorem fieldEnd_append_right (h : fs.flatten.length ≤ n) :
    fieldEnd (fs ++ gs) n = fs.flatten.length + fieldEnd gs (n - fs.flatten.length) := by
  induction fs generalizing n with
  | nil => simp
  | cons f fs ih =>
    rw [List.flatten_cons, List.length_append] at h ⊢
    have hrest := ih (n := n - f.length) (by omega)
    rw [List.cons_append, fieldEnd, if_neg (by omega), hrest, Nat.sub_sub, Nat.add_assoc]

/-- More than the buffer, and no more than the whole. -/
theorem fieldEnd_bounds (h : n < fs.flatten.length) : n < fieldEnd fs n ∧ fieldEnd fs n ≤ fs.flatten.length := by
  induction fs generalizing n with
  | nil => simp at h
  | cons f fs ih =>
    rw [List.flatten_cons, List.length_append] at h ⊢
    rw [fieldEnd]
    split_ifs with hf
    · omega
    · have hrest := ih (n := n - f.length) (by omega)
      omega

theorem writeFields_of_le (h : fs.flatten.length ≤ size) : writeFields fs size = (fs.flatten, fs.flatten.length) := by
  induction fs generalizing size with
  | nil => rfl
  | cons f fs ih =>
    rw [List.flatten_cons, List.length_append] at h
    rw [writeFields, if_neg (by omega), ih (by omega), List.flatten_cons, List.length_append]

/-- A buffer that is too short holds the fields before the one that is counted, and nothing of that one. -/
theorem writeFields_of_lt (h : size < fs.flatten.length) :
    (writeFields fs size).1 <+: fs.flatten ∧ (writeFields fs size).1.length ≤ size ∧
      (writeFields fs size).2 = fieldEnd fs size := by
  induction fs generalizing size with
  | nil => simp at h
  | cons f fs ih =>
    rw [List.flatten_cons, List.length_append] at h
    rw [writeFields, fieldEnd, List.flatten_cons]
    split_ifs with hf
    · simp
    · obtain ⟨hbegins, hlen, hcount⟩ := @ih (size - f.length) (by omega)
      refine ⟨(List.prefix_append_right_inj f).mpr hbegins, ?_, ?_⟩
      · rw [List.length_append]
        omega
      · simp only [hcount]

/-- How a reader stops: at a field that is not there, with the bytes counted to its end, or at a value it refuses. -/
inductive Halt where
  | short (total : Nat)
  | refused
  deriving DecidableEq

/-- The bytes taken so far, and the rest. -/
structure Cursor where
  taken : Nat
  rest : Bytes

abbrev Scan (α : Type) := StateT Cursor (Except Halt) α

namespace Scan

variable {α β : Type}

def field (f : FixedCodec α) : Scan α := fun c =>
  match f.take c.rest with
  | some (a, rest) => .ok (a, ⟨c.taken + f.width, rest⟩)
  | none => .error (.short (c.taken + f.width))

def refuse : Scan α := fun _ => .error .refused

structure Reads (p : Scan α) (fs : List Bytes) (a : α) : Prop where
  whole : ∀ k rest, p ⟨k, fs.flatten ++ rest⟩ = .ok (a, ⟨k + fs.flatten.length, rest⟩)
  cut : ∀ k n, n < fs.flatten.length → p ⟨k, fs.flatten.take n⟩ = .error (.short (k + fieldEnd fs n))

namespace Reads

theorem field (f : FixedCodec α) (a : α) : Reads (Scan.field f) [f.put a] a where
  whole k rest := by simp [Scan.field, f.put_length]
  cut k n h := by
    rw [List.flatten_singleton, f.put_length] at h
    have hshort : f.take ((f.put a).take n) = none := by
      rw [FixedCodec.take, if_pos (by rw [List.length_take]; omega)]
    simp [Scan.field, hshort, fieldEnd, f.put_length, h]

theorem pure (a : α) : Reads (Pure.pure a : Scan α) [] a where
  whole _ _ := rfl
  cut _ _ h := absurd h (Nat.not_lt_zero _)

theorem bind {p : Scan α} {q : α → Scan β} {a : α} {b : β} (hp : Reads p fs a) (hq : Reads (q a) gs b) :
    Reads (p >>= q) (fs ++ gs) b where
  whole k rest := by
    have hfirst := hp.whole k (gs.flatten ++ rest)
    have hthen := hq.whole (k + fs.flatten.length) rest
    rw [List.flatten_append, List.length_append, List.append_assoc, ← Nat.add_assoc, ← hthen]
    change (p ⟨k, _⟩ >>= fun r => q r.1 r.2) = _
    rw [hfirst]
    rfl
  cut k n h := by
    rw [List.flatten_append, List.length_append] at h
    change (p ⟨k, _⟩ >>= fun r => q r.1 r.2) = _
    rw [List.flatten_append, List.take_append]
    -- the buffer ends in the fields of the first reader, or in those of the second
    by_cases hn : n < fs.flatten.length
    · rw [Nat.sub_eq_zero_of_le (Nat.le_of_lt hn), List.take_zero, List.append_nil, hp.cut k n hn,
        fieldEnd_append_left hn]
      rfl
    · have hthen := hq.cut (k + fs.flatten.length) (n - fs.flatten.length) (by omega)
      rw [List.take_of_length_le (by omega), hp.whole, fieldEnd_append_right (by omega), ← Nat.add_assoc, ← hthen]
      rfl

/-- The first of the fields. -/
theorem cons {f : FixedCodec α} {q : α → Scan β} {a : α} {b : β} (hq : Reads (q a) gs b) :
    Reads (Scan.field f >>= q) (f.put a :: gs) b := (field f a).bind hq

end Reads

end Scan

end Ces.Lib
