import Mathlib.Data.Finset.Basic
import Mathlib.Data.Finset.Insert

/-!
# A set that forgets

Keys are inserted into the current generation. When a window has passed since the generation was opened, the first
call that notices drops the older generation, ages the current one and opens an empty one. Rotation is lazy: it
happens inside lookups and insertions, at the times they are made.

`Covers W d k u` says that a lookup of `k` at any time up to `u` will find it, whatever calls are made before. A key
inserted into the generation opened at `base` is covered up to just before `base + 2 * W`.
-/

namespace Ces.Lib

structure RotatingSet (K : Type) where
  current : Finset K
  older : Finset K
  /-- When the current generation was opened; 0 before the first call. -/
  base : Nat

namespace RotatingSet

variable {K : Type}

def empty : RotatingSet K := ⟨∅, ∅, 0⟩

/-- The generation is opened by the first call. -/
def openAt (now : Nat) (d : RotatingSet K) : RotatingSet K := if d.base = 0 then { d with base := now } else d

def rotate (W now : Nat) (d : RotatingSet K) : RotatingSet K :=
  let d := d.openAt now
  if now - d.base < W then d else ⟨∅, d.current, now⟩

variable [DecidableEq K]

def contains (d : RotatingSet K) (k : K) : Bool := decide (k ∈ d.older) || decide (k ∈ d.current)

def insert (d : RotatingSet K) (k : K) : RotatingSet K := { d with current := Insert.insert k d.current }

omit [DecidableEq K] in
/-- A key is found by every lookup up to `u`: it is in a generation that lasts that long, or `u` is past. -/
def Covers (W : Nat) (d : RotatingSet K) (k : K) (u : Nat) : Prop :=
  (k ∈ d.current ∧ u < d.base + 2 * W) ∨ (k ∈ d.older ∧ u < d.base + W) ∨ u < d.base

variable {W now u : Nat} {d : RotatingSet K} {k : K}

omit [DecidableEq K] in
theorem openAt_base_le (h : d.base ≤ now) : (d.openAt now).base ≤ now := by
  unfold openAt
  split_ifs
  · exact le_refl _
  · exact h

omit [DecidableEq K] in
theorem rotate_base_le (h : d.base ≤ now) : (d.rotate W now).base ≤ now := by
  unfold rotate
  dsimp only
  split_ifs
  · exact openAt_base_le h
  · exact le_refl _

omit [DecidableEq K] in
theorem rotate_covers (h : d.base ≤ now) (hk : d.Covers W k u) : (d.rotate W now).Covers W k u := by
  have hbase := openAt_base_le h
  have hcovers : (d.openAt now).Covers W k u := by
    unfold openAt
    split_ifs with hzero
    · rcases hk with ⟨hmem, hlt⟩ | ⟨hmem, hlt⟩ | hlt
      · exact .inl ⟨hmem, show u < now + 2 * W by omega⟩
      · exact .inr (.inl ⟨hmem, show u < now + W by omega⟩)
      · exact .inr (.inr (show u < now by omega))
    · exact hk
  unfold rotate
  generalize d.openAt now = e at hbase hcovers
  dsimp only
  split_ifs with hyoung
  · exact hcovers
  · -- the current generation ages, the older one is dropped
    rcases hcovers with ⟨hmem, hlt⟩ | ⟨-, hlt⟩ | hlt
    · exact .inr (.inl ⟨hmem, show u < now + W by omega⟩)
    · exact .inr (.inr (show u < now by omega))
    · exact .inr (.inr (show u < now by omega))

theorem insert_covers (hk : d.Covers W k u) (x : K) : (d.insert x).Covers W k u := by
  rcases hk with ⟨hmem, hlt⟩ | hrest
  · exact .inl ⟨Finset.mem_insert_of_mem hmem, hlt⟩
  · exact .inr hrest

theorem covers_insert (h : u < d.base + 2 * W) : (d.insert k).Covers W k u :=
  .inl ⟨Finset.mem_insert_self k d.current, h⟩

/-- A covered key is found. -/
theorem contains_rotate (h : d.base ≤ now) (hk : d.Covers W k u) (hu : now ≤ u) :
    (d.rotate W now).contains k = true := by
  have hbase := rotate_base_le (W := W) h
  unfold contains
  rcases rotate_covers h hk with ⟨hmem, -⟩ | ⟨hmem, -⟩ | hpast
  · simp [hmem]
  · simp [hmem]
  · omega

end RotatingSet

end Ces.Lib
