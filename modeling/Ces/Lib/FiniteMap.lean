import Mathlib.Data.Finmap
import Mathlib.Algebra.BigOperators.Group.Multiset.Basic
import Mathlib.Algebra.Order.BigOperators.Group.Multiset
import Mathlib.Algebra.Order.Ring.Int
import Mathlib.Tactic.Linarith

/-!
# Finite maps and sums over them

`FMap K V` is Mathlib's `Finmap` with a constant value type. `sumOver m f` sums `f` over the stored
values and `valueAt m k f` is what the cell at `k` contributes, so that one write changes the sum by
the new contribution minus the old one (`sumOver_insert`, `sumOver_erase`). `restore` puts one cell
back to what a lookup once returned.
-/

namespace Ces.Lib

/-- A finite map with one value type. -/
abbrev FMap (K V : Type) := Finmap (fun _ : K => V)

namespace FMap

variable {K V : Type}

/-- The sum of `f` over the stored values. -/
def sumOver (m : FMap K V) (f : V → Int) : Int := (m.entries.map fun e => f e.2).sum

theorem sumOver_nonneg (m : FMap K V) {f : V → Int} (hf : ∀ v, 0 ≤ f v) : 0 ≤ sumOver m f := by
  refine Multiset.sum_nonneg fun x hx => ?_
  obtain ⟨e, -, rfl⟩ := Multiset.mem_map.mp hx
  exact hf e.2

/-- The cells whose key passes `keep`. -/
def filterKeys (m : FMap K V) (keep : K → Bool) : FMap K V where
  entries := m.entries.filter fun e => keep e.1
  nodupKeys := by
    obtain ⟨entries, hnodup⟩ := m
    induction entries using Quotient.inductionOn with
    | h l => exact List.NodupKeys.sublist List.filter_sublist hnodup

variable [DecidableEq K]

/-- The number of stored cells. -/
def size (m : FMap K V) : Nat := m.entries.card

/-- The contribution of one cell to `sumOver`. -/
def valueAt (m : FMap K V) (k : K) (f : V → Int) : Int := (m.lookup k).elim 0 f

/-- Put the cell at `k` back to `old`. -/
def restore (m : FMap K V) (k : K) (old : Option V) : FMap K V :=
  match old with
  | some v => m.insert k v
  | none => m.erase k

/-- Change the cell at `k`, if there is one. -/
def alter (m : FMap K V) (k : K) (f : V → Option V) : FMap K V :=
  match m.lookup k with
  | none => m
  | some v => m.restore k (f v)

theorem valueAt_of_lookup {m : FMap K V} {k : K} {v : V} (f : V → Int) (h : m.lookup k = some v) :
    valueAt m k f = f v := by
  simp [valueAt, h]

theorem valueAt_of_none {m : FMap K V} {k : K} (f : V → Int) (h : m.lookup k = none) :
    valueAt m k f = 0 := by
  simp [valueAt, h]

theorem erase_of_notMem {m : FMap K V} {k : K} (h : k ∉ m) : m.erase k = m := by
  refine Finmap.ext_lookup fun x => ?_
  by_cases hx : x = k
  · subst hx
    rw [Finmap.lookup_erase, Finmap.lookup_eq_none.mpr h]
  · rw [Finmap.lookup_erase_ne hx]

theorem insert_erase_self (m : FMap K V) (k : K) (v : V) : (m.erase k).insert k v = m.insert k v := by
  refine Finmap.ext_lookup fun x => ?_
  by_cases hx : x = k
  · subst hx
    simp
  · rw [Finmap.lookup_insert_of_ne _ hx, Finmap.lookup_insert_of_ne _ hx, Finmap.lookup_erase_ne hx]

theorem erase_insert_self (m : FMap K V) (k : K) (v : V) : (m.insert k v).erase k = m.erase k := by
  refine Finmap.ext_lookup fun x => ?_
  by_cases hx : x = k
  · subst hx
    simp
  · rw [Finmap.lookup_erase_ne hx, Finmap.lookup_erase_ne hx, Finmap.lookup_insert_of_ne _ hx]

theorem insert_of_lookup {m : FMap K V} {k : K} {v : V} (h : m.lookup k = some v) :
    m.insert k v = m := by
  refine Finmap.ext_lookup fun x => ?_
  by_cases hx : x = k
  · subst hx
    rw [Finmap.lookup_insert, h]
  · rw [Finmap.lookup_insert_of_ne _ hx]

theorem lookup_insert_eq (m : FMap K V) (k x : K) (v : V) :
    (m.insert k v).lookup x = if x = k then some v else m.lookup x := by
  split_ifs with hx
  · subst hx
    exact Finmap.lookup_insert m
  · exact Finmap.lookup_insert_of_ne m hx

theorem lookup_erase_eq (m : FMap K V) (k x : K) :
    (m.erase k).lookup x = if x = k then none else m.lookup x := by
  split_ifs with hx
  · subst hx
    exact Finmap.lookup_erase x m
  · exact Finmap.lookup_erase_ne hx

theorem lookup_of_filterKeys {m : FMap K V} {keep : K → Bool} {k : K} {v : V}
    (h : (m.filterKeys keep).lookup k = some v) : m.lookup k = some v := by
  rw [Finmap.lookup_eq_some_iff] at h ⊢
  exact (Multiset.mem_filter.mp h).1

theorem lookup_filterKeys (m : FMap K V) (keep : K → Bool) (k : K) :
    (m.filterKeys keep).lookup k = if keep k = true then m.lookup k else none := by
  split_ifs with hkeep
  · cases h : m.lookup k with
    | none =>
      by_contra hsome
      obtain ⟨v, hv⟩ := Option.ne_none_iff_exists'.mp hsome
      rw [lookup_of_filterKeys hv] at h
      exact absurd h (by simp)
    | some v =>
      rw [Finmap.lookup_eq_some_iff] at h ⊢
      exact Multiset.mem_filter.mpr ⟨h, hkeep⟩
  · by_contra hsome
    obtain ⟨v, hv⟩ := Option.ne_none_iff_exists'.mp hsome
    rw [Finmap.lookup_eq_some_iff] at hv
    exact hkeep (Multiset.mem_filter.mp hv).2

/-! ### Sums -/

theorem sumOver_insert_of_notMem {m : FMap K V} {k : K} (v : V) (f : V → Int) (h : k ∉ m) :
    sumOver (m.insert k v) f = f v + sumOver m f := by
  simp [sumOver, Finmap.entries_insert_of_notMem h]

/-- Erasing a cell removes its contribution. -/
theorem sumOver_erase (m : FMap K V) (k : K) (f : V → Int) :
    sumOver (m.erase k) f = sumOver m f - valueAt m k f := by
  by_cases hk : k ∈ m
  · obtain ⟨v, hv⟩ := Finmap.mem_iff.mp hk
    have hback : (m.erase k).insert k v = m := by rw [insert_erase_self, insert_of_lookup hv]
    have hsum := sumOver_insert_of_notMem (m := m.erase k) v f Finmap.notMem_erase_self
    rw [hback] at hsum
    rw [valueAt_of_lookup f hv]
    omega
  · rw [erase_of_notMem hk, valueAt_of_none f (Finmap.lookup_eq_none.mpr hk), sub_zero]

/-- Writing a cell replaces its contribution. -/
theorem sumOver_insert (m : FMap K V) (k : K) (v : V) (f : V → Int) :
    sumOver (m.insert k v) f = sumOver m f - valueAt m k f + f v := by
  rw [← insert_erase_self, sumOver_insert_of_notMem v f Finmap.notMem_erase_self, sumOver_erase]
  omega

/-! ### Sizes -/

theorem size_insert_of_none {m : FMap K V} {k : K} (v : V) (h : m.lookup k = none) :
    size (m.insert k v) = m.size + 1 := by
  unfold size
  rw [Finmap.entries_insert_of_notMem (Finmap.lookup_eq_none.mp h), Multiset.card_cons]

theorem size_erase_of_some {m : FMap K V} {k : K} {v : V} (h : m.lookup k = some v) :
    size (m.erase k) + 1 = m.size := by
  have hsize := size_insert_of_none v (Finmap.lookup_erase k m)
  rw [insert_erase_self, insert_of_lookup h] at hsize
  exact hsize.symm

theorem size_insert_of_some {m : FMap K V} {k : K} {w : V} (v : V) (h : m.lookup k = some w) :
    size (m.insert k v) = m.size := by
  have hsize := size_insert_of_none v (Finmap.lookup_erase k m)
  rw [insert_erase_self] at hsize
  rw [hsize, size_erase_of_some h]

/-- A map holds at least as many cells as there are distinct keys known to be stored. -/
theorem length_le_size {m : FMap K V} {l : List K} (hnodup : l.Nodup) (hmem : ∀ k ∈ l, m.lookup k ≠ none) :
    l.length ≤ size m := by
  have hsub : l.toFinset ⊆ m.keys := by
    intro k hk
    rw [Finmap.mem_keys]
    by_contra hnone
    exact hmem k (List.mem_toFinset.mp hk) (Finmap.lookup_eq_none.mpr hnone)
  have hkeys : m.keys.card = size m := Multiset.card_map _ _
  calc l.length = l.toFinset.card := (List.toFinset_card_of_nodup hnodup).symm
    _ ≤ m.keys.card := Finset.card_le_card hsub
    _ = size m := hkeys

/-- A map whose keys are all stored in another is no larger. -/
theorem size_le_size {W : Type} {m : FMap K V} {m' : FMap K W} (h : ∀ k, m.lookup k ≠ none → m'.lookup k ≠ none) :
    size m ≤ size m' := by
  have hsub : m.keys ⊆ m'.keys := by
    intro k hk
    rw [Finmap.mem_keys] at hk ⊢
    by_contra hnone
    exact h k (fun hmiss => Finmap.lookup_eq_none.mp hmiss hk) (Finmap.lookup_eq_none.mpr hnone)
  have hkeys : m.keys.card = size m := Multiset.card_map _ _
  have hkeys' : m'.keys.card = size m' := Multiset.card_map _ _
  rw [← hkeys, ← hkeys']
  exact Finset.card_le_card hsub

theorem size_insert_le (m : FMap K V) (k : K) (v : V) : size (m.insert k v) ≤ size m + 1 := by
  cases h : m.lookup k with
  | none => exact le_of_eq (size_insert_of_none v h)
  | some w => exact (le_of_eq (size_insert_of_some v h)).trans (Nat.le_succ _)

/-! ### Restoring one cell -/

theorem lookup_restore (m : FMap K V) (k x : K) (old : Option V) :
    (m.restore k old).lookup x = if x = k then old else m.lookup x := by
  cases old with
  | some v => exact lookup_insert_eq m k x v
  | none => exact lookup_erase_eq m k x

theorem alter_of_none {m : FMap K V} {k : K} (f : V → Option V) (h : m.lookup k = none) : m.alter k f = m := by
  simp [alter, h]

theorem alter_of_some {m : FMap K V} {k : K} {v : V} (f : V → Option V) (h : m.lookup k = some v) :
    m.alter k f = m.restore k (f v) := by
  simp [alter, h]

theorem lookup_alter (m : FMap K V) (k x : K) (f : V → Option V) :
    (m.alter k f).lookup x = if x = k then (m.lookup k).bind f else m.lookup x := by
  cases h : m.lookup k with
  | none =>
    rw [alter_of_none f h]
    split_ifs with hx
    · rw [hx, h]
      rfl
    · rfl
  | some v => rw [alter_of_some f h, lookup_restore, Option.bind_some]

theorem restore_lookup_insert (m : FMap K V) (k : K) (v : V) :
    restore (m.insert k v) k (m.lookup k) = m := by
  cases h : m.lookup k with
  | some old => rw [restore, Finmap.insert_insert, insert_of_lookup h]
  | none =>
    refine Finmap.ext_lookup fun x => ?_
    rw [restore, lookup_erase_eq, lookup_insert_eq]
    split_ifs with hx
    · rw [hx, h]
    · rfl

@[simp] theorem restore_lookup_self (m : FMap K V) (k : K) : restore m k (m.lookup k) = m := by
  cases h : m.lookup k with
  | some old => rw [restore, insert_of_lookup h]
  | none => rw [restore, erase_of_notMem (Finmap.lookup_eq_none.mp h)]

end FMap

end Ces.Lib
