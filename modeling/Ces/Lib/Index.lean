import Ces.Lib.FiniteMap

/-!
# A map and its reverse index

`Indexed fwd rev`: the index `rev` is the inverse of `fwd`. The index follows an insertion that first drops the stale
entry of the key, and an erasure. Built anew from the map, in whatever order the map is walked, it is again the
inverse as long as no value occurs twice (`Indexed.rebuild`).
-/

namespace Ces.Lib

variable {K V : Type} [DecidableEq K] [DecidableEq V]

/-- Each value leads back to its key and to no other. -/
def Indexed (fwd : FMap K V) (rev : FMap V K) : Prop := ∀ v k, rev.lookup v = some k ↔ fwd.lookup k = some v

/-- No value is held by two keys. -/
def OneKeyEach (fwd : FMap K V) : Prop := ∀ k k' v, fwd.lookup k = some v → fwd.lookup k' = some v → k = k'

/-- The index without the value `k` holds. -/
def dropStale (fwd : FMap K V) (rev : FMap V K) (k : K) : FMap V K :=
  (fwd.lookup k).elim rev fun old => rev.erase old

/-- Enter one key into the index; the first key of a value keeps it. -/
def indexKey (fwd : FMap K V) (rev : FMap V K) (k : K) : FMap V K :=
  match fwd.lookup k with
  | none => rev
  | some v => if rev.lookup v ≠ none then rev else rev.insert v k

variable {fwd : FMap K V} {rev : FMap V K} {k : K} {v : V}

theorem indexed_empty : Indexed (∅ : FMap K V) (∅ : FMap V K) := by
  intro v k
  rw [Finmap.lookup_empty, Finmap.lookup_empty]
  exact ⟨nofun, nofun⟩

theorem Indexed.oneKeyEach (h : Indexed fwd rev) : OneKeyEach fwd := by
  intro k k' v hk hk'
  exact Option.some.inj (((h v k).mpr hk).symm.trans ((h v k').mpr hk'))

omit [DecidableEq V] in
theorem OneKeyEach.mono {sub : FMap K V} (h : OneKeyEach fwd)
    (hsub : ∀ k v, sub.lookup k = some v → fwd.lookup k = some v) : OneKeyEach sub :=
  fun k k' v hk hk' => h k k' v (hsub k v hk) (hsub k' v hk')

/-- Without its entry, a key is not in the index. -/
theorem Indexed.dropStale (h : Indexed fwd rev) (k : K) : Indexed (fwd.erase k) (dropStale fwd rev k) := by
  intro w x
  rw [FMap.lookup_erase_eq]
  unfold Lib.dropStale
  cases hold : fwd.lookup k with
  | none =>
    split_ifs with hx
    · subst hx
      refine ⟨fun hw => ?_, nofun⟩
      rw [(h w x).mp hw] at hold
      cases hold
    · exact h w x
  | some old =>
    rw [Option.elim_some, FMap.lookup_erase_eq]
    split_ifs with hw hx hx
    · exact Iff.rfl
    · subst hw
      refine ⟨nofun, fun hsame => ?_⟩
      exact absurd (h.oneKeyEach x k w hsame hold) hx
    · subst hx
      refine ⟨fun hrev => ?_, nofun⟩
      have hsame := (h w x).mp hrev
      rw [hold] at hsame
      exact absurd (Option.some.inj hsame).symm hw
    · exact h w x

theorem Indexed.insert_new (h : Indexed fwd rev) (hk : fwd.lookup k = none) (hv : rev.lookup v = none) :
    Indexed (fwd.insert k v) (rev.insert v k) := by
  intro w x
  rw [FMap.lookup_insert_eq, FMap.lookup_insert_eq]
  split_ifs with hw hx hx
  · subst hw hx
    exact ⟨fun _ => rfl, fun _ => rfl⟩
  · subst hw
    refine ⟨fun hkx => absurd (Option.some.inj hkx).symm hx, fun hfwd => ?_⟩
    rw [(h w x).mpr hfwd] at hv
    cases hv
  · subst hx
    refine ⟨fun hrev => ?_, fun hvw => absurd (Option.some.inj hvw).symm hw⟩
    rw [(h w x).mp hrev] at hk
    cases hk
  · exact h w x

/-- A key takes a value that is free or already its own. -/
theorem Indexed.assign (h : Indexed fwd rev) (hv : rev.lookup v = none ∨ rev.lookup v = some k) :
    Indexed (fwd.insert k v) ((Lib.dropStale fwd rev k).insert v k) := by
  have hdrop := h.dropStale k
  have hfree : (Lib.dropStale fwd rev k).lookup v = none := by
    cases hlook : (Lib.dropStale fwd rev k).lookup v with
    | none => rfl
    | some x =>
      have hx := (hdrop v x).mp hlook
      rw [FMap.lookup_erase_eq] at hx
      split_ifs at hx with hne
      have hrev := (h v x).mpr hx
      rcases hv with hv | hv
      · rw [hv] at hrev
        cases hrev
      · rw [hv] at hrev
        exact absurd (Option.some.inj hrev).symm hne
  rw [← FMap.insert_erase_self fwd k v]
  exact hdrop.insert_new (Finmap.lookup_erase k fwd) hfree

/-- What the walk has entered so far is right, and what it has passed is entered. -/
theorem foldl_indexKey (hone : OneKeyEach fwd) (order : List K) (rev : FMap V K)
    (hsound : ∀ v k, rev.lookup v = some k → fwd.lookup k = some v) :
    let rev' := order.foldl (indexKey fwd) rev
    (∀ v k, rev'.lookup v = some k → fwd.lookup k = some v) ∧
      ∀ v k, fwd.lookup k = some v → rev.lookup v = some k ∨ k ∈ order → rev'.lookup v = some k := by
  induction order generalizing rev with
  | nil => exact ⟨hsound, fun v k _ hin => hin.resolve_right List.not_mem_nil⟩
  | cons x order ih =>
    have hstep : ∀ v k, (indexKey fwd rev x).lookup v = some k → fwd.lookup k = some v := by
      intro v k hlook
      unfold indexKey at hlook
      cases hx : fwd.lookup x with
      | none =>
        rw [hx] at hlook
        exact hsound v k hlook
      | some w =>
        rw [hx] at hlook
        dsimp only at hlook
        split_ifs at hlook with hin
        · exact hsound v k hlook
        · rw [FMap.lookup_insert_eq] at hlook
          split_ifs at hlook with hvw
          · rw [hvw, ← Option.some.inj hlook]
            exact hx
          · exact hsound v k hlook
    have hentered : ∀ v k, fwd.lookup k = some v → rev.lookup v = some k ∨ k = x →
        (indexKey fwd rev x).lookup v = some k := by
      intro v k hk hin
      unfold indexKey
      cases hx : fwd.lookup x with
      | none =>
        refine hin.resolve_right ?_
        rintro rfl
        rw [hx] at hk
        cases hk
      | some w =>
        dsimp only
        have hown : rev.lookup v ≠ none → rev.lookup v = some k := by
          intro hne
          obtain ⟨y, hy⟩ := Option.ne_none_iff_exists'.mp hne
          rw [hy, hone y k v (hsound v y hy) hk]
        split_ifs with hfree
        · refine hin.elim id ?_
          rintro rfl
          rw [hx] at hk
          cases hk
          exact hown hfree
        · rw [FMap.lookup_insert_eq]
          split_ifs with hvw
          · subst hvw
            rw [hone x k v hx hk]
          · refine hin.resolve_right ?_
            rintro rfl
            rw [hx] at hk
            exact hvw (Option.some.inj hk).symm
    obtain ⟨hsound', hcomplete⟩ := ih (indexKey fwd rev x) hstep
    refine ⟨hsound', fun v k hk hin => hcomplete v k hk ?_⟩
    rcases hin with hrev | hin
    · exact .inl (hentered v k hk (.inl hrev))
    · rcases List.mem_cons.mp hin with rfl | hin
      · exact .inl (hentered v k hk (.inr rfl))
      · exact .inr hin

/-- A walk over every key rebuilds the index. -/
theorem Indexed.rebuild (hone : OneKeyEach fwd) {order : List K} (hall : ∀ k, fwd.lookup k ≠ none → k ∈ order) :
    Indexed fwd (order.foldl (indexKey fwd) ∅) := by
  have hempty : ∀ v k, (∅ : FMap V K).lookup v = some k → fwd.lookup k = some v := by
    intro v k h
    rw [Finmap.lookup_empty] at h
    cases h
  obtain ⟨hsound, hcomplete⟩ := foldl_indexKey hone order ∅ hempty
  refine fun v k => ⟨hsound v k, fun hk => hcomplete v k hk (.inr (hall k ?_))⟩
  rw [hk]
  exact Option.some_ne_none v

end Ces.Lib
