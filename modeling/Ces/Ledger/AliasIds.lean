import Ces.Ledger.Daily
import Ces.Ledger.Trace

/-!
# The ids of aliases

`allocAliasId` walks the nonzero ids in a circle. The cursor in the generator cell stands behind the id issued last, so
the ids the generator looks at over a run of allocations, patches and deletions form one walk: an id comes up again only
when the walk has been round.
-/

namespace Ces

open Ces.Lib CesServer

/-! ### Walks -/

/-- The `n` ids from `id` on. -/
def aliasWalk (id : UInt32) (n : Nat) : List UInt32 := (List.range n).map fun k => bumpAliasId^[k] id

theorem aliasWalk_add (id : UInt32) (m n : Nat) :
    aliasWalk id (m + n) = aliasWalk id m ++ aliasWalk (bumpAliasId^[m] id) n := by
  unfold aliasWalk
  rw [List.range_add, List.map_append, List.map_map]
  congr 1
  refine List.map_congr_left fun k _ => ?_
  simp only [Function.comp_apply]
  rw [Nat.add_comm, Function.iterate_add_apply]

theorem aliasWalk_succ (id : UInt32) (n : Nat) : aliasWalk id (n + 1) = id :: aliasWalk (bumpAliasId id) n := by
  rw [Nat.add_comm, aliasWalk_add]
  rfl

/-- A walk that comes back to where it started has seen every id. -/
theorem mem_aliasWalk_of_return {id other : UInt32} {n : Nat} (hid : id ≠ 0) (hother : other ≠ 0)
    (hback : bumpAliasId^[n + 1] id = id) : other ∈ aliasWalk (bumpAliasId id) (n + 1) := by
  have hlt : ∀ i : UInt32, i ≠ 0 → 1 ≤ i.toNat ∧ i.toNat < 2 ^ 32 := fun i hi =>
    ⟨Nat.one_le_iff_ne_zero.mpr fun h0 => hi (UInt32.toNat_inj.mp h0), i.toNat_lt⟩
  obtain ⟨hid1, hid2⟩ := hlt id hid
  obtain ⟨hother1, hother2⟩ := hlt other hother
  have hround : 2 ^ 32 - 1 ≤ n + 1 := by
    have hnat := congrArg UInt32.toNat hback
    rw [(bumpAliasId_iterate hid (n + 1)).2] at hnat
    by_contra hshort
    omega
  obtain ⟨k, hk, hmeet⟩ : ∃ k < n + 1, (id.toNat - 1 + (k + 1)) % (2 ^ 32 - 1) + 1 = other.toNat := by
    refine ⟨(other.toNat - 1 + (2 ^ 32 - 1) - id.toNat) % (2 ^ 32 - 1), ?_, ?_⟩ <;> omega
  refine List.mem_map.mpr ⟨k, List.mem_range.mpr hk, UInt32.toNat_inj.mp ?_⟩
  rw [← Function.iterate_succ_apply, (bumpAliasId_iterate hid (k + 1)).2, hmeet]

/-! ### One search -/

/-- Fewer aliases than ids. -/
def AliasRoom (aliases : FMap UInt32 Alias) : Prop := FMap.size (aliases.erase 0) < 2 ^ 32 - 1

instance (aliases : FMap UInt32 Alias) : Decidable (AliasRoom aliases) := Nat.decLt _ _

/-- The id the next search starts at. -/
def aliasCursor (aliases : FMap UInt32 Alias) : UInt32 :=
  let next := UInt32.ofNat (leNat ((aliasGenerator aliases).content.slice 0 4).bytes)
  if next = 0 then 1 else next

/-- The ids a search from `id` looks at. -/
def scanAliasIds (aliases : FMap UInt32 Alias) : Nat → UInt32 → List UInt32
  | 0, id => [id]
  | fuel + 1, id =>
    if id = 0 ∨ (aliases.lookup id).isSome then id :: scanAliasIds aliases fuel (bumpAliasId id) else [id]

/-- The ids an allocation looks at. -/
def allocScan (aliases : FMap UInt32 Alias) : List UInt32 :=
  scanAliasIds aliases (aliases.size + 2) (aliasCursor aliases)

theorem allocAliasId_fst (aliases : FMap UInt32 Alias) :
    (allocAliasId aliases).1 = freeAliasId aliases (aliases.size + 2) (aliasCursor aliases) := rfl

theorem aliasCursor_ne_zero (aliases : FMap UInt32 Alias) : aliasCursor aliases ≠ 0 := by
  unfold aliasCursor
  dsimp only
  split_ifs with hzero
  · decide
  · exact hzero

/-- A search that has found a free id is over: more fuel changes nothing. -/
theorem freeAliasId_stable {aliases : FMap UInt32 Alias} {fuel more : Nat} {id : UInt32} (hid : id ≠ 0)
    (hfree : aliases.lookup (freeAliasId aliases fuel id) = none) (hle : fuel ≤ more) :
    freeAliasId aliases more id = freeAliasId aliases fuel id := by
  induction fuel generalizing id more with
  | zero =>
    -- the start itself is free
    cases more with
    | zero => rfl
    | succ more =>
      change aliases.lookup id = none at hfree
      have hstop : ¬(id = 0 ∨ (aliases.lookup id).isSome) := by
        rw [hfree]
        exact fun h => h.elim hid fun hsome => nomatch hsome
      change (if id = 0 ∨ (aliases.lookup id).isSome then _ else id) = id
      rw [if_neg hstop]
  | succ fuel ih =>
    obtain ⟨more, rfl⟩ : ∃ k, more = k + 1 := ⟨more - 1, by omega⟩
    rw [freeAliasId] at hfree ⊢
    rw [freeAliasId]
    by_cases htaken : id = 0 ∨ (aliases.lookup id).isSome
    · rw [if_pos htaken] at hfree ⊢
      rw [if_pos htaken]
      exact ih (bumpAliasId_ne_zero id) hfree (Nat.le_of_succ_le_succ hle)
    · rw [if_neg htaken, if_neg htaken]

/-- With room the search ends at a free id, on any fuel above the number of aliases. -/
theorem freeAliasId_room {aliases : FMap UInt32 Alias} (hroom : AliasRoom aliases) {id : UInt32} (hid : id ≠ 0)
    {fuel : Nat} (hfuel : FMap.size (aliases.erase 0) < fuel) :
    aliases.lookup (freeAliasId aliases fuel id) = none ∧
      freeAliasId aliases fuel id = freeAliasId aliases (FMap.size (aliases.erase 0) + 1) id := by
  have hfree : aliases.lookup (freeAliasId aliases (FMap.size (aliases.erase 0) + 1) id) = none :=
    freeAliasId_free hid (Nat.lt_succ_self _) (by unfold AliasRoom at hroom; omega)
  have hsame := freeAliasId_stable hid hfree hfuel
  exact ⟨hsame ▸ hfree, hsame⟩

theorem allocAliasId_room {aliases : FMap UInt32 Alias} (hroom : AliasRoom aliases) :
    aliases.lookup (allocAliasId aliases).1 = none :=
  (freeAliasId_room hroom (aliasCursor_ne_zero aliases)
    (Nat.lt_add_right 1 (Nat.lt_succ_of_le (size_erase_generator_le aliases)))).1

/-- A search is a walk that ends at the id it returns. -/
theorem scanAliasIds_eq (aliases : FMap UInt32 Alias) (fuel : Nat) (id : UInt32) :
    ∃ n, scanAliasIds aliases fuel id = aliasWalk id (n + 1) ∧ freeAliasId aliases fuel id = bumpAliasId^[n] id := by
  induction fuel generalizing id with
  | zero => exact ⟨0, rfl, rfl⟩
  | succ fuel ih =>
    rw [scanAliasIds, freeAliasId]
    by_cases htaken : id = 0 ∨ (aliases.lookup id).isSome
    · obtain ⟨n, hscan, hfree⟩ := ih (bumpAliasId id)
      refine ⟨n + 1, ?_, ?_⟩
      · rw [if_pos htaken, hscan, ← aliasWalk_succ]
      · rw [if_pos htaken, hfree, Function.iterate_succ_apply]
    · refine ⟨0, ?_, ?_⟩
      · rw [if_neg htaken]
        rfl
      · rw [if_neg htaken]
        rfl

/-! ### Runs -/

/-- What the server does to its aliases: a new cell for an account without one, a patch of a live cell, and the removal
of a cell, by its owner or for its rent. The generator cell is out of reach of the last two. -/
inductive AliasOp
  | create (value : Alias)
  | patch (id : UInt32) (value : Alias)
  | delete (id : UInt32)

namespace AliasOp

def apply (aliases : FMap UInt32 Alias) : AliasOp → FMap UInt32 Alias
  | create value => (allocAliasId aliases).2.insert (allocAliasId aliases).1 value
  | patch id value => if id = 0 ∨ aliases.lookup id = none then aliases else aliases.insert id value
  | delete id => if id = 0 then aliases else aliases.erase id

def run (aliases : FMap UInt32 Alias) (ops : List AliasOp) : FMap UInt32 Alias := ops.foldl apply aliases

/-- The ids the generator looks at in one operation. -/
def looks (aliases : FMap UInt32 Alias) : AliasOp → List UInt32
  | create _ => allocScan aliases
  | _ => []

/-- The ids the generator looks at over a run. -/
def visited (aliases : FMap UInt32 Alias) : List AliasOp → List UInt32
  | [] => []
  | op :: rest => op.looks aliases ++ visited (op.apply aliases) rest

theorem run_append (aliases : FMap UInt32 Alias) (ops rest : List AliasOp) :
    run aliases (ops ++ rest) = run (run aliases ops) rest := List.foldl_append

theorem visited_append (aliases : FMap UInt32 Alias) (ops rest : List AliasOp) :
    visited aliases (ops ++ rest) = visited aliases ops ++ visited (run aliases ops) rest := by
  induction ops generalizing aliases with
  | nil => rfl
  | cons op ops ih =>
    rw [List.cons_append, visited, visited, ih, List.append_assoc]
    rfl

/-- The cursor reads back what the generator wrote. -/
theorem aliasCursor_create (aliases : FMap UInt32 Alias) (value : Alias) :
    aliasCursor ((create value).apply aliases) = bumpAliasId (allocAliasId aliases).1 := by
  have hne := bumpAliasId_ne_zero (allocAliasId aliases).1
  have hgen : aliasGenerator ((create value).apply aliases) =
      { aliasGenerator aliases with
        content := (aliasGenerator aliases).content.patch 0
          (leBytes 4 (bumpAliasId (allocAliasId aliases).1).toNat) } := by
    unfold aliasGenerator apply
    dsimp only
    rw [Finmap.lookup_insert_of_ne _ (allocAliasId_ne_zero aliases).symm]
    unfold allocAliasId
    dsimp only
    rw [Finmap.lookup_insert]
    rfl
  have hread : ((aliasGenerator ((create value).apply aliases)).content.slice 0 4).bytes =
      leBytes 4 (bumpAliasId (allocAliasId aliases).1).toNat := by
    rw [hgen]
    have hfits : 0 + (leBytes 4 (bumpAliasId (allocAliasId aliases).1).toNat).length ≤ 1002 := by
      rw [leBytes_length]
      decide
    have hself := ByteArr.slice_patch_self (aliasGenerator aliases).content hfits
    rwa [leBytes_length] at hself
  unfold aliasCursor
  dsimp only
  rw [hread, leNat_leBytes, Nat.mod_eq_of_lt (b := 256 ^ 4) (UInt32.toNat_lt _), UInt32.ofNat_toNat, if_neg hne]

theorem aliasCursor_congr {aliases aliases' : FMap UInt32 Alias} (h : aliases'.lookup 0 = aliases.lookup 0) :
    aliasCursor aliases' = aliasCursor aliases := by
  unfold aliasCursor aliasGenerator
  rw [h]

/-- One operation walks on from the cursor. -/
theorem looks_eq (aliases : FMap UInt32 Alias) (op : AliasOp) :
    ∃ n, op.looks aliases = aliasWalk (aliasCursor aliases) n ∧
      aliasCursor (op.apply aliases) = bumpAliasId^[n] (aliasCursor aliases) := by
  cases op with
  | create value =>
    obtain ⟨n, hscan, hfree⟩ := scanAliasIds_eq aliases (aliases.size + 2) (aliasCursor aliases)
    refine ⟨n + 1, hscan, ?_⟩
    rw [aliasCursor_create, allocAliasId_fst, hfree, Function.iterate_succ_apply']
  | patch id value =>
    refine ⟨0, rfl, aliasCursor_congr ?_⟩
    change (if id = 0 ∨ aliases.lookup id = none then aliases else aliases.insert id value).lookup 0 = _
    split_ifs with hskip
    · rfl
    · exact Finmap.lookup_insert_of_ne _ fun h0 => hskip (.inl h0.symm)
  | delete id =>
    refine ⟨0, rfl, aliasCursor_congr ?_⟩
    change (if id = 0 then aliases else aliases.erase id).lookup 0 = _
    split_ifs with hzero
    · rfl
    · exact Finmap.lookup_erase_ne fun h0 => hzero h0.symm

/-- And so does a run. -/
theorem visited_eq (aliases : FMap UInt32 Alias) (ops : List AliasOp) :
    ∃ n, visited aliases ops = aliasWalk (aliasCursor aliases) n ∧
      aliasCursor (run aliases ops) = bumpAliasId^[n] (aliasCursor aliases) := by
  induction ops generalizing aliases with
  | nil => exact ⟨0, rfl, rfl⟩
  | cons op ops ih =>
    obtain ⟨m, hlooks, hnext⟩ := looks_eq aliases op
    obtain ⟨n, hvisited, hlast⟩ := ih (op.apply aliases)
    refine ⟨m + n, ?_, ?_⟩
    · rw [visited, hlooks, hvisited, hnext, aliasWalk_add]
    · change aliasCursor (run (op.apply aliases) ops) = _
      rw [hlast, hnext, Nat.add_comm, Function.iterate_add_apply]

/-- Between two issues of an id the generator has looked at every other one. -/
theorem mem_visited_of_reissued {aliases : FMap UInt32 Alias} {value value' : Alias} {ops : List AliasOp}
    (hagain : (allocAliasId (run ((create value).apply aliases) ops)).1 = (allocAliasId aliases).1) {other : UInt32}
    (hother : other ≠ 0) : other ∈ visited ((create value).apply aliases) (ops ++ [create value']) := by
  have hcursor := aliasCursor_create aliases value
  have hid := allocAliasId_ne_zero aliases
  obtain ⟨m, hvisited, hthen⟩ := visited_eq ((create value).apply aliases) ops
  obtain ⟨n, hscan, hfree⟩ := scanAliasIds_eq (run ((create value).apply aliases) ops)
    (FMap.size (run ((create value).apply aliases) ops) + 2) (aliasCursor (run ((create value).apply aliases) ops))
  rw [← allocAliasId_fst, hagain, hthen, hcursor, ← Function.iterate_add_apply, ← Function.iterate_succ_apply] at hfree
  have hwalk : visited ((create value).apply aliases) (ops ++ [create value']) =
      aliasWalk (bumpAliasId (allocAliasId aliases).1) (n + m + 1) := by
    rw [visited_append, visited, visited, List.append_nil, hvisited]
    change _ ++ scanAliasIds _ _ _ = _
    rw [hscan, hthen, hcursor, ← aliasWalk_add, Nat.add_comm n m, Nat.add_assoc]
  rw [hwalk]
  exact mem_aliasWalk_of_return hid hother hfree.symm

/-- An id that was free and is taken has been issued in between. -/
theorem issued_of_live {aliases : FMap UInt32 Alias} {ops : List AliasOp} {id : UInt32} (hid : id ≠ 0)
    (hfree : aliases.lookup id = none) (hlive : (run aliases ops).lookup id ≠ none) :
    ∃ before value after, ops = before ++ create value :: after ∧ (allocAliasId (run aliases before)).1 = id := by
  induction ops generalizing aliases with
  | nil => exact absurd hfree hlive
  | cons op ops ih =>
    by_cases hissued : ∃ value, op = create value ∧ (allocAliasId aliases).1 = id
    · obtain ⟨value, rfl, hthis⟩ := hissued
      exact ⟨[], value, ops, rfl, hthis⟩
    have hstill : (op.apply aliases).lookup id = none := by
      cases op with
      | create value =>
        have hne : id ≠ (allocAliasId aliases).1 := fun h => hissued ⟨value, rfl, h.symm⟩
        change ((aliases.insert 0 _).insert _ value).lookup id = none
        rw [Finmap.lookup_insert_of_ne _ hne, Finmap.lookup_insert_of_ne _ hid, hfree]
      | patch n value =>
        change (if n = 0 ∨ aliases.lookup n = none then aliases else aliases.insert n value).lookup id = none
        split_ifs with hskip
        · exact hfree
        · rw [Finmap.lookup_insert_of_ne _ (fun h : id = n => hskip (.inr (h ▸ hfree))), hfree]
      | delete n =>
        change (if n = 0 then aliases else aliases.erase n).lookup id = none
        split_ifs
        · exact hfree
        · rw [FMap.lookup_erase_eq, hfree, ite_self]
    obtain ⟨before, value, after, rfl, hthen⟩ := ih hstill hlive
    exact ⟨op :: before, value, after, rfl, hthen⟩

theorem run_cons (aliases : FMap UInt32 Alias) (op : AliasOp) (ops : List AliasOp) :
    run aliases (op :: ops) = run (op.apply aliases) ops := rfl

theorem apply_delete (aliases : FMap UInt32 Alias) {id : UInt32} (hid : id ≠ 0) :
    (delete id).apply aliases = aliases.erase id := if_neg hid

/-- A deleted id that is live at the end has been issued since. -/
theorem reissued_of_deleted {aliases : FMap UInt32 Alias} {ops : List AliasOp} {id : UInt32} (hid : id ≠ 0)
    (hdeleted : delete id ∈ ops) (hlive : (run aliases ops).lookup id ≠ none) :
    ∃ before value after, ops = before ++ create value :: after ∧ (allocAliasId (run aliases before)).1 = id := by
  obtain ⟨before, later, rfl⟩ := List.append_of_mem hdeleted
  rw [run_append, run_cons] at hlive
  have hfree : ((delete id).apply (run aliases before)).lookup id = none := by
    rw [apply_delete _ hid, Finmap.lookup_erase]
  obtain ⟨between, value, after, rfl, hissued⟩ := issued_of_live hid hfree hlive
  refine ⟨before ++ delete id :: between, value, after, ?_, ?_⟩
  · rw [List.append_assoc, List.cons_append]
  · rwa [run_append, run_cons]

/-! ### The operations of the server -/

/-- A patch over the wire is at most one operation. -/
theorem aliases_setAlias (s : CesServer) (originKey : Hash) (aliasId : UInt32) (offset : UInt16) (bytes : Bytes)
    (providedNonce : UInt32) (fee errFee : Int) :
    ∃ ops, (setAlias s originKey aliasId offset bytes providedNonce fee errFee).server.aliases = run s.aliases ops := by
  unfold setAlias
  dsimp only
  cases hacc : s.accounts.find (getHashPrefix originKey) with
  | none => exact ⟨[], rfl⟩
  | some acc =>
    dsimp only
    split_ifs with hbounds
    · exact ⟨[], rfl⟩
    cases htarget : aliasTarget s (getHashPrefix originKey) acc aliasId offset with
    | error rc => exact ⟨[], rfl⟩
    | ok found =>
      obtain ⟨created, targetId, old⟩ := found
      dsimp only
      by_cases hhook : (!VmHost.hookTargetOk s (.ofImage (old.image.patch offset.toNat bytes))
          (getHashPrefix originKey)) = true
      · rw [if_pos hhook]
        exact ⟨[], rfl⟩
      rw [if_neg hhook]
      refine paidOp_rule (P := fun t => ∃ ops, t.aliases = run s.aliases ops) ⟨[], rfl⟩ ⟨[], rfl⟩ fun t ht _ => ?_
      rcases aliasTarget_cases htarget with ⟨rfl, -, -⟩ | ⟨rfl, hid, hlive, -⟩
      · unfold commitAlias at ht
        rw [Bool.not_true, if_neg Bool.false_ne_true] at ht
        split_ifs at ht with hfull
        obtain rfl := Outcome.accepted.inj ht
        exact ⟨[.create _], rfl⟩
      · obtain rfl := Outcome.accepted.inj ht
        refine ⟨[.patch targetId (.ofImage (old.image.patch offset.toNat bytes))], ?_⟩
        change _ = if targetId = 0 ∨ s.aliases.lookup targetId = none then _ else _
        rw [if_neg (fun h => h.elim hid fun hnone => nomatch hlive.symm.trans hnone)]
        rfl

theorem aliases_deleteAlias (s : CesServer) (originKey : Hash) (providedNonce : UInt32) (errFee : Int) :
    ∃ ops, (deleteAlias s originKey providedNonce errFee).2.aliases = run s.aliases ops := by
  refine paidOp_rule (P := fun t => ∃ ops, t.aliases = run s.aliases ops) ⟨[], rfl⟩ ⟨[], rfl⟩ fun t ht _ => ?_
  split_ifs at ht with hnone
  obtain rfl := Outcome.accepted.inj ht
  exact ⟨[.delete _], (apply_delete s.aliases fun hzero => hnone (.inl hzero)).symm⟩

/-- The daily walk only deletes. -/
theorem aliases_sweepAliases (s : CesServer) (order : DailyOrder) :
    ∃ ops, (sweepAliases s order).aliases = run s.aliases ops := by
  have hstep : ∀ fee st id, ∃ ops, (sweepAlias fee st id).2 = run st.2 ops := by
    intro fee st id
    unfold sweepAlias
    cases st.2.lookup id with
    | none => exact ⟨[], rfl⟩
    | some al =>
      dsimp only
      split_ifs with hzero
      · exact ⟨[], rfl⟩
      have herase : ∃ ops, st.2.erase id = run st.2 ops := ⟨[.delete id], (apply_delete st.2 hzero).symm⟩
      cases st.1.accounts.find al.owner with
      | none => exact herase
      | some acc =>
        dsimp only
        split_ifs
        · exact herase
        · exact herase
        · exact ⟨[], rfl⟩
  have hwalk : ∀ fee st, ∃ ops, (order.aliases.foldl (sweepAlias fee) st).2 = run st.2 ops := by
    intro fee st
    induction order.aliases generalizing st with
    | nil => exact ⟨[], rfl⟩
    | cons id ids ih =>
      obtain ⟨first, hfirst⟩ := hstep fee st id
      obtain ⟨rest, hrest⟩ := ih (sweepAlias fee st id)
      refine ⟨first ++ rest, ?_⟩
      rw [List.foldl_cons, hrest, hfirst, run_append]
  exact hwalk _ (.start s.accounts, s.aliases)

end AliasOp

open AliasOp

/-- With room the allocation ends, on any fuel above the number of aliases, at a nonzero id that is free. As long as
the generator has not looked at every other id, it does not issue an id again, and a link to a deleted alias finds
nothing. -/
theorem alias_ids_go_round (aliases : FMap UInt32 Alias) :
    (AliasRoom aliases →
      (allocAliasId aliases).1 ≠ 0 ∧ aliases.lookup (allocAliasId aliases).1 = none ∧
        ∀ fuel, FMap.size (aliases.erase 0) < fuel →
          freeAliasId aliases fuel (aliasCursor aliases) = (allocAliasId aliases).1) ∧
      ∀ (value : Alias) (ops : List AliasOp) (other : UInt32), other ≠ 0 →
        (∀ value', other ∉ visited ((create value).apply aliases) (ops ++ [create value']) →
          (allocAliasId (run ((create value).apply aliases) ops)).1 ≠ (allocAliasId aliases).1) ∧
        (other ∉ visited ((create value).apply aliases) ops → delete (allocAliasId aliases).1 ∈ ops →
          (run ((create value).apply aliases) ops).lookup (allocAliasId aliases).1 = none) := by
  have hid := allocAliasId_ne_zero aliases
  refine ⟨fun hroom => ⟨hid, allocAliasId_room hroom, fun fuel hfuel => ?_⟩, fun value ops other hother => ⟨?_, ?_⟩⟩
  · have hstart := aliasCursor_ne_zero aliases
    have hsize := size_erase_generator_le aliases
    have hown := (freeAliasId_room hroom hstart (Nat.lt_add_right 1 (Nat.lt_succ_of_le hsize))).2
    rw [allocAliasId_fst, (freeAliasId_room hroom hstart hfuel).2, hown]
  · exact fun value' hnot hagain => hnot (mem_visited_of_reissued hagain hother)
  · intro hnot hdeleted
    by_contra hlive
    obtain ⟨before, value', after, rfl, hissued⟩ := reissued_of_deleted hid hdeleted hlive
    refine hnot ?_
    rw [List.append_cons, visited_append]
    exact List.mem_append_left _ (mem_visited_of_reissued hissued hother)

/-- A first alias gets id 1; deleted, it is not found while id 7 has not come up. -/
theorem alias_ids_go_round_first :
    (allocAliasId ∅).1 = 1 ∧ (∅ : FMap UInt32 Alias).lookup (allocAliasId ∅).1 = none ∧
      (run ((create (aliasGenerator ∅)).apply ∅) [delete 1]).lookup 1 = none := by
  have hfirst : (allocAliasId ∅).1 = 1 := by decide +kernel
  have hall := alias_ids_go_round ∅
  refine ⟨hfirst, (hall.1 (by decide +kernel)).2.1, ?_⟩
  have hgone := ((hall.2 (aliasGenerator ∅) [delete 1] 7 (by decide)).2 (by decide +kernel))
  rw [hfirst] at hgone
  exact hgone (List.mem_singleton.mpr rfl)

end Ces
