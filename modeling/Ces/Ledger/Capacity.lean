import Ces.Ledger.History

/-!
# Capacity

The configured limits on accounts and assets are tested where a transfer, the work reward and the asset requests
create a cell. A program, a vostro account, a mint and a gossip create theirs without a test. `capacity_of_run`:
as long as those happen below the limits, the limits hold, the server's own account apart.
-/

namespace Ces

open Ces.Lib CesServer

/-- The number of accounts other than `id`. -/
def Cells.others (c : Cells) (id : HashPrefix) : Nat := FMap.size (c.accounts.erase id)

namespace Touch

variable (maxAcc maxAsset : Nat) (serverId : HashPrefix)

/-- The creations that are not counted happen where there is room, or make the server's own account. -/
def InCapacity (t : Touch) (c : Cells) : Prop :=
  match t with
  | .create source key _ _ =>
    source = .transfer ∨ source = .work ∨ getHashPrefix key = serverId ∨
      c.accounts.lookup (getHashPrefix key) ≠ none ∨ c.others serverId < maxAcc
  | .vmCreate key _ => getHashPrefix key = serverId ∨ c.others serverId < maxAcc
  | .createAsset counted _ _ => counted = true ∨ c.assets.size < maxAsset
  | _ => True

instance (t : Touch) (c : Cells) : Decidable (t.InCapacity maxAcc maxAsset serverId c) :=
  match t with
  | .create source key _ _ => inferInstanceAs (Decidable (source = .transfer ∨ source = .work ∨
      getHashPrefix key = serverId ∨ c.accounts.lookup (getHashPrefix key) ≠ none ∨ c.others serverId < maxAcc))
  | .vmCreate key _ => inferInstanceAs (Decidable (getHashPrefix key = serverId ∨ c.others serverId < maxAcc))
  | .createAsset counted _ _ => inferInstanceAs (Decidable (counted = true ∨ c.assets.size < maxAsset))
  | .debit .. | .debitRaw .. | .fine .. | .settle .. | .credit .. | .vmDebit .. | .vmCredit .. | .age .. |
    .rent .. | .expire .. | .reset .. | .writeAsset .. | .dropAsset .. | .generator .. | .createAlias .. |
    .patchAlias .. | .dropAlias .. => .isTrue trivial

end Touch

namespace Cells

variable {c : Cells} {id x : HashPrefix}

theorem others_le_size : c.others id ≤ c.accounts.size := by
  refine FMap.size_le_size fun k hk => ?_
  rw [FMap.lookup_erase_eq] at hk
  split_ifs at hk
  · exact absurd rfl hk
  · exact hk

/-- Changing an account in place makes no new one. -/
theorem others_mapAccount_le (f : Account → Option Account) : (c.mapAccount x f).others id ≤ c.others id := by
  refine FMap.size_le_size fun k hk => ?_
  rw [FMap.lookup_erase_eq] at hk ⊢
  split_ifs at hk ⊢
  · exact absurd rfl hk
  · intro hnone
    rw [lookup_mapAccount] at hk
    split_ifs at hk with hx
    · subst hx
      rw [hnone] at hk
      exact hk rfl
    · exact hk hnone

theorem others_putAccount_le (acc : Account) : (c.putAccount x acc).others id ≤ c.others id + 1 := by
  refine le_trans (FMap.size_le_size fun k hk => ?_) (FMap.size_insert_le (c.accounts.erase id) x acc)
  unfold putAccount at hk
  rw [FMap.lookup_erase_eq, FMap.lookup_insert_eq] at hk
  rw [FMap.lookup_insert_eq, FMap.lookup_erase_eq]
  split_ifs at hk ⊢
  · exact absurd rfl hk
  · exact Option.some_ne_none _
  · exact absurd rfl hk
  · exact hk

/-- An account that takes the place of another, or that is not counted, adds nothing. -/
theorem others_putAccount_of_stored (acc : Account) (h : x = id ∨ c.accounts.lookup x ≠ none) :
    (c.putAccount x acc).others id ≤ c.others id := by
  refine FMap.size_le_size fun k hk => ?_
  unfold putAccount at hk
  rw [FMap.lookup_erase_eq, FMap.lookup_insert_eq] at hk
  rw [FMap.lookup_erase_eq]
  split_ifs at hk ⊢ with hid hx
  · exact absurd rfl hk
  · subst hx
    exact h.resolve_left hid
  · exact hk

end Cells

/-- Room is kept for accounts and assets. -/
def Cells.Within (maxAcc maxAsset : Nat) (serverId : HashPrefix) (c : Cells) : Prop :=
  c.others serverId ≤ maxAcc ∧ c.assets.size ≤ maxAsset

theorem Touch.within_act {reg : Regime} {serverId : HashPrefix} (t : Touch) (c : Cells) (hcan : t.Can reg c)
    (hroom : t.InCapacity reg.maxAcc reg.maxAsset serverId c) (h : c.Within reg.maxAcc reg.maxAsset serverId) :
    (t.act c).Within reg.maxAcc reg.maxAsset serverId := by
  cases t with
  | create source key balance nonce =>
    refine ⟨?_, h.2⟩
    have hput : (c.putAccount (getHashPrefix key) (.ofKey key balance nonce)).others serverId ≤
        c.others serverId + 1 := Cells.others_putAccount_le _
    have hcounted : source = .transfer ∨ source = .work → c.others serverId < reg.maxAcc := fun hsource =>
      lt_of_le_of_lt Cells.others_le_size (hcan.2 hsource)
    rcases hroom with hsource | hsource | hserver | hstored | hless
    · exact hput.trans (hcounted (.inl hsource))
    · exact hput.trans (hcounted (.inr hsource))
    · exact (Cells.others_putAccount_of_stored _ (.inl hserver)).trans h.1
    · exact (Cells.others_putAccount_of_stored _ (.inr hstored)).trans h.1
    · exact hput.trans hless
  | vmCreate key amount =>
    refine ⟨?_, h.2⟩
    rcases hroom with hserver | hless
    · exact (Cells.others_putAccount_of_stored _ (.inl hserver)).trans h.1
    · exact (Cells.others_putAccount_le _).trans hless
  | createAsset counted key asset =>
    have hless : c.assets.size < reg.maxAsset := hroom.elim hcan.2 id
    exact ⟨h.1, (FMap.size_insert_le _ _ _).trans hless⟩
  | writeAsset writer key asset =>
    obtain ⟨old, hold, -⟩ := hcan
    exact ⟨h.1, (le_of_eq (FMap.size_insert_of_some _ hold)).trans h.2⟩
  | dropAsset key =>
    obtain ⟨-, old, hold, -⟩ := hcan
    have hsize := FMap.size_erase_of_some hold
    refine ⟨h.1, le_trans ?_ h.2⟩
    change FMap.size (c.assets.erase key) ≤ c.assets.size
    omega
  | generator al => exact h
  | patchAlias principal id al => exact h
  | _ => exact ⟨(Cells.others_mapAccount_le _).trans h.1, h.2⟩

/-- From an empty store, a history whose uncounted creations happen where there is room never holds more accounts
than configured, the server's own apart, nor more assets. -/
theorem capacity_of_run (exec : CesServer → VmRunRequest → VmProgram) (s : CesServer) (ops : List ServerOp)
    (haccounts : s.accounts.store = ∅) (hassets : s.assets = ∅)
    (hroom : RunMeets exec (Touch.InCapacity s.cfg.maxAcc s.cfg.maxAsset (getHashPrefix s.serverKey)) s ops) :
    (runServer exec s ops).cells.others (getHashPrefix s.serverKey) ≤ s.cfg.maxAcc ∧
      FMap.size (runServer exec s ops).assets ≤ s.cfg.maxAsset := by
  have hempty : s.cells.Within s.cfg.maxAcc s.cfg.maxAsset (getHashPrefix s.serverKey) := by
    have hothers : s.cells.others (getHashPrefix s.serverKey) ≤ s.cells.accounts.size := Cells.others_le_size
    have hnone : s.cells.accounts.size = 0 := by
      change FMap.size s.accounts.store = 0
      rw [haccounts]
      rfl
    have hnone' : s.cells.assets.size = 0 := by
      change FMap.size s.assets = 0
      rw [hassets]
      rfl
    exact ⟨by omega, by omega⟩
  exact history_invariant exec (I := Cells.Within s.cfg.maxAcc s.cfg.maxAsset (getHashPrefix s.serverKey))
    (fun t c hcan hok h => t.within_act c hcan hok h) hroom hempty

/-! ### A program that creates one asset too many -/

/-- Room for one asset. -/
def tightServer : CesServer := .load { CesConfig.stock with maxAsset := 1 } (ByteArr.zero 32) ∅ ∅ ∅

/-- `HOSTV createAsset 3 892 892 1; TERM`: key and content are read from the input. -/
def createCode : Bytes := [46, 0x4E, 0x43, 2, 0x7C, 0x03, 2, 0x7C, 0x03, 0x41, 1]

/-- A mint, and the asset of the program: the store is full. -/
def tightOps : List ServerOp :=
  [.ledger (.brr tallyKey 1000000000),
    .ledger (.createAsset tallyKey (getHashPrefix tallyKey) tallyKey (ByteArr.ofList 210 createCode) 1 1 (-1) (-1))]

theorem capacity_of_run_full :
    (runServer bytecode tightServer tightOps).cells.others (getHashPrefix tightServer.serverKey) ≤ 16777216 ∧
      FMap.size (runServer bytecode tightServer tightOps).assets ≤ 1 :=
  capacity_of_run bytecode tightServer tightOps rfl rfl (by decide +kernel)

/-- The program adds an asset to the full store. -/
theorem program_exceeds_capacity :
    tightServer.accounts.store = ∅ ∧ tightServer.assets = ∅ ∧
      FMap.size (runServer bytecode tightServer tightOps).assets = 1 ∧
      FMap.size (runServer bytecode tightServer
        (tightOps ++ [.ledger (.run 0 (programRequest 2 20000000 (List.replicate 32 3)))])).assets = 2 := by
  refine ⟨rfl, rfl, ?_, ?_⟩ <;> decide +kernel

end Ces
