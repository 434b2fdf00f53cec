import Ces.Ledger.BackgroundTrace

/-!
# The touches of the daily pass

The walks over the accounts, the assets, the aliases and the key names. Each walk carries one or two of the maps;
the others stand still, so that every walk is a fold of `Runs.foldl` seen through its own view of the cells.
-/

namespace Ces

open Ces.Lib CesServer

namespace Sweep

variable (w : Sweep)

/-- The touches of `account`. -/
def accountTouches (fee : UInt64) (id : HashPrefix) : List Touch :=
  match w.accounts.find id with
  | none => []
  | some acc =>
    if acc.getBalance < 0 then
      if acc.nonce ≤ 1 then [.expire id fee] else [.age id]
    else if acc.getBalance ≤ asInt64 fee then [.expire id fee]
    else [.rent id fee]

end Sweep

def sweepAssetTouches (fee : UInt64) (st : Sweep × FMap Hash Asset) (key : Hash) : List Touch :=
  match st.2.lookup key with
  | none => []
  | some asset =>
    let days := assetDays asset.balance
    if days ≤ 1 then
      if isAssetOwnerPays asset.balance && !isAssetOwned asset.balance then
        match st.1.rent asset.ownerId fee with
        | some _ =>
          [.rent asset.ownerId fee, .writeAsset .days key { asset with balance := withDays asset.balance 0 }]
        | none => [.dropAsset key]
      else [.dropAsset key]
    else [.writeAsset .days key { asset with balance := withDays asset.balance (days - 1) }]

def sweepAliasTouches (fee : UInt64) (st : Sweep × FMap UInt32 Alias) (id : UInt32) : List Touch :=
  match st.2.lookup id with
  | none => []
  | some al =>
    if id = 0 then []
    else
      match st.1.accounts.find al.owner with
      | none => [.dropAlias al.owner id]
      | some acc => if acc.getBalance ≤ asInt64 fee then [.dropAlias al.owner id] else [.rent al.owner fee]

def sweepKeyNameTouches (fee : UInt64) (st : KeyNameSweep) (key : Hash) : List Touch :=
  match st.store.lookup key with
  | none => []
  | some name =>
    if name = ByteArr.zero 32 then []
    else
      match st.sweep.rent (getHashPrefix key) fee with
      | some _ => [.rent (getHashPrefix key) fee]
      | none => []

section passes

variable (s : CesServer) (order : DailyOrder)

def sweepAccountsTouches : List Touch :=
  let fee := s.discountFee .accountRent s.cfg.feeAccount
  foldTrace (fun (w : Sweep) id => w.account fee id) (fun w id => w.accountTouches fee id)
    (.start s.accounts) order.accounts

def sweepAssetsTouches : List Touch :=
  let fee := s.discountFee .assetRent s.cfg.feeAsset
  foldTrace (sweepAsset fee) (sweepAssetTouches fee) (.start s.accounts, s.assets) order.assets

def sweepAliasesTouches : List Touch :=
  let fee := s.discountFee .accountRent s.cfg.feeAlias
  foldTrace (sweepAlias fee) (sweepAliasTouches fee) (.start s.accounts, s.aliases) order.aliases

def sweepKeyNamesTouches : List Touch :=
  let fee := s.discountFee .accountRent s.cfg.feeKeyName
  foldTrace (sweepKeyName fee) (sweepKeyNameTouches fee) ⟨.start s.accounts, s.keyNames.store, 0⟩ order.keyNames

def dailyTouches : List Touch :=
  let s1 := sweepAccounts s order
  let s2 := sweepAssets s1 order
  let s3 := sweepAliases s2 order
  let s4 := sweepKeyNames s3 order
  sweepAccountsTouches s order ++ sweepAssetsTouches s1 order ++ sweepAliasesTouches s2 order ++
    sweepKeyNamesTouches s3 order ++ s4.accounts.topUpTouches s4.serverKey

end passes

/-! ### One step of a walk -/

section steps

/-- The cells during a walk over the accounts. -/
def Sweep.cells (w : Sweep) (assets : FMap Hash Asset) (aliases : FMap UInt32 Alias) : Cells :=
  ⟨w.accounts.store, assets, aliases⟩

variable {reg : Regime} (hday : reg.daily = true) {w w' : Sweep} {fee : UInt64} (hfee : fee.toNat < 2 ^ 51)
  {assets : FMap Hash Asset} {aliases : FMap UInt32 Alias}
include hday hfee

namespace Sweep

theorem touched_charge {id : HashPrefix} {acc : Account} (hfind : w.accounts.find id = some acc)
    (hpays : asInt64 fee < acc.getBalance) :
    Touched reg (w.cells assets aliases) [.rent id fee] ((w.charge id acc fee).cells assets aliases) := by
  have hlookup : (w.cells assets aliases).accounts.lookup id = some acc := hfind
  exact .of_act ⟨hday, hfee, acc, hlookup, hpays⟩ (Cells.mapAccount_of_some hlookup rfl)

theorem touched_account (id : HashPrefix) :
    Touched reg (w.cells assets aliases) (w.accountTouches fee id) ((w.account fee id).cells assets aliases) := by
  unfold accountTouches account
  cases hfind : w.accounts.find id with
  | none => exact .nil _
  | some acc =>
    have hlookup : (w.cells assets aliases).accounts.lookup id = some acc := hfind
    have herase : (w.cells assets aliases).mapAccount id (fun _ => none) =
        ⟨w.accounts.store.erase id, assets, aliases⟩ := by
      unfold Cells.mapAccount
      rw [FMap.alter_of_some _ hlookup]
      rfl
    dsimp only
    by_cases hneg : acc.getBalance < 0
    · rw [if_pos hneg, if_pos hneg]
      split_ifs with hlast
      · exact .of_act ⟨hday, acc, hlookup, .inl ⟨hneg, hlast⟩⟩ herase
      · exact .of_act ⟨hday, acc, hlookup, hneg⟩ (Cells.mapAccount_of_some hlookup rfl)
    · rw [if_neg hneg, if_neg hneg]
      by_cases hpoor : acc.getBalance ≤ asInt64 fee
      · rw [if_pos hpoor, if_pos hpoor]
        exact .of_act ⟨hday, acc, hlookup, .inr ⟨not_lt.mp hneg, hpoor⟩⟩ herase
      · rw [if_neg hpoor, if_neg hpoor]
        exact touched_charge hday hfee hfind (not_le.mp hpoor)

theorem touched_rent {owner : HashPrefix} (hrent : w.rent owner fee = some w') :
    Touched reg (w.cells assets aliases) [.rent owner fee] (w'.cells assets aliases) := by
  unfold rent at hrent
  cases hfind : w.accounts.find owner with
  | none =>
    rw [hfind] at hrent
    cases hrent
  | some acc =>
    rw [hfind] at hrent
    dsimp only at hrent
    by_cases hpoor : acc.getBalance ≤ asInt64 fee
    · rw [if_pos hpoor] at hrent
      cases hrent
    · rw [if_neg hpoor] at hrent
      cases hrent
      exact touched_charge hday hfee hfind (not_le.mp hpoor)

end Sweep

theorem touched_sweepAsset (st : Sweep × FMap Hash Asset) (key : Hash) :
    Touched reg (st.1.cells st.2 aliases) (sweepAssetTouches fee st key)
      ((sweepAsset fee st key).1.cells (sweepAsset fee st key).2 aliases) := by
  unfold sweepAssetTouches sweepAsset
  cases hasset : st.2.lookup key with
  | none => exact .nil _
  | some asset =>
    dsimp only
    split_ifs with hdays hpays
    · cases hrent : st.1.rent asset.ownerId fee with
      | none => exact .single ⟨hday, asset, hasset, hdays⟩
      | some w =>
        refine (Sweep.touched_rent hday hfee hrent).append ?_
        exact .single ⟨asset, hasset, _, rfl⟩
    · exact .single ⟨hday, asset, hasset, hdays⟩
    · exact .single ⟨asset, hasset, _, rfl⟩

theorem touched_sweepAlias (st : Sweep × FMap UInt32 Alias) (id : UInt32) :
    Touched reg (st.1.cells assets st.2) (sweepAliasTouches fee st id)
      ((sweepAlias fee st id).1.cells assets (sweepAlias fee st id).2) := by
  unfold sweepAliasTouches sweepAlias
  cases hal : st.2.lookup id with
  | none => exact .nil _
  | some al =>
    dsimp only
    by_cases hzero : id = 0
    · rw [if_pos hzero, if_pos hzero]
      exact .nil _
    rw [if_neg hzero, if_neg hzero]
    have hcan : Touch.Can reg (.dropAlias al.owner id) (st.1.cells assets st.2) :=
      ⟨hzero, al, hal, .inl rfl⟩
    cases hfind : st.1.accounts.find al.owner with
    | none =>
      refine .of_act hcan ?_
      have hlookup : (st.1.cells assets st.2).accounts.lookup al.owner = none := hfind
      have hsame := Cells.mapAccount_of_none hlookup (Touch.unlinked id)
      unfold Touch.act
      dsimp only
      rw [hsame]
      rfl
    | some acc =>
      dsimp only
      by_cases hpoor : acc.getBalance ≤ asInt64 fee
      · rw [if_pos hpoor, if_pos hpoor]
        refine .of_act hcan ?_
        have hstore : (if acc.aliasId = id then st.1.accounts.setAliasId al.owner 0 else st.1.accounts).store =
            st.1.accounts.store.alter al.owner (Touch.unlinked id) := by
          rw [FMap.alter_of_some _ hfind]
          unfold Touch.unlinked
          split_ifs
          · rw [Accounts.store_setAliasId, FMap.alter_of_some _ hfind]
          · exact (FMap.insert_of_lookup hfind).symm
        exact congrArg (fun store => Cells.mk store assets (st.2.erase id)) hstore.symm
      · rw [if_neg hpoor, if_neg hpoor]
        exact Sweep.touched_charge hday hfee hfind (not_le.mp hpoor)

theorem touched_sweepKeyName (st : KeyNameSweep) (key : Hash) :
    Touched reg (st.sweep.cells assets aliases) (sweepKeyNameTouches fee st key)
      ((sweepKeyName fee st key).sweep.cells assets aliases) := by
  unfold sweepKeyNameTouches sweepKeyName
  cases st.store.lookup key with
  | none => exact .nil _
  | some name =>
    dsimp only
    split_ifs
    · exact .nil _
    · cases hrent : st.sweep.rent (getHashPrefix key) fee with
      | none => exact .nil _
      | some w => exact Sweep.touched_rent hday hfee hrent

end steps

/-! ### The pass -/

section passes

variable {reg : Regime} (hday : reg.daily = true) (s : CesServer) (order : DailyOrder)
include hday

theorem touched_sweepAccounts :
    Touched reg s.cells (sweepAccountsTouches s order) (sweepAccounts s order).cells :=
  Runs.foldl (fun w : Sweep => w.cells s.assets s.aliases)
    (fun _ id => Sweep.touched_account hday (s.discountFee_lt _ _) id) order.accounts (.start s.accounts)

theorem touched_sweepAssets : Touched reg s.cells (sweepAssetsTouches s order) (sweepAssets s order).cells :=
  Runs.foldl (fun st : Sweep × FMap Hash Asset => st.1.cells st.2 s.aliases)
    (fun st key => touched_sweepAsset hday (s.discountFee_lt _ _) st key) order.assets (.start s.accounts, s.assets)

theorem touched_sweepAliases : Touched reg s.cells (sweepAliasesTouches s order) (sweepAliases s order).cells :=
  Runs.foldl (fun st : Sweep × FMap UInt32 Alias => st.1.cells s.assets st.2)
    (fun st id => touched_sweepAlias hday (s.discountFee_lt _ _) st id) order.aliases (.start s.accounts, s.aliases)

theorem touched_sweepKeyNames :
    Touched reg s.cells (sweepKeyNamesTouches s order) (sweepKeyNames s order).cells :=
  Runs.foldl (fun st : KeyNameSweep => st.sweep.cells s.assets s.aliases)
    (fun st key => touched_sweepKeyName hday (s.discountFee_lt _ _) st key) order.keyNames
    ⟨.start s.accounts, s.keyNames.store, 0⟩

theorem touched_dailyTaskTick : Touched reg s.cells (dailyTouches s order) (dailyTaskTick s order).cells := by
  have haccounts := touched_sweepAccounts hday s order
  have hassets := touched_sweepAssets hday (sweepAccounts s order) order
  have haliases := touched_sweepAliases hday (sweepAssets (sweepAccounts s order) order) order
  have hnames := touched_sweepKeyNames hday (sweepAliases (sweepAssets (sweepAccounts s order) order) order) order
  exact (((haccounts.append hassets).append haliases).append hnames).append (touched_topUp reg _)

end passes

end Ces
