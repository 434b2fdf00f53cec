import Ces.Ledger.Cells
import Ces.Vm.Trace

/-!
# The touches of the signed operations

For each operation the list of cells it writes, and that these writes are what it does. `spendTouches` and
`paidTouches` follow `spend` and `paidOp`: a refused request costs the error fee or nothing, an accepted one makes
its own writes and the debit.
-/

namespace Ces

open Ces.Lib CesServer

theorem Accounts.validateSpend_refused {a : Accounts} {id : HashPrefix} {amount fee : UInt64} {reqNonce : UInt32}
    {errFee : Int} (h : (a.validateSpend id amount fee reqNonce errFee).1 ≠ .ok) :
    (a.validateSpend id amount fee reqNonce errFee).2 = a.chargeError id errFee := by
  unfold validateSpend at h ⊢
  cases hfind : a.find id with
  | none => simp [chargeError, hfind]
  | some acc =>
    rw [hfind] at h
    dsimp only at h ⊢
    split_ifs at h ⊢ with hwide hpoor hnonce
    · rfl
    · rfl
    · rfl
    · exact absurd rfl h

namespace CesServer

variable (s : CesServer) (origin : HashPrefix)

/-- The error fee, or what an accepted spend goes on to do. -/
def spendTouches (amount fee : UInt64) (reqNonce : UInt32) (errFee : Int) (next : List Touch) : List Touch :=
  if (s.accounts.validateSpend origin amount fee reqNonce errFee).1 = .ok then next else [.fine origin errFee]

def paidTouches (cost : UInt64) (reqNonce : UInt32) (errFee : Int) (outcome : Outcome) (writes : List Touch) :
    List Touch :=
  s.spendTouches origin 0 cost reqNonce errFee <|
    match outcome with
    | .refused _ => []
    | .charged _ => [.fine origin errFee]
    | .accepted _ => writes ++ [.debit origin cost none]

variable {s origin} (reg : Regime)

theorem touched_fine (errFee : Int) : Touched reg s.cells [.fine origin errFee]
    (s.chargeError origin errFee).cells := by
  refine .of_act trivial ?_
  exact congrArg (fun st => Cells.mk st s.assets s.aliases) (s.accounts.store_chargeError _ _).symm

variable {reg} {amount fee cost : UInt64} {reqNonce : UInt32} {errFee : Int}

theorem touched_spendOr {β : Type} (view : β → Cells) {fail : Rc → CesServer → β} {next : β} {ts : List Touch}
    (hfail : ∀ rc t, view (fail rc t) = t.cells)
    (hnext : s.accounts.Covers origin amount fee → Touched reg s.cells ts (view next)) :
    Touched reg s.cells (s.spendTouches origin amount fee reqNonce errFee ts)
      (view (s.spendOr origin amount fee reqNonce errFee fail next)) := by
  unfold spendTouches spendOr
  rcases hv : s.accounts.validateSpend origin amount fee reqNonce errFee with ⟨rc, a⟩
  by_cases hrc : rc = .ok
  · subst hrc
    have hcovers : s.accounts.Covers origin amount fee := by
      rcases s.accounts.validateSpend_cases origin amount fee reqNonce errFee with
        ⟨rc, hne, heq⟩ | ⟨rc, hne, heq⟩ | ⟨-, hcovers⟩
      · rw [hv] at heq
        exact absurd (congrArg Prod.fst heq).symm hne
      · rw [hv] at heq
        exact absurd (congrArg Prod.fst heq).symm hne
      · exact hcovers
    exact hnext hcovers
  · have hcharged : a = s.accounts.chargeError origin errFee := by
      have hrefused : (s.accounts.validateSpend origin amount fee reqNonce errFee).2 = _ :=
        Accounts.validateSpend_refused (by rwa [hv])
      rwa [hv] at hrefused
    subst hcharged
    rw [if_neg hrc]
    have hcells : ∀ rc', view (fail rc' { s with accounts := s.accounts.chargeError origin errFee }) =
        (s.chargeError origin errFee).cells := fun rc' => hfail rc' _
    cases rc with
    | ok => exact absurd rfl hrc
    | _ =>
      dsimp only
      rw [hcells]
      exact touched_fine reg errFee

theorem touched_spend {next : Rc × CesServer} {ts : List Touch}
    (hnext : s.accounts.Covers origin amount fee → Touched reg s.cells ts next.2.cells) :
    Touched reg s.cells (s.spendTouches origin amount fee reqNonce errFee ts)
      (s.spend origin amount fee reqNonce errFee next).2.cells :=
  touched_spendOr (fun r : Rc × CesServer => r.2.cells) (fun _ _ => rfl) hnext

/-- The writes of an accepted operation leave the payer's balance for the debit. -/
theorem touched_paidOp {outcome : Outcome} {writes : List Touch}
    (hwrites : ∀ t, outcome = .accepted t → s.accounts.Covers origin 0 cost →
      Touched reg s.cells writes t.cells ∧
        (t.accounts.find origin).map Account.getBalance = (s.accounts.find origin).map Account.getBalance) :
    Touched reg s.cells (s.paidTouches origin cost reqNonce errFee outcome writes)
      (s.paidOp origin cost reqNonce errFee outcome).2.cells := by
  refine touched_spend fun hcovers => ?_
  cases outcome with
  | refused rc => exact .nil _
  | charged rc => exact touched_fine reg errFee
  | accepted t =>
    obtain ⟨hwrote, hpayer⟩ := hwrites t rfl hcovers
    have hsmall : cost.toNat < 2 ^ 63 := by simpa using hcovers.total_lt
    have hcovered := hcovers.covered
    obtain ⟨acc, hacc⟩ := Option.ne_none_iff_exists'.mp hcovers.found
    rw [hacc, Option.map_some, Option.map_eq_some_iff] at hpayer
    obtain ⟨acc', hacc', hbal⟩ := hpayer
    refine hwrote.append (touched_debit reg t hacc' ?_)
    rw [asInt64_of_lt hsmall, hbal, ← Accounts.balance_of_find hacc]
    simpa using hcovered

/-- The same when no account is written before the debit. -/
theorem touched_paidOp_of_same {outcome : Outcome} {writes : List Touch}
    (hwrites : ∀ t, outcome = .accepted t → Touched reg s.cells writes t.cells ∧ t.accounts = s.accounts) :
    Touched reg s.cells (s.paidTouches origin cost reqNonce errFee outcome writes)
      (s.paidOp origin cost reqNonce errFee outcome).2.cells := by
  refine touched_paidOp fun t ht _ => ?_
  obtain ⟨hwrote, hsame⟩ := hwrites t ht
  exact ⟨hwrote, by rw [hsame]⟩

end CesServer

/-! ### Assets -/

section assets

variable (s : CesServer) (originKey assetId : Hash) (providedNonce : UInt32)

def createAssetTouches (ownerId : HashPrefix) (content : AssetData) (balance : UInt16) (rentFee errFee : Int) :
    List Touch :=
  let cost := s.attenuatedFundCost .assetRent (resolveFee rentFee (asInt64 s.cfg.feeAsset))
    (2 + (assetDays balance).toUInt32) 0
  let asset : Asset := ⟨ownerId, content, VmHost.newAssetBalance balance false, 0⟩
  if assetId = ByteArr.zero 32 then []
  else
    s.paidTouches (getHashPrefix originKey) cost providedNonce (s.errorFee errFee)
      (if (s.assets.lookup assetId).isSome then .charged .assetExists
      else if s.cfg.maxAsset ≤ s.assets.size then .refused .internal
      else .accepted { s with assets := s.assets.insert assetId asset })
      [.createAsset true assetId asset]

def createAssetRangeTouches (ownerId : HashPrefix) (firstKey : Hash) (count : UInt32) (days : UInt16)
    (rentFee errFee : Int) : List Touch :=
  let perCell := s.attenuatedFundCost .assetRent (resolveFee rentFee (asInt64 s.cfg.feeAsset))
    (2 + (assetDays days).toUInt32) 0
  if s.accounts.find (getHashPrefix originKey) = none then []
  else if count = 0 ∨ cesvmMaxAssetRange < count.toNat ∨ firstKey = ByteArr.zero 32 then []
  else
    s.paidTouches (getHashPrefix originKey) (perCell * count.toUInt64) providedNonce (s.errorFee errFee)
      (if s.cfg.maxAsset < s.assets.size + count.toNat then .charged .internal
      else if (List.range count.toNat).any fun i =>
          (s.assets.lookup (VmHost.rangeSetCellIndex firstKey i)).isSome then .charged .assetExists
      else .accepted { s with assets := insertRange s.assets ownerId firstKey count.toNat days })
      (VmHost.rangeTouches true ownerId firstKey count.toNat days)

/-- A change by the owner. -/
def changeOwnedTouches (writer : HashPrefix → AssetWriter) (cost : UInt64) (errFee : Int) (sealable : Bool)
    (change : Asset → Asset) : List Touch :=
  let origin := getHashPrefix originKey
  s.paidTouches origin cost providedNonce (s.errorFee errFee) (changeOwned s origin assetId sealable change)
    ((s.assets.lookup assetId).elim [] fun asset => [.writeAsset (writer origin) assetId (change asset)])

def fundAssetTouches (balance : UInt16) (fundFee rentFee errFee : Int) : List Touch :=
  let held := (s.assets.lookup assetId).elim 0 fun asset => (assetDays asset.balance).toNat
  let granted := min 0x0FFF (held + balance.toNat) - held
  let rentCost := s.attenuatedFundCost .assetRent (resolveFee rentFee (asInt64 s.cfg.feeAsset))
    (UInt32.ofNat granted) (UInt32.ofNat held)
  let funded (asset : Asset) : Asset :=
    { asset with
      balance := withDays asset.balance
        (UInt16.ofNat (min ((assetDays asset.balance).toNat + balance.toNat) 0x0FFF)) }
  s.paidTouches (getHashPrefix originKey)
    (rentCost + asUInt64 (s.discountedFlatFee fundFee s.cfg.feeTx .tx)) providedNonce (s.errorFee errFee)
    (match s.assets.lookup assetId with
    | none => .charged .assetNotFound
    | some asset => .accepted { s with assets := s.assets.insert assetId (funded asset) })
    ((s.assets.lookup assetId).elim [] fun asset => [.writeAsset .days assetId (funded asset)])

def buyAtTouches (buyer : HashPrefix) (asset : Asset) (price fee : UInt64) (errFee : Int) : List Touch :=
  s.spendTouches buyer price fee providedNonce errFee <|
    if creditWouldOverflow (s.accounts.balance asset.ownerId) price ∧ s.accounts.find asset.ownerId ≠ none then
      [.fine buyer errFee]
    else
      [.debit buyer (price + fee) none, .credit .sale asset.ownerId price,
        .writeAsset (.buyer buyer) assetId (transferOwnership buyer asset)]

def buyAssetTouches (priceLimit : UInt64) (buyFee errFee : Int) : List Touch :=
  let buyer := getHashPrefix originKey
  let errFee := s.errorFee errFee
  if s.accounts.find buyer = none then []
  else
    match s.assets.lookup assetId with
    | none => [.fine buyer errFee]
    | some asset =>
      if asset.ownerId = buyer ∨ storedToRealPrice asset.price = 0 ∨ priceLimit < storedToRealPrice asset.price then
        [.fine buyer errFee]
      else
        buyAtTouches s assetId providedNonce buyer asset (storedToRealPrice asset.price)
          (asUInt64 (s.discountedFlatFee buyFee s.cfg.feeTx .tx)) errFee

variable (reg : Regime)

theorem touched_createAsset (ownerId : HashPrefix) (content : AssetData) (balance : UInt16)
    (rentFee errFee : Int) :
    Touched s.regime s.cells
      (createAssetTouches s originKey assetId providedNonce ownerId content balance rentFee errFee)
      (createAsset s originKey ownerId assetId content balance providedNonce rentFee errFee).2.cells := by
  unfold createAssetTouches createAsset
  dsimp only
  by_cases hzero : assetId = ByteArr.zero 32
  · rw [if_pos hzero, if_pos hzero]
    exact .nil _
  · rw [if_neg hzero, if_neg hzero]
    refine touched_paidOp_of_same fun t ht => ?_
    split_ifs at ht with hexists hfull
    cases ht
    exact ⟨.single ⟨Option.not_isSome_iff_eq_none.mp hexists, fun _ => not_le.mp hfull⟩, rfl⟩

theorem touched_createAssetRange (ownerId : HashPrefix) (firstKey : Hash) (count : UInt32) (days : UInt16)
    (rentFee errFee : Int) :
    Touched s.regime s.cells
      (createAssetRangeTouches s originKey providedNonce ownerId firstKey count days rentFee errFee)
      (createAssetRange s originKey ownerId firstKey count days providedNonce rentFee errFee).2.cells := by
  unfold createAssetRangeTouches createAssetRange
  dsimp only
  by_cases horigin : s.accounts.find (getHashPrefix originKey) = none
  · rw [if_pos horigin, if_pos horigin]
    exact .nil _
  rw [if_neg horigin, if_neg horigin]
  by_cases hbad : count = 0 ∨ cesvmMaxAssetRange < count.toNat ∨ firstKey = ByteArr.zero 32
  · rw [if_pos hbad, if_pos hbad]
    exact .nil _
  · rw [if_neg hbad, if_neg hbad]
    refine touched_paidOp_of_same fun t ht => ?_
    split_ifs at ht with hfull hexists
    cases ht
    refine ⟨VmHost.touched_range s.regime true ownerId firstKey count.toNat days _ List.nodup_range ?_ s.cells ?_ ?_,
      rfl⟩
    · intro i hi
      have hcount := count.toNat_lt
      have := List.mem_range.mp hi
      omega
    · intro i hi
      by_contra hsome
      exact hexists (List.any_eq_true.mpr ⟨i, hi, Option.isSome_iff_ne_none.mpr hsome⟩)
    · intro _
      rw [List.length_range]
      exact not_lt.mp hfull

theorem touched_changeOwned {writer : HashPrefix → AssetWriter} {cost : UInt64} {errFee : Int} {sealable : Bool}
    {change : Asset → Asset}
    (hmay : ∀ asset, asset.ownerId = getHashPrefix originKey →
      (sealable = true → isAssetImmutable asset.balance = false) →
      (writer (getHashPrefix originKey)).May asset (change asset)) :
    Touched reg s.cells
      (changeOwnedTouches s originKey assetId providedNonce writer cost errFee sealable change)
      (s.paidOp (getHashPrefix originKey) cost providedNonce (s.errorFee errFee)
        (changeOwned s (getHashPrefix originKey) assetId sealable change)).2.cells := by
  refine touched_paidOp_of_same fun t ht => ⟨?_, changeOwned_accounts ht⟩
  unfold changeOwned at ht
  cases hasset : s.assets.lookup assetId with
  | none =>
    rw [hasset] at ht
    cases ht
  | some asset =>
    rw [hasset] at ht
    dsimp only at ht
    split_ifs at ht with howner hsealed
    cases ht
    refine .single ⟨asset, hasset, hmay asset (not_not.mp howner) fun hseal => ?_⟩
    rw [hseal] at hsealed
    simpa using hsealed

theorem touched_fundAsset (balance : UInt16) (fundFee rentFee errFee : Int) :
    Touched reg s.cells (fundAssetTouches s originKey assetId providedNonce balance fundFee rentFee errFee)
      (fundAsset s originKey assetId balance providedNonce fundFee rentFee errFee).2.cells := by
  unfold fundAssetTouches fundAsset
  refine touched_paidOp_of_same fun t ht => ?_
  cases hasset : s.assets.lookup assetId with
  | none =>
    rw [hasset] at ht
    cases ht
  | some asset =>
    rw [hasset] at ht
    cases ht
    exact ⟨.single ⟨asset, hasset, _, rfl⟩, rfl⟩

theorem touched_buyAt {buyer : HashPrefix} {asset : Asset} {price fee : UInt64} {errFee : Int}
    (hasset : s.assets.lookup assetId = some asset) (hprice : asset.price ≠ 0) :
    Touched reg s.cells (buyAtTouches s assetId providedNonce buyer asset price fee errFee)
      (buyAt s buyer assetId asset price fee providedNonce errFee).2.cells := by
  refine touched_spend fun hcovers => ?_
  split_ifs
  · exact touched_fine reg errFee
  · have hsum := hcovers.toNat_add
    obtain ⟨acc, hacc⟩ := Option.ne_none_iff_exists'.mp hcovers.found
    have hcovered : asInt64 (price + fee) ≤ acc.getBalance := by
      rw [asInt64_of_lt (by rw [hsum]; exact hcovers.total_lt), hsum, ← Accounts.balance_of_find hacc]
      exact hcovers.covered
    refine (touched_debit reg s hacc hcovered).append (.cons (fun hsource => absurd hsource (by decide)) ?_)
    refine .of_act ⟨asset, hasset, hprice, rfl⟩ ?_
    unfold payForAsset CesServer.cells
    rw [Accounts.store_credit]
    rfl

theorem storedToRealPrice_zero : storedToRealPrice 0 = 0 := by decide

theorem touched_buyAsset (priceLimit : UInt64) (buyFee errFee : Int) :
    Touched reg s.cells (buyAssetTouches s originKey assetId providedNonce priceLimit buyFee errFee)
      (buyAsset s originKey assetId priceLimit providedNonce buyFee errFee).2.cells := by
  unfold buyAssetTouches buyAsset
  dsimp only
  by_cases hbuyer : s.accounts.find (getHashPrefix originKey) = none
  · rw [if_pos hbuyer, if_pos hbuyer]
    exact .nil _
  rw [if_neg hbuyer, if_neg hbuyer]
  cases hasset : s.assets.lookup assetId with
  | none => exact touched_fine reg _
  | some asset =>
    dsimp only
    have hstored : storedToRealPrice asset.price ≠ 0 → asset.price ≠ 0 := by
      intro hreal hzero
      rw [hzero] at hreal
      exact hreal storedToRealPrice_zero
    generalize storedToRealPrice asset.price = price at hstored
    by_cases howner : asset.ownerId = getHashPrefix originKey
    · rw [if_pos (.inl howner), if_pos howner]
      exact touched_fine reg _
    rw [if_neg howner]
    by_cases hsale : price = 0
    · rw [if_pos (.inr (.inl hsale)), if_pos hsale]
      exact touched_fine reg _
    rw [if_neg hsale]
    by_cases hlimit : priceLimit < price
    · rw [if_pos (.inr (.inr hlimit)), if_pos hlimit]
      exact touched_fine reg _
    · rw [if_neg hlimit, if_neg (by simp [howner, hsale, hlimit])]
      exact touched_buyAt s assetId providedNonce reg hasset (hstored hsale)

end assets

/-! ### Alias ids -/

theorem bumpAliasId_ne_zero (id : UInt32) : bumpAliasId id ≠ 0 := by
  unfold bumpAliasId
  split_ifs with hmax
  · decide
  · intro hzero
    have hnat := congrArg UInt32.toNat hzero
    have hne : id.toNat ≠ 4294967295 := fun h => hmax (UInt32.toNat_inj.mp h)
    have hlt := id.toNat_lt
    rw [UInt32.toNat_add] at hnat
    change (id.toNat + 1) % 2 ^ 32 = 0 at hnat
    omega

/-- The ids go round through all but zero. -/
theorem bumpAliasId_toNat {id : UInt32} (hid : id ≠ 0) :
    (bumpAliasId id).toNat = id.toNat % (2 ^ 32 - 1) + 1 := by
  have hpos : 0 < id.toNat := Nat.pos_of_ne_zero fun h => hid (UInt32.toNat_inj.mp h)
  have hlt := id.toNat_lt
  unfold bumpAliasId
  split_ifs with hmax
  · rw [hmax]
    rfl
  · have hne : id.toNat ≠ 4294967295 := fun h => hmax (UInt32.toNat_inj.mp h)
    rw [UInt32.toNat_add]
    change (id.toNat + 1) % 2 ^ 32 = _
    omega

theorem bumpAliasId_iterate {id : UInt32} (hid : id ≠ 0) (k : Nat) :
    bumpAliasId^[k] id ≠ 0 ∧ (bumpAliasId^[k] id).toNat = (id.toNat - 1 + k) % (2 ^ 32 - 1) + 1 := by
  have hpos : 0 < id.toNat := Nat.pos_of_ne_zero fun h => hid (UInt32.toNat_inj.mp h)
  have hlt := id.toNat_lt
  induction k with
  | zero =>
    refine ⟨hid, ?_⟩
    rw [Function.iterate_zero_apply]
    omega
  | succ k ih =>
    rw [Function.iterate_succ_apply']
    refine ⟨bumpAliasId_ne_zero _, ?_⟩
    rw [bumpAliasId_toNat ih.1, ih.2]
    omega

/-- An id that is not free when the search ends was preceded by occupied ones only. -/
theorem freeAliasId_occupied {aliases : FMap UInt32 Alias} {fuel : Nat} {id : UInt32} (hid : id ≠ 0)
    (hoccupied : aliases.lookup (freeAliasId aliases fuel id) ≠ none) :
    ∀ k < fuel, aliases.lookup (bumpAliasId^[k] id) ≠ none := by
  induction fuel generalizing id with
  | zero => exact fun k hk => absurd hk (Nat.not_lt_zero k)
  | succ fuel ih =>
    rw [freeAliasId] at hoccupied
    by_cases htaken : id = 0 ∨ (aliases.lookup id).isSome
    · rw [if_pos htaken] at hoccupied
      intro k hk
      cases k with
      | zero => exact Option.isSome_iff_ne_none.mp (htaken.resolve_left hid)
      | succ k =>
        rw [Function.iterate_succ_apply]
        exact ih (bumpAliasId_ne_zero id) hoccupied k (by omega)
    · rw [if_neg htaken] at hoccupied
      exact absurd (.inr (Option.isSome_iff_ne_none.mpr hoccupied)) htaken

theorem freeAliasId_ne_zero (aliases : FMap UInt32 Alias) (fuel : Nat) {id : UInt32} (hid : id ≠ 0) :
    freeAliasId aliases fuel id ≠ 0 := by
  induction fuel generalizing id with
  | zero => exact hid
  | succ fuel ih =>
    unfold freeAliasId
    split_ifs
    · exact ih (bumpAliasId_ne_zero id)
    · exact hid

/-- While ids are left, the search finds one: it looks at more ids than there are cells of aliases. -/
theorem freeAliasId_free {aliases : FMap UInt32 Alias} {id : UInt32} (hid : id ≠ 0) {fuel : Nat}
    (hlive : FMap.size (aliases.erase 0) < fuel) (hfuel : fuel < 2 ^ 32) :
    aliases.lookup (freeAliasId aliases fuel id) = none := by
  by_contra hoccupied
  have hall := freeAliasId_occupied hid hoccupied
  have hinj : ∀ i < fuel, ∀ j < fuel, bumpAliasId^[i] id = bumpAliasId^[j] id → i = j := by
    intro i hi j hj hsame
    have hnat := congrArg UInt32.toNat hsame
    rw [(bumpAliasId_iterate hid i).2, (bumpAliasId_iterate hid j).2] at hnat
    omega
  have hnodup : ((List.range fuel).map fun k => bumpAliasId^[k] id).Nodup :=
    (List.nodup_map_iff_inj_on List.nodup_range).mpr fun i hi j hj =>
      hinj i (List.mem_range.mp hi) j (List.mem_range.mp hj)
  have hcount := FMap.length_le_size (m := aliases.erase 0) hnodup fun k hk => by
    obtain ⟨i, hi, rfl⟩ := List.mem_map.mp hk
    rw [FMap.lookup_erase_eq, if_neg (bumpAliasId_iterate hid i).1]
    exact hall i (List.mem_range.mp hi)
  rw [List.length_map, List.length_range] at hcount
  omega

/-- The generator cell is not counted among the aliases. -/
theorem size_erase_generator_le (aliases : FMap UInt32 Alias) : FMap.size (aliases.erase 0) ≤ aliases.size := by
  refine FMap.size_le_size fun id hlive => ?_
  rw [FMap.lookup_erase_eq] at hlive
  split_ifs at hlive with hzero
  · exact absurd rfl hlive
  · exact hlive

/-! ### Aliases and key names -/

theorem Accounts.store_setAliasId (a : Accounts) (id : HashPrefix) (aliasId : UInt32) :
    (a.setAliasId id aliasId).store = a.store.alter id fun acc => some { acc with aliasId := aliasId } := by
  unfold setAliasId
  cases hfind : a.find id with
  | none => rw [FMap.alter_of_none _ hfind]
  | some acc =>
    rw [FMap.alter_of_some _ hfind]
    rfl

theorem Accounts.find_setAliasId (a : Accounts) (id : HashPrefix) (aliasId : UInt32) :
    ((a.setAliasId id aliasId).find id).map Account.getBalance = (a.find id).map Account.getBalance := by
  have hlookup := FMap.lookup_alter a.store id id fun acc => some { acc with aliasId := aliasId }
  unfold find
  rw [store_setAliasId, hlookup, if_pos rfl]
  cases a.store.lookup id <;> rfl

section aliases

variable (s : CesServer) (originKey : Hash) (providedNonce : UInt32)

/-- The writes of an accepted patch. -/
def commitTouches (origin : HashPrefix) (create : Bool) (targetId : UInt32) (next : Alias) : List Touch :=
  if !create then [.patchAlias origin targetId next]
  else
    let gen := aliasGenerator s.aliases
    let id := (allocAliasId s.aliases).1
    [.generator { gen with content := gen.content.patch 0 (leBytes 4 (bumpAliasId id).toNat) },
      .createAlias id next]

def setAliasTouches (aliasId : UInt32) (offset : UInt16) (bytes : Bytes) (fee errFee : Int) : List Touch :=
  let origin := getHashPrefix originKey
  match s.accounts.find origin with
  | none => []
  | some acc =>
    if offset.toNat < aliasPatchMinOwner ∨ aliasValueBytes < offset.toNat + bytes.length then []
    else
      match aliasTarget s origin acc aliasId offset with
      | .error _ => []
      | .ok (create, targetId, old) =>
        let next := Alias.ofImage (old.image.patch offset.toNat bytes)
        if !VmHost.hookTargetOk s next origin then []
        else
          s.paidTouches origin (asUInt64 (s.discountedFlatFee fee s.cfg.feeAlias .accountRent)) providedNonce
            (s.errorFee errFee) (commitAlias s origin create targetId next)
            (commitTouches s origin create targetId next)

def deleteAliasTouches (errFee : Int) : List Touch :=
  let origin := getHashPrefix originKey
  let id := (s.accounts.find origin).elim 0 (·.aliasId)
  s.paidTouches origin (asUInt64 (s.discountedFlatFee (-1) s.cfg.feeQuery .query)) providedNonce (s.errorFee errFee)
    (if id = 0 ∨ s.aliases.lookup id = none then .charged .aliasNotFound
    else .accepted { s with aliases := s.aliases.erase id, accounts := s.accounts.setAliasId origin 0 })
    [.dropAlias origin id]

def registerKeyNameTouches (name : Bytes) (errFee : Int) : List Touch :=
  s.paidTouches (getHashPrefix originKey) (asUInt64 (s.discountedFlatFee (-1) s.cfg.feeKeyName .accountRent))
    providedNonce (s.errorFee errFee)
    (match s.keyNames.registerName originKey (ByteArr.ofList 32 name) s.cfg.maxKeyName with
    | (.ok, names) => .accepted { s with keyNames := names }
    | (res, _) => .charged (registerCode res)) []

def clearKeyNameTouches (errFee : Int) : List Touch :=
  s.paidTouches (getHashPrefix originKey) (asUInt64 (s.discountedFlatFee (-1) s.cfg.feeQuery .query)) providedNonce
    (s.errorFee errFee)
    (match s.keyNames.clearName originKey with
    | (true, names) => .accepted { s with keyNames := names }
    | (false, _) => .charged .keynameNotFound) []

variable {s} (reg : Regime)

/-- A patch goes to a live cell its principal may write, or it makes a cell for an account that has none. -/
theorem aliasTarget_cases {origin : HashPrefix} {acc : Account} {aliasId : UInt32} {offset : UInt16}
    {create : Bool} {targetId : UInt32} {old : Alias}
    (h : aliasTarget s origin acc aliasId offset = .ok (create, targetId, old)) :
    (create = true ∧ old.owner = origin ∧
      ∀ al, acc.aliasId ≠ 0 → s.aliases.lookup acc.aliasId = some al → al.owner ≠ origin) ∨
      (create = false ∧ targetId ≠ 0 ∧ s.aliases.lookup targetId = some old ∧
        (old.owner = origin ∨ (old.editor = origin ∧ aliasPatchMinEditor ≤ offset.toNat))) := by
  unfold aliasTarget at h
  dsimp only at h
  by_cases hown : aliasId = 0
  · rw [if_pos hown, if_pos hown] at h
    by_cases hnone : acc.aliasId = 0
    · rw [if_pos hnone] at h
      cases h
      exact .inl ⟨rfl, rfl, fun _ hlink => absurd hnone hlink⟩
    · rw [if_neg hnone] at h
      cases hal : s.aliases.lookup acc.aliasId with
      | none =>
        rw [hal] at h
        cases h
        exact .inl ⟨rfl, rfl, fun _ _ hlive => by cases hlive⟩
      | some al =>
        rw [hal] at h
        dsimp only at h
        split_ifs at h with howner <;> cases h
        · exact .inr ⟨rfl, hnone, hal, .inl howner⟩
        · refine .inl ⟨rfl, rfl, fun al' _ hlive => ?_⟩
          cases hlive
          exact howner
  · rw [if_neg hown, if_neg hown, if_neg hown] at h
    cases hal : s.aliases.lookup aliasId with
    | none =>
      rw [hal] at h
      cases h
    | some al =>
      rw [hal] at h
      dsimp only at h
      split_ifs at h with howner heditor hfloor <;> cases h
      · exact .inr ⟨rfl, hown, hal, .inl howner⟩
      · exact .inr ⟨rfl, hown, hal, .inr ⟨heditor, not_lt.mp hfloor⟩⟩

theorem allocAliasId_ne_zero (aliases : FMap UInt32 Alias) : (allocAliasId aliases).1 ≠ 0 := by
  unfold allocAliasId
  dsimp only
  refine freeAliasId_ne_zero aliases _ ?_
  split_ifs with hzero
  · decide
  · exact hzero

theorem allocAliasId_free {aliases : FMap UInt32 Alias} (hroom : aliases.size + 2 < 2 ^ 32) :
    aliases.lookup (allocAliasId aliases).1 = none := by
  unfold allocAliasId
  dsimp only
  refine freeAliasId_free ?_ (Nat.lt_add_right 1 (Nat.lt_succ_of_le (size_erase_generator_le aliases))) hroom
  split_ifs with hzero
  · decide
  · exact hzero

/-- The new cell, once its id is allocated. -/
theorem touched_commitAlias_create {origin : HashPrefix} {next : Alias} {acc : Account} (howner : next.owner = origin)
    (horigin : s.accounts.find origin = some acc)
    (hlink : ∀ al, acc.aliasId ≠ 0 → s.aliases.lookup acc.aliasId = some al → al.owner ≠ origin)
    (hhook : VmHost.hookTargetOk s next origin = true) (targetId : UInt32) :
    Touched reg s.cells (commitTouches s origin true targetId next)
      { s with
        aliases := (allocAliasId s.aliases).2.insert (allocAliasId s.aliases).1 next
        accounts := s.accounts.setAliasId origin (allocAliasId s.aliases).1 }.cells := by
  have hid := allocAliasId_ne_zero s.aliases
  subst howner
  refine .cons trivial (.of_act ⟨hid, fun hroom => ?_, ⟨acc, horigin, fun old hne hold => ?_⟩, hhook⟩ ?_)
  · -- the generator cell adds at most one
    change FMap.size (s.aliases.insert 0 _) + 2 < 2 ^ 32 at hroom
    change (s.aliases.insert 0 _).lookup _ = none
    rw [Finmap.lookup_insert_of_ne _ hid]
    refine allocAliasId_free ?_
    cases hgen : s.aliases.lookup 0 with
    | none =>
      rw [FMap.size_insert_of_none _ hgen] at hroom
      omega
    | some gen => rwa [FMap.size_insert_of_some _ hgen] at hroom
  · exact hlink old hne ((Finmap.lookup_insert_of_ne _ hne).symm.trans hold)
  · unfold CesServer.cells
    rw [Accounts.store_setAliasId]
    rfl

theorem touched_setAlias (aliasId : UInt32) (offset : UInt16) (bytes : Bytes) (fee errFee : Int) :
    Touched reg s.cells (setAliasTouches s originKey providedNonce aliasId offset bytes fee errFee)
      (setAlias s originKey aliasId offset bytes providedNonce fee errFee).server.cells := by
  unfold setAliasTouches setAlias
  dsimp only
  generalize hpre : getHashPrefix originKey = origin
  cases hfind : s.accounts.find origin with
  | none => exact .nil _
  | some acc =>
    dsimp only
    by_cases hbounds : offset.toNat < aliasPatchMinOwner ∨ aliasValueBytes < offset.toNat + bytes.length
    · rw [if_pos hbounds, if_pos hbounds]
      exact .nil _
    rw [if_neg hbounds, if_neg hbounds]
    have hmin : aliasPatchMinOwner ≤ offset.toNat := not_lt.mp fun h => hbounds (.inl h)
    have hfits : offset.toNat + bytes.length ≤ aliasValueBytes := not_lt.mp fun h => hbounds (.inr h)
    cases htarget : aliasTarget s origin acc aliasId offset with
    | error rc => exact .nil _
    | ok target =>
      obtain ⟨create, targetId, old⟩ := target
      dsimp only
      by_cases hhook : VmHost.hookTargetOk s (.ofImage (old.image.patch offset.toNat bytes)) origin = true
      · rw [hhook, Bool.not_true, if_neg (by decide), if_neg (by decide)]
        refine touched_paidOp fun t ht hcovers => ?_
        rcases aliasTarget_cases htarget with ⟨rfl, howner, hlink⟩ | ⟨rfl, hid, hold, hright⟩
        · have hnext : (Alias.ofImage (old.image.patch offset.toNat bytes)).owner = origin :=
            (old.owner_patch hmin hfits).trans howner
          unfold commitAlias at ht
          rw [Bool.not_true, if_neg (by decide)] at ht
          split_ifs at ht
          cases ht
          exact ⟨touched_commitAlias_create reg hnext hfind hlink hhook targetId,
            Accounts.find_setAliasId _ _ _⟩
        · unfold commitAlias at ht
          rw [Bool.not_false, if_pos rfl] at ht
          cases ht
          refine ⟨.single ⟨hid, hhook, old, hold, old.owner_patch hmin hfits, ?_⟩, rfl⟩
          rcases hright with howner | ⟨heditor, hfloor⟩
          · exact .inl howner
          · exact .inr ⟨heditor, old.editor_patch hfloor hfits, old.op_patch hfloor hfits⟩
      · rw [Bool.not_eq_true] at hhook
        rw [hhook, Bool.not_false, if_pos rfl, if_pos rfl]
        exact .nil _

theorem touched_deleteAlias (errFee : Int) :
    Touched reg s.cells (deleteAliasTouches s originKey providedNonce errFee)
      (deleteAlias s originKey providedNonce errFee).2.cells := by
  unfold deleteAliasTouches deleteAlias
  dsimp only
  refine touched_paidOp fun t ht _ => ?_
  split_ifs at ht with hnone
  cases ht
  rw [not_or] at hnone
  obtain ⟨al, hal⟩ := Option.ne_none_iff_exists'.mp hnone.2
  obtain ⟨acc, hfind⟩ : ∃ acc, s.accounts.find (getHashPrefix originKey) = some acc := by
    refine Option.ne_none_iff_exists'.mp fun h => hnone.1 ?_
    rw [h]
    rfl
  have hlink : (s.accounts.find (getHashPrefix originKey)).elim 0 (·.aliasId) = acc.aliasId := by
    rw [hfind]
    rfl
  rw [hlink] at hnone hal ⊢
  refine ⟨.of_act ⟨hnone.1, al, hal, .inr ⟨acc, hfind, rfl⟩⟩ ?_, Accounts.find_setAliasId _ _ _⟩
  have hunlinked : Touch.unlinked acc.aliasId acc = some { acc with aliasId := 0 } := by
    unfold Touch.unlinked
    rw [if_pos rfl]
  unfold CesServer.cells
  rw [Accounts.store_setAliasId, FMap.alter_of_some _ hfind, ← hunlinked, ← FMap.alter_of_some _ hfind]
  rfl

theorem touched_registerKeyName (name : Bytes) (errFee : Int) :
    Touched reg s.cells (registerKeyNameTouches s originKey providedNonce name errFee)
      (registerKeyName s originKey name providedNonce errFee).2.cells := by
  unfold registerKeyNameTouches registerKeyName
  refine touched_paidOp_of_same fun t ht => ?_
  rcases hres : s.keyNames.registerName originKey (ByteArr.ofList 32 name) s.cfg.maxKeyName with ⟨res, names⟩
  rw [hres] at ht
  cases res <;> cases ht
  exact ⟨.nil _, rfl⟩

theorem touched_clearKeyName (errFee : Int) :
    Touched reg s.cells (clearKeyNameTouches s originKey providedNonce errFee)
      (clearKeyName s originKey providedNonce errFee).2.cells := by
  unfold clearKeyNameTouches clearKeyName
  refine touched_paidOp_of_same fun t ht => ?_
  rcases hres : s.keyNames.clearName originKey with ⟨cleared, names⟩
  rw [hres] at ht
  cases cleared <;> cases ht
  exact ⟨.nil _, rfl⟩

end aliases

end Ces
