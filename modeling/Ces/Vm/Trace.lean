import Ces.Touch
import Ces.Vm.Abort

/-!
# The touches of a VM run

`HostCall.touches` lists the cells a host call writes, and `touched_handle` says that these writes are what the
call does to the ledger. A run that commits makes the touches of its calls, an aborted run none; the settlement
of the budget and the watches of a committed run add theirs.
-/

namespace Ces

open Ces.Lib

namespace VmHost

variable (h : VmHost)

/-- The touches of a method in two parts. -/
def thenTouches (r : Rc × VmHost) (first : List Touch) (next : VmHost → List Touch) : List Touch :=
  match r with
  | (.ok, h') => first ++ next h'
  | _ => first

/-- Touches made when the method succeeds. -/
def onOk (rc : Rc) (ts : List Touch) : List Touch := if rc = .ok then ts else []

def debitTouches (id : HashPrefix) (amount : UInt64) : List Touch :=
  onOk (h.debitAccount id amount).1 [.vmDebit id amount]

def callerTouches (amount : UInt64) : List Touch :=
  if amount = 0 ∨ h.allowance < amount then [] else h.debitTouches h.caller amount

def ownerTouches (amount : UInt64) : List Touch :=
  if amount = 0 then [] else h.debitTouches h.programOwner amount

def creditKeyTouches (dest : Hash) (amount : UInt64) : List Touch :=
  match h.findAccount (getHashPrefix dest) with
  | some _ => [.vmCredit (getHashPrefix dest) amount]
  | none => [.vmCreate dest amount]

def creditExistingTouches (id : HashPrefix) (amount : UInt64) : List Touch :=
  match h.findAccount id with
  | some _ => [.vmCredit id amount]
  | none => []

def transferTouches (dest : Hash) (amount : UInt64) : List Touch :=
  thenTouches (h.checkCredit (getHashPrefix dest) amount, h) [] fun h =>
  thenTouches (h.debitCaller amount) (h.callerTouches amount) fun h => h.creditKeyTouches dest amount

def ownerTransferTouches (dest : Hash) (amount : UInt64) : List Touch :=
  thenTouches (h.checkCredit (getHashPrefix dest) amount, h) [] fun h =>
  thenTouches (h.debitProgramOwner amount) (h.ownerTouches amount) fun h => h.creditKeyTouches dest amount

def depositTouches (amount : UInt64) : List Touch :=
  thenTouches (h.checkCredit h.programOwner amount, h) [] fun h =>
  thenTouches (h.debitCaller amount) (h.callerTouches amount) fun h =>
    h.creditExistingTouches h.programOwner amount

def withdrawTouches (amount : UInt64) : List Touch :=
  thenTouches (h.checkCredit h.caller amount, h) [] fun h =>
  thenTouches (h.debitProgramOwner amount) (h.ownerTouches amount) fun h =>
    h.creditExistingTouches h.caller amount

def purchaseTouches (key : Hash) (asset : Asset) (price : UInt64) : List Touch :=
  thenTouches (h.checkCredit asset.ownerId price, h) [] fun h =>
  thenTouches (h.debitCaller price) (h.callerTouches price) fun h =>
    h.creditExistingTouches asset.ownerId price ++
      [.writeAsset (.buyer h.caller) key { asset with ownerId := h.caller, price := 0 }]

def buyAssetTouches (key : Hash) (maxPrice : UInt64) : List Touch :=
  match h.server.assets.lookup key with
  | none => []
  | some asset =>
    if asset.price = 0 ∨ maxPrice < storedToRealPrice asset.price then []
    else h.purchaseTouches key asset (storedToRealPrice asset.price)

def crossTransferTouches (amount : UInt64) (server : Bytes) : List Touch :=
  match h.findPeer server with
  | none => []
  | some peer =>
    if (h.server.settlementLoad server peer.ckey).all (95 ≤ ·) then []
    else
      thenTouches (h.checkCredit (getHashPrefix peer.ckey) amount, h) [] fun h =>
      thenTouches (h.debitCaller amount) (h.callerTouches amount) fun h => h.creditKeyTouches peer.ckey amount

def l2callTouches (disc : Bytes) (value : UInt64) : List Touch :=
  match h.server.l2Registry.lookup (UInt64.ofNat (beNat (disc.take 8))) with
  | none => []
  | some _ =>
    if h.server.cfg.l2MaxPending ≤ h.server.l2PendingCount then []
    else h.transferTouches h.server.serverKey value

/-- The cells of a range, in order. -/
def rangeTouches (counted : Bool) (owner : HashPrefix) (firstKey : Hash) (n : Nat) (days : UInt16) : List Touch :=
  (List.range n).map fun i =>
    .createAsset counted (rangeSetCellIndex firstKey i)
      ⟨owner, rangeContent n i, newAssetBalance days false, 0⟩

def writeAssetTouches (key : Hash) (change : Asset → Asset) : List Touch :=
  match h.server.assets.lookup key with
  | none => []
  | some asset =>
    onOk (checkAssetWriteAuth asset h.caller h.programOwner h.selfAssetKey)
      [.writeAsset (.program h.caller h.programOwner h.selfAssetKey) key (change asset)]

def fundAssetTouches (key : Hash) (days : UInt16) : List Touch :=
  match h.server.assets.lookup key with
  | none => []
  | some asset =>
    let newDays := min ((assetDays asset.balance).toNat + days.toNat) 0x0FFF
    [.writeAsset .days key { asset with
      balance := assetBalance (UInt16.ofNat newDays) (isAssetPrivate asset.balance)
        (isAssetOwned asset.balance) (isAssetImmutable asset.balance)
        (isAssetOwnerPays asset.balance) }]

def writeAliasTouches (id : UInt32) (offset : Nat) (src : Bytes) : List Touch :=
  match h.server.aliases.lookup id with
  | none => []
  | some al =>
    onOk (h.writeAlias id offset src).1 [.patchAlias h.programOwner id (.ofImage (al.image.patch offset src))]

end VmHost

/-- The cells a host call writes. -/
def HostCall.touches (c : HostCall) (h : VmHost) : List Touch :=
  match c with
  | .transfer dest amount => h.transferTouches dest amount
  | .ownerTransfer dest amount => h.ownerTransferTouches dest amount
  | .deposit amount => h.depositTouches amount
  | .withdraw amount => h.withdrawTouches amount
  | .createAsset key content days =>
    VmHost.onOk (h.createAsset key content days).1
      [.createAsset false key ⟨h.caller, content, VmHost.newAssetBalance days false, 0⟩]
  | .createAssetManaged key content days =>
    VmHost.onOk (h.createAssetManaged key content days).1
      [.createAsset false key ⟨getHashPrefix h.selfAssetKey, content, VmHost.newAssetBalance days true, 0⟩]
  | .createAssetRange firstKey n days =>
    VmHost.onOk (h.createAssetRange firstKey n days).1
      (VmHost.rangeTouches false h.caller firstKey n.toNat days)
  | .updateAsset key content => h.writeAssetTouches key fun asset => { asset with content := content }
  | .updateAssetMeta key newOwner price =>
    h.writeAssetTouches key fun asset => { asset with ownerId := newOwner, price := price }
  | .giveAsset key newOwner => h.writeAssetTouches key fun asset => { asset with ownerId := newOwner, price := 0 }
  | .fundAsset key days => h.fundAssetTouches key days
  | .buyAsset key maxPrice => h.buyAssetTouches key maxPrice
  | .crossTransfer _ amount server => h.crossTransferTouches amount server
  | .writeAlias id offset src => h.writeAliasTouches id offset src
  | .l2call disc value _ _ _ _ => h.l2callTouches disc value
  | _ => []

/-! ### What the calls do -/

namespace VmHost

section

variable {h : VmHost} (reg : Regime)

theorem touched_then {reg : Regime} {r : Rc × VmHost} {first : List Touch} {next : VmHost → List Touch}
    {f : VmHost → Rc × VmHost} (hr : Touched reg h.cells first r.2.cells)
    (hnext : ∀ h', r = (.ok, h') → Touched reg h'.cells (next h') (f h').2.cells) :
    Touched reg h.cells (thenTouches r first next) (andThen r f).2.cells := by
  obtain ⟨rc, h'⟩ := r
  by_cases hrc : rc = .ok
  · subst hrc
    exact hr.append (hnext h' rfl)
  · rw [andThen_of_ne _ hrc]
    cases rc with
    | ok => exact absurd rfl hrc
    | _ => exact hr

/-- A tail that writes no cell. -/
theorem cells_andThen (r : Rc × VmHost) {f : VmHost → Rc × VmHost} (hf : ∀ h', (f h').2.cells = h'.cells) :
    (andThen r f).2.cells = r.2.cells := by
  obtain ⟨rc, h'⟩ := r
  by_cases hrc : rc = .ok
  · subst hrc
    exact hf h'
  · rw [andThen_of_ne _ hrc]

theorem cells_spendAllowance (h : VmHost) (amount : UInt64) : (h.spendAllowance amount).cells = h.cells := by
  unfold spendAllowance
  split_ifs <;> rfl

theorem touched_debitAccount (id : HashPrefix) {amount : UInt64} (hamount : amount ≠ 0) :
    Touched reg h.cells (h.debitTouches id amount) (h.debitAccount id amount).2.cells := by
  unfold debitTouches debitAccount
  cases hfind : h.findAccount id with
  | none => exact .nil _
  | some acc =>
    dsimp only
    by_cases hpoor : acc.getBalance < asInt64 amount
    · rw [if_pos hpoor]
      exact .nil _
    · rw [if_neg hpoor]
      exact .of_act ⟨hamount, acc, hfind, not_lt.mp hpoor⟩ (Cells.mapAccount_of_some hfind rfl)

theorem touched_debitCaller (amount : UInt64) :
    Touched reg h.cells (h.callerTouches amount) (h.debitCaller amount).2.cells := by
  unfold callerTouches debitCaller
  by_cases hzero : amount = 0
  · rw [if_pos (.inl hzero), if_pos hzero]
    exact .nil _
  · rw [if_neg hzero]
    by_cases hallow : h.allowance < amount
    · rw [if_pos (.inr hallow), if_pos hallow]
      exact .nil _
    · rw [if_neg (by simp [hzero, hallow]), if_neg hallow, cells_andThen _ fun h' => h'.cells_spendAllowance amount]
      exact touched_debitAccount reg h.caller hzero

theorem touched_debitProgramOwner (amount : UInt64) :
    Touched reg h.cells (h.ownerTouches amount) (h.debitProgramOwner amount).2.cells := by
  unfold ownerTouches debitProgramOwner
  by_cases hzero : amount = 0
  · rw [if_pos hzero, if_pos hzero]
    exact .nil _
  · rw [if_neg hzero, if_neg hzero]
    exact touched_debitAccount reg h.programOwner hzero

theorem touched_creditKey (dest : Hash) (amount : UInt64) :
    Touched reg h.cells (h.creditKeyTouches dest amount) (h.creditKey dest amount).cells := by
  unfold creditKeyTouches creditKey
  cases hfind : h.findAccount (getHashPrefix dest) with
  | none => exact .single hfind
  | some acc => exact .of_act trivial (Cells.mapAccount_of_some hfind rfl)

theorem cells_creditHook (h : VmHost) (dest : Hash) (amount : UInt64) :
    (h.creditHook dest amount).cells = h.cells := by
  unfold creditHook
  split_ifs
  · rfl
  · cases h.findAccount (getHashPrefix dest) with
    | none => rfl
    | some acc =>
      dsimp only
      split_ifs <;> rfl

theorem touched_creditDest (dest : Hash) (amount : UInt64) :
    Touched reg h.cells (h.creditKeyTouches dest amount) (h.creditDest dest amount).cells := by
  unfold creditDest
  rw [cells_creditHook]
  exact touched_creditKey reg dest amount

theorem touched_creditExisting (id : HashPrefix) (amount : UInt64) :
    Touched reg h.cells (h.creditExistingTouches id amount) (h.creditExisting id amount).2.cells := by
  unfold creditExistingTouches creditExisting
  cases hfind : h.findAccount id with
  | none => exact .nil _
  | some acc => exact .of_act trivial (Cells.mapAccount_of_some hfind rfl)

theorem touched_transfer (dest : Hash) (amount : UInt64) :
    Touched reg h.cells (h.transferTouches dest amount) (h.transfer dest amount).2.cells :=
  touched_then (.nil _) fun _ _ =>
    touched_then (touched_debitCaller reg amount) fun _ _ => touched_creditDest reg dest amount

theorem touched_ownerTransfer (dest : Hash) (amount : UInt64) :
    Touched reg h.cells (h.ownerTransferTouches dest amount) (h.ownerTransfer dest amount).2.cells :=
  touched_then (.nil _) fun _ _ =>
    touched_then (touched_debitProgramOwner reg amount) fun _ _ => touched_creditDest reg dest amount

theorem touched_deposit (amount : UInt64) :
    Touched reg h.cells (h.depositTouches amount) (h.deposit amount).2.cells :=
  touched_then (.nil _) fun _ _ =>
    touched_then (touched_debitCaller reg amount) fun _ _ => touched_creditExisting reg _ amount

theorem touched_withdraw (amount : UInt64) :
    Touched reg h.cells (h.withdrawTouches amount) (h.withdraw amount).2.cells :=
  touched_then (.nil _) fun _ _ =>
    touched_then (touched_debitProgramOwner reg amount) fun _ _ => touched_creditExisting reg _ amount

theorem assets_debitAccount (id : HashPrefix) (amount : UInt64) :
    (h.debitAccount id amount).2.server.assets = h.server.assets := by
  unfold debitAccount
  cases h.findAccount id with
  | none => rfl
  | some acc =>
    dsimp only
    split_ifs <;> rfl

theorem assets_debitCaller (amount : UInt64) :
    (h.debitCaller amount).2.server.assets = h.server.assets := by
  unfold debitCaller
  split_ifs
  · rfl
  · rfl
  · have hcells : (andThen (h.debitAccount h.caller amount) fun h => (.ok, h.spendAllowance amount)).2.cells =
        (h.debitAccount h.caller amount).2.cells :=
      cells_andThen _ fun h' => h'.cells_spendAllowance amount
    exact (congrArg Cells.assets hcells).trans (assets_debitAccount _ _)

theorem assets_creditExisting (id : HashPrefix) (amount : UInt64) :
    (h.creditExisting id amount).2.server.assets = h.server.assets := by
  unfold creditExisting
  cases h.findAccount id with
  | none => rfl
  | some acc => rfl

/-- The seller's payment leaves the buyer's identity alone. -/
theorem caller_creditExisting (id : HashPrefix) (amount : UInt64) :
    (h.creditExisting id amount).2.caller = h.caller := by
  unfold creditExisting
  cases h.findAccount id with
  | none => rfl
  | some acc => rfl

theorem touched_purchase {key : Hash} {asset : Asset} (hasset : h.server.assets.lookup key = some asset)
    (hprice : asset.price ≠ 0) (price : UInt64) :
    Touched reg h.cells (h.purchaseTouches key asset price) (h.purchase key asset price).2.cells := by
  refine touched_then (.nil _) fun h₁ hcheck => ?_
  have hsame : h₁ = h := (congrArg Prod.snd hcheck).symm
  subst hsame
  refine touched_then (touched_debitCaller reg price) fun h₂ hdebit => ?_
  have hassets := assets_debitCaller (h := h₁) price
  rw [hdebit] at hassets
  refine (touched_creditExisting reg asset.ownerId price).append (.of_act ⟨asset, ?_, hprice, rfl⟩ ?_)
  · exact (congrArg (·.lookup key) ((assets_creditExisting asset.ownerId price).trans hassets)).trans hasset
  · dsimp only
    rw [caller_creditExisting]
    rfl

theorem touched_buyAsset (key : Hash) (maxPrice : UInt64) :
    Touched reg h.cells (h.buyAssetTouches key maxPrice) (h.buyAsset key maxPrice).2.cells := by
  unfold buyAssetTouches buyAsset
  cases hasset : h.server.assets.lookup key with
  | none => exact .nil _
  | some asset =>
    dsimp only
    generalize storedToRealPrice asset.price = price
    by_cases hprice : asset.price = 0
    · rw [if_pos (.inl hprice), if_pos hprice]
      exact .nil _
    · rw [if_neg hprice]
      by_cases hlimit : maxPrice < price
      · rw [if_pos (.inr hlimit), if_pos hlimit]
        exact .nil _
      · rw [if_neg (by simp [hprice, hlimit]), if_neg hlimit]
        exact touched_purchase reg hasset hprice price

theorem touched_crossTransfer (dest : Hash) (amount : UInt64) (server : Bytes) :
    Touched reg h.cells (h.crossTransferTouches amount server) (h.crossTransfer dest amount server).2.cells := by
  unfold crossTransferTouches crossTransfer
  cases h.findPeer server with
  | none => exact .nil _
  | some peer =>
    dsimp only
    split_ifs
    · exact .nil _
    · exact touched_then (.nil _) fun _ _ =>
        touched_then (touched_debitCaller reg amount) fun _ _ => touched_creditKey reg peer.ckey amount

theorem touched_l2call (disc : Bytes) (value : UInt64) (blob : Bytes) (followupKey : Hash)
    (followupBudget : UInt64) (followupTag : UInt32) :
    Touched reg h.cells (h.l2callTouches disc value)
      (h.l2call disc value blob followupKey followupBudget followupTag).2.cells := by
  unfold l2callTouches l2call
  cases h.server.l2Registry.lookup (UInt64.ofNat (beNat (disc.take 8))) with
  | none => exact .nil _
  | some handler =>
    dsimp only
    split_ifs
    · exact .nil _
    · rw [cells_andThen]
      · exact touched_transfer reg h.server.serverKey value
      · exact fun h' => rfl

end

/-! ### Asset and alias calls -/

section

variable {h : VmHost} (reg : Regime)

theorem touched_createAsset (key : Hash) (content : AssetData) (days : UInt16) :
    Touched reg h.cells (HostCall.touches (.createAsset key content days) h)
      (h.createAsset key content days).2.cells := by
  unfold HostCall.touches createAsset
  dsimp only
  split_ifs with hzero hexists
  · exact .nil _
  · exact .nil _
  · exact .single ⟨Option.not_isSome_iff_eq_none.mp hexists, fun hc => absurd hc (by decide)⟩

theorem touched_createAssetManaged (key : Hash) (content : AssetData) (days : UInt16) :
    Touched reg h.cells (HostCall.touches (.createAssetManaged key content days) h)
      (h.createAssetManaged key content days).2.cells := by
  unfold HostCall.touches createAssetManaged
  dsimp only
  split_ifs with hzero hexists hself
  · exact .nil _
  · exact .nil _
  · exact .nil _
  · exact .single ⟨Option.not_isSome_iff_eq_none.mp hexists, fun hc => absurd hc (by decide)⟩

theorem rangeSetCellIndex_inj {firstKey : Hash} {i j : Nat} (hi : i < 2 ^ 64) (hj : j < 2 ^ 64)
    (hkeys : rangeSetCellIndex firstKey i = rangeSetCellIndex firstKey j) : i = j := by
  have hfield : ∀ k, ((rangeSetCellIndex firstKey k).slice 24 8).bytes = leBytes 8 k := by
    intro k
    have hlen := leBytes_length 8 k
    have hread : ((rangeSetCellIndex firstKey k).slice 24 (leBytes 8 k).length).bytes = leBytes 8 k :=
      firstKey.slice_patch_self (by omega)
    rwa [hlen] at hread
  refine leBytes_inj (k := 8) hi hj ?_
  rw [← hfield, ← hfield, hkeys]

/-- A range of free cells, written one after the other. -/
theorem touched_range (counted : Bool) (owner : HashPrefix) (firstKey : Hash) (n : Nat) (days : UInt16)
    (cells : List Nat) (hnodup : cells.Nodup) (hsmall : ∀ i ∈ cells, i < 2 ^ 64) (c : Cells)
    (hfree : ∀ i ∈ cells, c.assets.lookup (rangeSetCellIndex firstKey i) = none)
    (hroom : counted = true → c.assets.size + cells.length ≤ reg.maxAsset) :
    Touched reg c
      (cells.map fun i => .createAsset counted (rangeSetCellIndex firstKey i)
        ⟨owner, rangeContent n i, newAssetBalance days false, 0⟩)
      { c with
        assets := cells.foldl (fun m i => m.insert (rangeSetCellIndex firstKey i)
          ⟨owner, rangeContent n i, newAssetBalance days false, 0⟩) c.assets } := by
  induction cells generalizing c with
  | nil => exact .nil _
  | cons i cells ih =>
    have hi := hfree i (List.mem_cons_self ..)
    refine .cons ⟨hi, fun hc => ?_⟩ (ih (List.nodup_cons.mp hnodup).2 (fun j hj => hsmall j (.tail _ hj)) _ ?_ ?_)
    · have := hroom hc
      rw [List.length_cons] at this
      omega
    · -- the other cells are still free: their keys differ from the one just written
      intro j hj
      have hne : rangeSetCellIndex firstKey j ≠ rangeSetCellIndex firstKey i := by
        intro hkeys
        have hji := rangeSetCellIndex_inj (hsmall j (.tail _ hj)) (hsmall i (List.mem_cons_self ..)) hkeys
        subst hji
        exact (List.nodup_cons.mp hnodup).1 hj
      change (c.assets.insert _ _).lookup _ = none
      rw [Finmap.lookup_insert_of_ne _ hne]
      exact hfree j (.tail _ hj)
    · intro hc
      have := hroom hc
      rw [List.length_cons] at this
      change FMap.size (c.assets.insert _ _) + _ ≤ _
      rw [FMap.size_insert_of_none _ hi]
      omega

theorem cells_createRange (firstKey : Hash) (n : Nat) (days : UInt16) (cells : List Nat) (h : VmHost) :
    (cells.foldl (createRangeCell firstKey n days) h).cells =
      { h.cells with
        assets := cells.foldl (fun m i => m.insert (rangeSetCellIndex firstKey i)
          ⟨h.caller, rangeContent n i, newAssetBalance days false, 0⟩) h.cells.assets } := by
  induction cells generalizing h with
  | nil => rfl
  | cons i cells ih => exact ih _

theorem touched_createAssetRange (firstKey : Hash) (n : UInt32) (days : UInt16) :
    Touched reg h.cells (HostCall.touches (.createAssetRange firstKey n days) h)
      (h.createAssetRange firstKey n days).2.cells := by
  unfold HostCall.touches createAssetRange
  dsimp only
  split_ifs with hexists
  · exact .nil _
  · dsimp only
    rw [cells_createRange]
    refine touched_range reg false h.caller firstKey n.toNat days _ List.nodup_range ?_ _ ?_ ?_
    · intro i hi
      have hn := n.toNat_lt
      have := List.mem_range.mp hi
      omega
    · intro i hi
      by_contra hsome
      exact hexists (List.any_eq_true.mpr ⟨i, hi, Option.isSome_iff_ne_none.mpr hsome⟩)
    · exact fun hc => absurd hc (by decide)

theorem touched_writeAsset (key : Hash) (change : Asset → Asset)
    (hchange : ∀ asset, (change asset).balance = asset.balance) :
    Touched reg h.cells (h.writeAssetTouches key change) (h.writeAsset key change).2.cells := by
  unfold writeAssetTouches writeAsset
  cases hasset : h.server.assets.lookup key with
  | none => exact .nil _
  | some asset =>
    dsimp only
    cases hauth : checkAssetWriteAuth asset h.caller h.programOwner h.selfAssetKey with
    | ok => exact .single ⟨asset, hasset, hauth, hchange asset⟩
    | _ => exact .nil _

theorem touched_fundAsset (key : Hash) (days : UInt16) :
    Touched reg h.cells (h.fundAssetTouches key days) (h.fundAsset key days).2.cells := by
  unfold fundAssetTouches fundAsset
  cases hasset : h.server.assets.lookup key with
  | none => exact .nil _
  | some asset => exact .single ⟨asset, hasset, _, rfl⟩

theorem touched_writeAlias (id : UInt32) (offset : Nat) (src : Bytes) :
    Touched reg h.cells (h.writeAliasTouches id offset src) (h.writeAlias id offset src).2.cells := by
  unfold writeAliasTouches writeAlias
  cases hal : h.server.aliases.lookup id with
  | none =>
    dsimp only
    split_ifs <;> exact .nil _
  | some al =>
    dsimp only
    split_ifs with hnone hid hauth hfits howner hfloor hhook hfloor hhook
    · exact .nil _
    · exact .nil _
    · exact .nil _
    · exact .nil _
    · exact .nil _
    · exact .nil _
    · have htarget : hookTargetOk h.server (.ofImage (al.image.patch offset src)) h.programOwner = true := by
        simpa using hhook
      have howned := al.owner_patch (not_lt.mp hfloor) (not_lt.mp hfits)
      exact .single ⟨hid, htarget, al, hal, howned, .inl howner⟩
    · exact .nil _
    · exact .nil _
    · -- an editor stays behind the op
      have hoff := not_lt.mp hfloor
      have hlen := not_lt.mp hfits
      have hedits : al.editor = h.programOwner := by
        by_contra hne
        exact hauth ⟨howner, hne⟩
      have htarget : hookTargetOk h.server (.ofImage (al.image.patch offset src)) h.programOwner = true := by
        simpa using hhook
      exact .single ⟨hid, htarget, al, hal, al.owner_patch (le_trans (by decide) hoff) hlen,
        .inr ⟨hedits, al.editor_patch hoff hlen, al.op_patch hoff hlen⟩⟩

end

/-! ### Any call -/

theorem cells_refillGas (h : VmHost) (requested : UInt64) : (h.refillGas requested).2.cells = h.cells := by
  unfold refillGas
  split_ifs <;> rfl

theorem cells_enqueueRun (h : VmHost) (run : ScheduledRun) (timeUs : UInt64) :
    (h.enqueueRun run timeUs).2.cells = h.cells := by
  unfold enqueueRun CesServer.scheduleRunUndoable
  split_ifs <;> rfl

theorem cells_scheduleAlias (h : VmHost) (aliasId : UInt32) (budget allowance : UInt64) (input : Bytes)
    (timeUs : UInt64) : (h.scheduleAlias aliasId budget allowance input timeUs).2.cells = h.cells := by
  unfold scheduleAlias
  split_ifs
  · rfl
  · cases h.server.aliases.lookup aliasId with
    | none => rfl
    | some al =>
      dsimp only
      split_ifs
      · rfl
      · exact cells_enqueueRun h _ _

theorem cells_carved (h : VmHost) (childAllowance : UInt64) {queue : VmHost → Rc × VmHost}
    (hqueue : ∀ h, (queue h).2.cells = h.cells) : (h.carved childAllowance queue).2.cells = h.cells := by
  have htaken := hqueue { h with allowance := h.allowance - childAllowance }
  unfold carved
  split_ifs
  · exact hqueue h
  · rfl
  · split
    · next heq =>
      rw [heq] at htaken
      exact htaken
    · next heq =>
      rw [heq] at htaken
      exact htaken

theorem Sent.cells {h h' : VmHost} (hsent : Sent h h') : h'.cells = h.cells := by
  obtain ⟨e, n, hserver⟩ := hsent.server
  unfold VmHost.cells
  rw [hserver]
  rfl

theorem cells_rpc (h : VmHost) (host : Bytes) (port : UInt16) (fileHeadKey followupProgramKey : Hash)
    (followupBudget : UInt64) (followupInputTag : UInt32) :
    (h.rpc host port fileHeadKey followupProgramKey followupBudget followupInputTag).2.cells = h.cells := by
  rcases h.rpc_cases host port fileHeadKey followupProgramKey followupBudget followupInputTag with
    ⟨-, hsame⟩ | ⟨-, hsent⟩
  · rw [hsame]
  · exact hsent.cells

theorem cells_sendClient (h : VmHost) (clientId : HashPrefix) (data : Bytes) :
    (h.sendClient clientId data).2.cells = h.cells := by
  rcases h.sendClient_cases clientId data with ⟨-, hsame⟩ | ⟨-, hsent⟩
  · rw [hsame]
  · exact hsent.cells

/-- The touches of a call are what it does to the cells. -/
theorem touched_handle (reg : Regime) (c : HostCall) (h : VmHost) :
    Touched reg h.cells (c.touches h) (handle c h).2.cells := by
  have hquiet : ∀ {h' : VmHost}, h'.cells = h.cells → Touched reg h.cells [] h'.cells := by
    intro h' hcells
    rw [hcells]
    exact .nil _
  cases c with
  | transfer dest amount => exact touched_transfer reg dest amount
  | ownerTransfer dest amount => exact touched_ownerTransfer reg dest amount
  | deposit amount => exact touched_deposit reg amount
  | withdraw amount => exact touched_withdraw reg amount
  | createAsset key content days => exact touched_createAsset reg key content days
  | createAssetManaged key content days => exact touched_createAssetManaged reg key content days
  | createAssetRange firstKey n days => exact touched_createAssetRange reg firstKey n days
  | updateAsset key content => exact touched_writeAsset reg key _ fun _ => rfl
  | updateAssetMeta key newOwner price => exact touched_writeAsset reg key _ fun _ => rfl
  | giveAsset key newOwner => exact touched_writeAsset reg key _ fun _ => rfl
  | fundAsset key days => exact touched_fundAsset reg key days
  | buyAsset key maxPrice => exact touched_buyAsset reg key maxPrice
  | crossTransfer dest amount server => exact touched_crossTransfer reg dest amount server
  | writeAlias id offset src => exact touched_writeAlias reg id offset src
  | l2call disc value blob followupKey followupBudget followupTag =>
    exact touched_l2call reg disc value blob followupKey followupBudget followupTag
  | refillGas requested => exact hquiet (h.cells_refillGas requested)
  | schedule assetId budget allowance input timeUs =>
    exact hquiet (h.cells_carved allowance fun h => h.cells_enqueueRun _ _)
  | scheduleAlias aliasId budget allowance input timeUs =>
    exact hquiet (h.cells_carved allowance fun h => h.cells_scheduleAlias _ _ _ _ _)
  | rpc host port fileHeadKey followupProgramKey followupBudget followupInputTag =>
    exact hquiet (h.cells_rpc host port fileHeadKey followupProgramKey followupBudget followupInputTag)
  | sendClient clientId data => exact hquiet (h.cells_sendClient clientId data)
  | readAccount | readAlias | readAsset | sendUdp | verifySig | allowance => exact .nil _

end VmHost

/-! ### Runs -/

section

variable (exec : CesServer → VmRunRequest → VmProgram)

/-- The touches of a run: those of its calls when it commits, none when it is reverted. -/
def runTouches (s : CesServer) (req : VmRunRequest) : List Touch :=
  if (runProgram exec s req).1.error = .ok then
    (exec s req).trace VmHost.handle HostCall.touches (.ofRequest s req)
  else []

/-- The refund of the unused budget. -/
def refundTouches (req : VmRunRequest) (res : VmResult) : List Touch :=
  let spent := res.budgetUsed + vmPenalty res.error
  if !req.freeBudget ∧ spent < req.budget then [.credit .refund req.callerPrefix (req.budget - spent)] else []

/-- The charge for refilled gas, out of the balance left in `s`. -/
def refillTouches (req : VmRunRequest) (res : VmResult) (refilledTotal : UInt64) (s : CesServer) : List Touch :=
  if 0 < refilledTotal ∧ req.budget < res.budgetUsed then
    let consumed := min (res.budgetUsed - req.budget) refilledTotal
    let pay := min consumed (asUInt64 (max 0 (s.accounts.balance req.callerPrefix)))
    if 0 < consumed ∧ 0 < pay then [.debit req.callerPrefix pay none] else []
  else []

/-- The server a run leaves before the refund. -/
def closedRun (res : VmResult) (h : VmHost) : CesServer :=
  if res.error = .ok then h.commit else revert CesServer.undo h.undoLog h.server

def settleTouches (req : VmRunRequest) (res : VmResult) (h : VmHost) : List Touch :=
  refundTouches req res ++ refillTouches req res h.refilledTotal (refundBudget req res (closedRun res h))

/-- A run with its settlement. -/
def settledTouches (s : CesServer) (req : VmRunRequest) : List Touch :=
  let r := runProgram exec s req
  runTouches exec s req ++ settleTouches req r.1 r.2

/-- The touches of a hook that fires. -/
def hookTouches (s : CesServer) (accountKey : Hash) (wantGate : Bool) (invokeKind : UInt64)
    (counterpartyKey : Hash) (amount : UInt64) : List Touch :=
  match hookAlias s accountKey wantGate with
  | none => []
  | some (al, bal) =>
    match hookProgram s (getHashPrefix accountKey) al wantGate with
    | none => []
    | some (code, selfAssetKey, principal, ceiling) =>
      if s.inHook then []
      else
        settledTouches exec { s with inHook := true }
          (accountHookRequest s accountKey code selfAssetKey principal invokeKind counterpartyKey amount bal
            ceiling)

/-- The watches of a committed run. -/
def deferredTouches (s : CesServer) (hooks : List DeferredHook) : List Touch :=
  foldTrace (fun s h => (fireAccountHook exec s h.dest false invokeHookXferVm h.counterparty h.amount).2)
    (fun s h => hookTouches exec s h.dest false invokeHookXferVm h.counterparty h.amount) s hooks

def vmRunTouches (s : CesServer) (req : VmRunRequest) : List Touch :=
  let r := runProgram exec s req
  settledTouches exec s req ++
    if r.1.error = .ok then deferredTouches exec (settleRun req r.1 r.2) r.2.deferredHooks else []

end

/-! ### What a run does -/

theorem VmHost.cells_commit (h : VmHost) : h.commit.cells = h.cells := by
  have hsettle : ∀ (s : CesServer) (cx : DeferredCrossXfer), (s.settle cx).cells = s.cells := by
    intro s cx
    unfold CesServer.settle
    cases s.settlementLoad cx.server cx.peerKey <;> rfl
  have hpost : ∀ (s : CesServer) (p : PendingL2Call), (s.postL2Call p).cells = s.cells := fun _ _ => rfl
  have hsend : ∀ (s : CesServer) (u : DeferredUdp), (s.sendApplication u).cells = s.cells := fun _ _ => rfl
  exact (foldl_keeps CesServer.cells hpost _ _).trans
    ((foldl_keeps CesServer.cells hsettle _ _).trans (foldl_keeps CesServer.cells hsend _ _))

section

variable {exec : CesServer → VmRunRequest → VmProgram} (reg : Regime) (s : CesServer) (req : VmRunRequest)

theorem touched_runProgram :
    Touched reg s.cells (runTouches exec s req)
      (closedRun (runProgram exec s req).1 (runProgram exec s req).2).cells := by
  unfold runTouches closedRun
  split_ifs
  · rw [VmHost.cells_commit]
    exact Program.runs_trace VmHost.cells (fun c h => VmHost.touched_handle reg c h) (exec s req)
      (VmHost.ofRequest s req)
  · -- the undo log takes all three maps back
    have hmaps := maps_revert_runProgram exec s req
    have hcells : (revert CesServer.undo (runProgram exec s req).2.undoLog
        (runProgram exec s req).2.server).cells = s.cells :=
      congrArg (fun m : LedgerMaps => Cells.mk m.accounts m.assets m.aliases) hmaps
    rw [hcells]
    exact .nil _

theorem touched_refund (res : VmResult) : Touched reg s.cells (refundTouches req res)
    (refundBudget req res s).cells := by
  unfold refundTouches refundBudget
  dsimp only
  split_ifs
  · refine .of_act (fun hsource => absurd hsource (by decide)) ?_
    exact congrArg (fun st => Cells.mk st s.assets s.aliases) (s.accounts.store_credit _ _).symm
  · exact .nil _

/-- A debit that the balance covers. -/
theorem touched_debit {id : HashPrefix} {total : UInt64} {acc : Account} (hfind : s.accounts.find id = some acc)
    (hcovered : asInt64 total ≤ acc.getBalance) :
    Touched reg s.cells [.debit id total none] { s with accounts := s.accounts.debit id total }.cells := by
  refine .of_act ⟨acc, hfind, hcovered⟩ ?_
  exact congrArg (fun st => Cells.mk st s.assets s.aliases) (s.accounts.store_debit _ _).symm

theorem touched_refill (res : VmResult) (refilledTotal : UInt64) :
    Touched reg s.cells (refillTouches req res refilledTotal s) (chargeRefill req res refilledTotal s).cells := by
  unfold refillTouches chargeRefill
  dsimp only
  split_ifs with hrefill hpay
  · have hupper := s.accounts.balance_upper req.callerPrefix
    have hpays := pay_toNat req res refilledTotal _ hupper hrefill.2
    have hpos := UInt64.lt_iff_toNat_lt.mp hpay.2
    generalize min (min (res.budgetUsed - req.budget) refilledTotal)
      (asUInt64 (max 0 (s.accounts.balance req.callerPrefix))) = pay at hpays hpos ⊢
    have hle : refillPay req res refilledTotal (s.accounts.balance req.callerPrefix) ≤
        s.accounts.balance req.callerPrefix := min_le_right _ _
    rw [UInt64.toNat_zero] at hpos
    cases hfind : s.accounts.find req.callerPrefix with
    | none =>
      rw [Accounts.balance_of_none hfind] at hpays hle
      omega
    | some acc =>
      rw [Accounts.balance_of_find hfind] at hpays hle hupper
      refine touched_debit reg s hfind ?_
      rw [asInt64_of_lt (by unfold balanceMax at hupper; omega)]
      omega
  · exact .nil _
  · exact .nil _

theorem touched_settled :
    Touched reg s.cells (settledTouches exec s req)
      (settleRun req (runProgram exec s req).1 (runProgram exec s req).2).cells :=
  (touched_runProgram reg s req).append
    ((touched_refund reg _ req _).append (touched_refill reg _ req _ _))

theorem touched_hook (accountKey : Hash) (wantGate : Bool) (invokeKind : UInt64) (counterpartyKey : Hash)
    (amount : UInt64) :
    Touched reg s.cells (hookTouches exec s accountKey wantGate invokeKind counterpartyKey amount)
      (fireAccountHook exec s accountKey wantGate invokeKind counterpartyKey amount).2.cells := by
  unfold hookTouches fireAccountHook
  cases hookAlias s accountKey wantGate with
  | none => exact .nil _
  | some found =>
    obtain ⟨al, bal⟩ := found
    dsimp only
    cases hookProgram s (getHashPrefix accountKey) al wantGate with
    | none => exact .nil _
    | some program =>
      obtain ⟨code, selfAssetKey, principal, ceiling⟩ := program
      dsimp only
      unfold runAccountHook
      split_ifs
      · exact .nil _
      · exact touched_settled reg { s with inHook := true } _

theorem touched_deferred (hooks : List DeferredHook) :
    Touched reg s.cells (deferredTouches exec s hooks) (fireDeferred exec s hooks).cells := by
  unfold deferredTouches fireDeferred
  refine Runs.foldl CesServer.cells (fun t h => ?_) hooks s
  exact touched_hook reg t h.dest false invokeHookXferVm h.counterparty h.amount

theorem touched_executeVmRun :
    Touched reg s.cells (vmRunTouches exec s req) (executeVmRun exec s req).2.cells := by
  unfold vmRunTouches executeVmRun
  refine (touched_settled reg s req).append ?_
  dsimp only
  split_ifs
  · exact touched_deferred reg _ _
  · exact .nil _

end

/-! ### What no run changes -/

/-- The configuration, the server's own key and the key names. -/
def CesServer.fixed (s : CesServer) : CesConfig × Hash × KeyNames := (s.cfg, s.serverKey, s.keyNames)

theorem VmHost.fixed_commit (h : VmHost) : h.commit.fixed = h.server.fixed := by
  have hsettle : ∀ (s : CesServer) (cx : DeferredCrossXfer), (s.settle cx).fixed = s.fixed := by
    intro s cx
    unfold CesServer.settle
    cases s.settlementLoad cx.server cx.peerKey <;> rfl
  have hpost : ∀ (s : CesServer) (p : PendingL2Call), (s.postL2Call p).fixed = s.fixed := fun _ _ => rfl
  have hsend : ∀ (s : CesServer) (u : DeferredUdp), (s.sendApplication u).fixed = s.fixed := fun _ _ => rfl
  exact (foldl_keeps CesServer.fixed hpost _ _).trans
    ((foldl_keeps CesServer.fixed hsettle _ _).trans (foldl_keeps CesServer.fixed hsend _ _))

theorem CesServer.fixed_revert (log : List UndoEntry) (s : CesServer) :
    (revert CesServer.undo log s).fixed = s.fixed := by
  refine foldl_keeps CesServer.fixed (fun t e => ?_) log s
  cases e <;> rfl

section

variable (exec : CesServer → VmRunRequest → VmProgram) (s : CesServer) (req : VmRunRequest)

theorem fixed_settleRun :
    (settleRun req (runProgram exec s req).1 (runProgram exec s req).2).fixed = s.fixed := by
  have hrun : (runProgram exec s req).2.server.fixed = s.fixed := by
    rw [(runProgram_step exec s req).rest]
    rfl
  unfold settleRun
  rw [chargeRefill_eq, refundBudget_eq]
  change CesServer.fixed (if (runProgram exec s req).1.error = .ok then _ else _) = s.fixed
  split_ifs
  · exact (VmHost.fixed_commit _).trans hrun
  · exact (CesServer.fixed_revert _ _).trans hrun

theorem fixed_fireAccountHook (accountKey : Hash) (wantGate : Bool) (invokeKind : UInt64) (counterpartyKey : Hash)
    (amount : UInt64) :
    (fireAccountHook exec s accountKey wantGate invokeKind counterpartyKey amount).2.fixed = s.fixed := by
  unfold fireAccountHook
  cases hookAlias s accountKey wantGate with
  | none => rfl
  | some found =>
    obtain ⟨al, bal⟩ := found
    dsimp only
    cases hookProgram s (getHashPrefix accountKey) al wantGate with
    | none => rfl
    | some program =>
      obtain ⟨code, selfAssetKey, principal, ceiling⟩ := program
      dsimp only
      unfold runAccountHook
      split_ifs
      · rfl
      · exact fixed_settleRun exec { s with inHook := true } _

theorem fixed_executeVmRun : (executeVmRun exec s req).2.fixed = s.fixed := by
  unfold executeVmRun
  dsimp only
  split_ifs
  · refine (foldl_keeps CesServer.fixed (fun t h => ?_) _ _).trans (fixed_settleRun exec s req)
    exact fixed_fireAccountHook exec t h.dest false invokeHookXferVm h.counterparty h.amount
  · exact fixed_settleRun exec s req

end

end Ces
