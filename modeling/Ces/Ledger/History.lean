import Ces.Ledger.Completion
import Ces.Ledger.Nonceless

/-!
# Histories

`ServerOp` is everything that can write a cell: the operations on the ledger and the completions. A history is a
list of them; `touchesOf` is the list of all the cells it writes, and `touched_history` the one theorem from which
the invariants of whole histories follow, with one case per kind of touch.
-/

namespace Ces

open Ces.Lib CesServer

/-! ### What the operations leave alone -/

section fixed

variable {exec : CesServer → VmRunRequest → VmProgram} {s : CesServer}

/-- A spend keeps every part of the server that its continuation keeps and the accounts are no part of. -/
theorem CesServer.part_spendOr {β γ : Type} (part : CesServer → γ)
    (hpart : ∀ (t : CesServer) a, part { t with accounts := a } = part t) (view : β → CesServer)
    {origin : HashPrefix} {amount fee : UInt64} {reqNonce : UInt32} {errFee : Int} {fail : Rc → CesServer → β}
    {next : β} (hfail : ∀ rc t, view (fail rc t) = t) (hnext : part (view next) = part s) :
    part (view (s.spendOr origin amount fee reqNonce errFee fail next)) = part s := by
  unfold spendOr
  rcases s.accounts.validateSpend origin amount fee reqNonce errFee with ⟨rc, a⟩
  cases rc <;> first | exact hnext | exact (congrArg part (hfail _ _)).trans (hpart s a)

theorem CesServer.part_paidOp {γ : Type} (part : CesServer → γ)
    (hpart : ∀ (t : CesServer) a, part { t with accounts := a } = part t) {origin : HashPrefix} {cost : UInt64}
    {reqNonce : UInt32} {errFee : Int} {outcome : Outcome} (h : ∀ t, outcome = .accepted t → part t = part s) :
    part (s.paidOp origin cost reqNonce errFee outcome).2 = part s := by
  refine part_spendOr part hpart (Prod.snd : Rc × CesServer → CesServer) (fun _ _ => rfl) ?_
  cases outcome with
  | refused rc => rfl
  | charged rc => exact hpart s _
  | accepted t => exact (hpart t _).trans (h t rfl)

theorem CesServer.fixed_spendOr {β : Type} (view : β → CesServer) {origin : HashPrefix} {amount fee : UInt64}
    {reqNonce : UInt32} {errFee : Int} {fail : Rc → CesServer → β} {next : β}
    (hfail : ∀ rc t, view (fail rc t) = t) (hnext : (view next).fixed = s.fixed) :
    (view (s.spendOr origin amount fee reqNonce errFee fail next)).fixed = s.fixed :=
  part_spendOr CesServer.fixed (fun _ _ => rfl) view hfail hnext

theorem CesServer.fixed_paidOp {origin : HashPrefix} {cost : UInt64} {reqNonce : UInt32} {errFee : Int}
    {outcome : Outcome} (h : ∀ t, outcome = .accepted t → t.fixed = s.fixed) :
    (s.paidOp origin cost reqNonce errFee outcome).2.fixed = s.fixed :=
  part_paidOp CesServer.fixed (fun _ _ => rfl) h

theorem fixed_changeOwned {origin : HashPrefix} {assetId : Hash} {sealable : Bool} {change : Asset → Asset}
    {t : CesServer} (h : changeOwned s origin assetId sealable change = .accepted t) : t.fixed = s.fixed := by
  unfold changeOwned at h
  cases hasset : s.assets.lookup assetId with
  | none =>
    rw [hasset] at h
    cases h
  | some asset =>
    rw [hasset] at h
    dsimp only at h
    split_ifs at h
    cases h
    rfl

theorem fixed_createAsset (originKey : Hash) (ownerId : HashPrefix) (assetId : Hash) (content : AssetData)
    (balance : UInt16) (providedNonce : UInt32) (rentFee errFee : Int) :
    (createAsset s originKey ownerId assetId content balance providedNonce rentFee errFee).2.fixed = s.fixed := by
  unfold createAsset
  dsimp only
  split_ifs
  · rfl
  all_goals exact fixed_paidOp fun t ht => by cases ht <;> rfl

theorem fixed_createAssetRange (originKey : Hash) (ownerId : HashPrefix) (firstKey : Hash) (count : UInt32)
    (days : UInt16) (providedNonce : UInt32) (rentFee errFee : Int) :
    (createAssetRange s originKey ownerId firstKey count days providedNonce rentFee errFee).2.fixed = s.fixed := by
  unfold createAssetRange
  dsimp only
  split_ifs
  · rfl
  · rfl
  all_goals exact fixed_paidOp fun t ht => by cases ht <;> rfl

theorem fixed_fundAsset (originKey assetId : Hash) (balance : UInt16) (providedNonce : UInt32)
    (fundFee rentFee errFee : Int) :
    (fundAsset s originKey assetId balance providedNonce fundFee rentFee errFee).2.fixed = s.fixed := by
  unfold fundAsset
  refine fixed_paidOp fun t ht => ?_
  cases hasset : s.assets.lookup assetId with
  | none =>
    rw [hasset] at ht
    cases ht
  | some asset =>
    rw [hasset] at ht
    cases ht
    rfl

theorem fixed_buyAsset (originKey assetId : Hash) (priceLimit : UInt64) (providedNonce : UInt32)
    (buyFee errFee : Int) :
    (buyAsset s originKey assetId priceLimit providedNonce buyFee errFee).2.fixed = s.fixed := by
  unfold buyAsset
  dsimp only
  split_ifs
  · rfl
  · cases s.assets.lookup assetId with
    | none => rfl
    | some asset =>
      dsimp only
      split_ifs
      · rfl
      · rfl
      · rfl
      · refine fixed_spendOr (Prod.snd : Rc × CesServer → CesServer) (fun _ _ => rfl) ?_
        split_ifs
        · rfl
        · rfl

theorem fixed_setAlias (originKey : Hash) (aliasId : UInt32) (offset : UInt16) (bytes : Bytes)
    (providedNonce : UInt32) (fee errFee : Int) :
    (setAlias s originKey aliasId offset bytes providedNonce fee errFee).server.fixed = s.fixed := by
  unfold setAlias
  dsimp only
  cases s.accounts.find (getHashPrefix originKey) with
  | none => rfl
  | some acc =>
    dsimp only
    split
    · rfl
    · cases aliasTarget s (getHashPrefix originKey) acc aliasId offset with
      | error rc => rfl
      | ok target =>
        dsimp only
        split
        · rfl
        · refine fixed_paidOp fun t ht => ?_
          unfold commitAlias at ht
          split_ifs at ht <;> (cases ht; rfl)

theorem fixed_deleteAlias (originKey : Hash) (providedNonce : UInt32) (errFee : Int) :
    (deleteAlias s originKey providedNonce errFee).2.fixed = s.fixed := by
  unfold deleteAlias
  refine fixed_paidOp fun t ht => ?_
  split_ifs at ht
  cases ht
  rfl

/-- Between its gates and its watches a transfer changes the accounts only. -/
theorem part_move {γ : Type} (part : CesServer → γ)
    (hpart : ∀ (t : CesServer) a, part { t with accounts := a } = part t)
    (r : TransferRequest) : part (r.move s).2 = part s := by
  unfold TransferRequest.move
  refine part_spendOr part hpart (Prod.snd : Rc × CesServer → CesServer) (fun _ _ => rfl) ?_
  cases s.accounts.find r.destId with
  | none =>
    dsimp only
    split_ifs
    · exact hpart s _
    · rfl
    · cases s.accounts.openTarget (s.accounts.balance r.originId) r.destId r.newAccount r.amount
        (r.amount + r.flatFee s) (r.creationCost s) <;> exact hpart s _
  | some dest =>
    dsimp only
    split_ifs
    · exact hpart s _
    · exact hpart s _
    · cases s.accounts.payInto r.destId dest r.amount <;> exact hpart s _

theorem fixed_move (r : TransferRequest) : (r.move s).2.fixed = s.fixed := part_move CesServer.fixed (fun _ _ => rfl) r

theorem fixed_transferWatches (r : TransferRequest) : (transferWatches exec s r).fixed = s.fixed := by
  unfold transferWatches
  refine (fixed_fireAccountHook exec _ _ _ _ _ _).trans ?_
  split_ifs
  · exact fixed_fireAccountHook exec _ _ _ _ _ _
  · rfl

theorem fixed_transfer (r : TransferRequest) : (transfer exec s r).server.fixed = s.fixed := by
  have hgates : (transferGates exec s r).2.fixed = s.fixed := fixed_transferGates
  unfold transfer
  split_ifs
  · dsimp only
    split_ifs
    · exact hgates
    · exact (fixed_transferWatches r).trans ((fixed_move r).trans hgates)
    · exact (fixed_move r).trans hgates
  · exact fixed_move r

theorem fixed_bulkItem {origin : HashPrefix} {txFee creationCost : UInt64} {errFee : Int} (b : BulkState)
    (it : BulkTransferItem) :
    (BulkState.after (b.item origin txFee creationCost errFee it)).server.fixed = b.server.fixed := by
  have hcharge : (b.chargeError origin errFee).server.fixed = b.server.fixed := by
    unfold BulkState.chargeError
    split_ifs <;> rfl
  have hdebit : ∀ a total, (b.debit origin a total).server.fixed = b.server.fixed := by
    intro a total
    unfold BulkState.debit
    dsimp only
    split_ifs <;> rfl
  unfold BulkState.item
  dsimp only
  cases b.server.accounts.find (getHashPrefix it.destKey) with
  | none =>
    dsimp only
    split_ifs
    · rfl
    · cases b.server.accounts.openTarget (b.balance origin) (getHashPrefix it.destKey)
        (.ofKey it.destKey (asInt64 it.amount) 0) it.amount (it.amount + txFee) creationCost with
      | error rc => exact hcharge
      | ok opened => exact hdebit _ _
  | some dest =>
    dsimp only
    by_cases hkey : dest.getKey (getHashPrefix it.destKey) = it.destKey
    · rw [if_neg (not_not.mpr hkey)]
      split
      · exact hcharge
      · cases b.server.accounts.payInto (getHashPrefix it.destKey) dest it.amount with
        | error rc => exact hcharge
        | ok a => exact hdebit _ _
    · rw [if_pos hkey]
      exact hcharge

theorem fixed_bulkItems {origin : HashPrefix} {txFee creationCost : UInt64} {errFee : Int} (b : BulkState)
    (items : List BulkTransferItem) :
    (BulkState.items origin txFee creationCost errFee b items).2.1.server.fixed = b.server.fixed := by
  induction items generalizing b with
  | nil => rfl
  | cons it rest ih =>
    have hitem : (BulkState.after (b.item origin txFee creationCost errFee it)).server.fixed = b.server.fixed :=
      fixed_bulkItem b it
    rw [BulkState.items]
    cases hres : b.item origin txFee creationCost errFee it with
    | error stop =>
      rw [hres] at hitem
      exact hitem
    | ok b' =>
      rw [hres] at hitem
      exact (ih b').trans hitem

theorem fixed_bulkTransfer (originKey : Hash) (items : List BulkTransferItem) (providedNonce : UInt32)
    (txFee rentFee errFee : Int) :
    (bulkTransfer s originKey items providedNonce txFee rentFee errFee).server.fixed = s.fixed := by
  unfold bulkTransfer
  exact fixed_spendOr BulkTransferResult.server (fun _ _ => rfl) (fixed_bulkItems ⟨s, true⟩ items)

theorem fixed_crossTransfer (r : CrossTransferRequest) : (crossTransfer exec r s).server.fixed = s.fixed := by
  unfold crossTransfer
  refine fixed_spendOr TransferResult.server (fun _ _ => rfl) ?_
  cases s.findPeer r.destServer with
  | none => rfl
  | some peer =>
    dsimp only
    cases s.settlementLoad r.destServer peer.ckey with
    | none => rfl
    | some load =>
      dsimp only
      split_ifs
      · rfl
      · rfl
      · exact fixed_fireAccountHook exec _ _ _ _ _ _

theorem fixed_scheduleRun (run : ScheduledRun) (timeUs : UInt64) : (s.scheduleRun run timeUs).2.fixed = s.fixed := by
  unfold scheduleRun scheduleRunUndoable
  split_ifs <;> rfl

theorem fixed_handleRun (now : UInt64) (r : RunRequest) : (handleRun exec now r s).2.fixed = s.fixed := by
  refine fixed_spendOr (Prod.snd : Rc × CesServer → CesServer) (fun _ _ => rfl) ?_
  have hproceed : ∀ t : CesServer, (r.proceed t exec now).2.fixed = t.fixed := by
    intro t
    unfold RunRequest.proceed
    split_ifs
    · have hqueue := fixed_scheduleRun (s := t) r.scheduled r.time
      rcases hres : t.scheduleRun r.scheduled r.time with ⟨rc, u⟩
      rw [hres] at hqueue
      cases rc <;> exact hqueue
    · cases r.target.program t with
      | error rc => rfl
      | ok program => exact fixed_executeVmRun exec t _
  exact hproceed _

theorem fixed_cronTurn (now : UInt64) (key : ScheduleKey) : (LedgerOp.cronTurn exec s now key).fixed = s.fixed := by
  unfold LedgerOp.cronTurn
  cases LedgerOp.dueRun s now key with
  | none => rfl
  | some queued =>
    dsimp only
    unfold executeScheduledRun
    cases s.accounts.find queued.callerPrefix with
    | none => rfl
    | some origin =>
      dsimp only
      split_ifs
      · rfl
      · have hreserve : ∀ t : CesServer, (reserveBudget t queued).fixed = t.fixed := by
          intro t
          unfold reserveBudget
          split_ifs <;> rfl
        unfold runScheduledProgram
        cases scheduledProgram (reserveBudget { s with scheduledRuns := s.scheduledRuns.erase key } queued) queued with
        | none => exact hreserve _
        | some program => exact (fixed_executeVmRun exec _ _).trans (hreserve _)

theorem fixed_handleGossip (shuffle : List GossipCand → List GossipCand) (req : CesGossip) (addr : SockAddr) :
    (handleGossip s shuffle req addr).fixed = s.fixed := by
  have hfanout : ∀ (t : CesServer) (authorId msgId dest : Hash) (msg : Bytes) (plan : FanoutPlan),
      (t.dispatchGossipFanout authorId msgId dest msg plan).fixed = t.fixed := by
    intro t authorId msgId dest msg plan
    refine foldl_keeps CesServer.fixed (fun u leg => ?_) _ _
    cases u.settlementLoad leg.address leg.key <;> rfl
  unfold handleGossip
  cases s.gossipSeen.lookup req.mid with
  | some seen => rfl
  | none =>
    dsimp only
    split_ifs
    · unfold CesGossip.sink
      dsimp only
      split_ifs <;> rfl
    · unfold CesGossip.broadcast
      split_ifs
      · rfl
      · exact hfanout _ _ _ _ _ _

end fixed

/-! ### Operations on the whole ledger -/

/-- Whatever else happens to the server: `t`, with the ledger, the configuration and the key of `s`. -/
def CesServer.besides (s t : CesServer) : CesServer :=
  { t with
    cfg := s.cfg
    accounts := s.accounts
    assets := s.assets
    aliases := s.aliases
    keyNames := s.keyNames
    serverKey := s.serverKey }

/-- Everything that writes a cell. -/
inductive ServerOp where
  | ledger (op : LedgerOp)
  | openTransfer (r : TransferRequest)
  | completeRpc (p : PendingRpc) (now : UInt64) (errorCode : Rc) (responseBody : Bytes)
  | completeL2Call (e : L2Escrow) (rep : L2CallReport) (time : UInt32)
  | channelL2Call (handler : Nat) (payer : Hash) (value : UInt64) (blob : Bytes) (time : UInt32)
  | besides (t : CesServer)

section

variable (exec : CesServer → VmRunRequest → VmProgram) (s : CesServer)

/-- The handler of `CES_OPEN_TRANSFER` once the nonce is resolved: a transfer, and the watch of its target. -/
def openTransfer (r : TransferRequest) : CesServer :=
  let moved := transfer exec s r
  if moved.rcode = .ok ∧ s.hookFreeGrant ≤ r.amount then
    (fireAccountHook exec moved.server r.destKey false invokeHookSettleIn r.originKey r.amount).2
  else moved.server

def openTransferTouches (r : TransferRequest) : List Touch :=
  let moved := transfer exec s r
  transferTouches exec s r ++
    if moved.rcode = .ok ∧ s.hookFreeGrant ≤ r.amount then
      hookTouches exec moved.server r.destKey false invokeHookSettleIn r.originKey r.amount
    else []

namespace LedgerOp

def touches : LedgerOp → List Touch
  | .transfer r => transferTouches exec s r
  | .bulkTransfer originKey items providedNonce txFee rentFee errFee =>
    bulkTransferTouches s originKey items providedNonce txFee rentFee errFee
  | .crossTransfer r => crossTransferTouches exec r s
  | .createAsset originKey ownerId assetId content balance providedNonce rentFee errFee =>
    createAssetTouches s originKey assetId providedNonce ownerId content balance rentFee errFee
  | .createAssetRange originKey ownerId firstKey count days providedNonce rentFee errFee =>
    createAssetRangeTouches s originKey providedNonce ownerId firstKey count days rentFee errFee
  | .updateAsset originKey assetId newOwnerId content price providedNonce updateFee errFee =>
    changeOwnedTouches s originKey assetId providedNonce .owner
      (asUInt64 (s.discountedFlatFee updateFee s.cfg.feeAsset .assetRent)) errFee true fun asset =>
      { asset with ownerId := newOwnerId, content := content, price := price }
  | .updateAssetMeta originKey assetId newOwnerId price providedNonce updateFee errFee =>
    changeOwnedTouches s originKey assetId providedNonce .seller
      (asUInt64 (s.discountedFlatFee updateFee s.cfg.feeTx .tx)) errFee false fun asset =>
      { asset with price := price, ownerId := newOwnerId }
  | .updateAssetFast originKey assetId content providedNonce fastUpdateFee errFee =>
    changeOwnedTouches s originKey assetId providedNonce .owner
      (asUInt64 (s.discountedFlatFee fastUpdateFee s.cfg.feeAsset .assetRent)) errFee true fun asset =>
      { asset with content := content }
  | .fundAsset originKey assetId balance providedNonce fundFee rentFee errFee =>
    fundAssetTouches s originKey assetId providedNonce balance fundFee rentFee errFee
  | .setAssetOwnerPays originKey assetId ownerPays providedNonce fee errFee =>
    changeOwnedTouches s originKey assetId providedNonce .toggle
      (asUInt64 (s.discountedFlatFee fee s.cfg.feeTx .tx)) errFee false fun asset =>
      { asset with
        balance := assetBalance (assetDays asset.balance) (isAssetPrivate asset.balance)
          (isAssetOwned asset.balance) (isAssetImmutable asset.balance) ownerPays }
  | .giveAsset originKey assetId newOwnerId providedNonce giveFee errFee =>
    changeOwnedTouches s originKey assetId providedNonce .seller
      (asUInt64 (s.discountedFlatFee giveFee s.cfg.feeTx .tx)) errFee false (transferOwnership newOwnerId)
  | .buyAsset originKey assetId priceLimit providedNonce buyFee errFee =>
    buyAssetTouches s originKey assetId providedNonce priceLimit buyFee errFee
  | .setAlias originKey aliasId offset bytes providedNonce fee errFee =>
    setAliasTouches s originKey providedNonce aliasId offset bytes fee errFee
  | .deleteAlias originKey providedNonce errFee => deleteAliasTouches s originKey providedNonce errFee
  | .registerKeyName originKey name providedNonce errFee =>
    registerKeyNameTouches s originKey providedNonce name errFee
  | .clearKeyName originKey providedNonce errFee => clearKeyNameTouches s originKey providedNonce errFee
  | .proveWork ckey difficulty => s.accounts.proveWorkTouches s.cfg.maxAcc s.cfg.feeAccount ckey difficulty
  | .run now r => handleRunTouches exec now r s
  | .cron now key => cronTouches exec s now key
  | .gossip shuffle req _ => gossipTouches s shuffle req
  | .gossipAck peerKey authorized rc paid => ackTouches s peerKey authorized rc paid
  | .daily order => dailyTouches s order
  | .topUp => s.accounts.topUpTouches s.serverKey
  | .brr key amount => s.accounts.brrTouches key amount
  | .burn key amount => s.accounts.burnTouches key amount
  | .walletSend destKey amount => s.accounts.walletSendTouches s.serverKey destKey amount
  | .signerSpend signer amount reqNonce errFee => s.accounts.signerSpendTouches signer amount reqNonce errFee
  | .debitAccount key amount => s.accounts.debitAccountTouches key amount
  | .debitProgramAccount key amount => s.accounts.debitProgramAccountTouches key amount
  | .mailCharge payer price => s.accounts.mailChargeTouches payer price

end LedgerOp

namespace ServerOp

def apply : ServerOp → CesServer
  | .ledger op => op.apply exec s
  | .openTransfer r => Ces.openTransfer exec s r
  | .completeRpc p now errorCode responseBody => Ces.completeRpc s p now errorCode responseBody
  | .completeL2Call e rep time => (Ces.completeL2Call exec s e rep time).1
  | .channelL2Call handler payer value blob time => (enqueueChannelL2Call exec s handler payer value blob time).2
  | .besides t => s.besides t

def touches : ServerOp → List Touch
  | .ledger op => op.touches exec s
  | .openTransfer r => openTransferTouches exec s r
  | .completeRpc p now errorCode responseBody => completeRpcTouches s p now errorCode responseBody
  | .completeL2Call e rep time => completeL2CallTouches exec s e rep time
  | .channelL2Call _ payer value _ time => enqueueChannelL2CallTouches exec s payer value time
  | .besides _ => []

end ServerOp

end

section

variable {exec : CesServer → VmRunRequest → VmProgram} (s : CesServer)

/-- The rules an operation writes under. -/
def LedgerOp.regime : LedgerOp → Regime
  | .daily _ => s.regime.anyDay
  | _ => s.regime

def ServerOp.regime : ServerOp → Regime
  | .ledger op => op.regime s
  | _ => s.regime

theorem LedgerOp.touched_apply (op : LedgerOp) :
    Touched (op.regime s) s.cells (op.touches exec s) (op.apply exec s).cells := by
  cases op with
  | transfer r => exact touched_transfer
  | bulkTransfer => exact touched_bulkTransfer s _ _ _ _ _ _
  | crossTransfer r => exact touched_crossTransfer s.regime s
  | createAsset => exact touched_createAsset s _ _ _ _ _ _ _ _
  | createAssetRange => exact touched_createAssetRange s _ _ _ _ _ _ _ _
  | updateAsset =>
    exact touched_changeOwned s _ _ _ s.regime fun asset howner hsealed => ⟨howner, hsealed rfl, rfl⟩
  | updateAssetMeta => exact touched_changeOwned s _ _ _ s.regime fun asset howner _ => ⟨howner, rfl, rfl⟩
  | updateAssetFast =>
    exact touched_changeOwned s _ _ _ s.regime fun asset howner hsealed => ⟨howner, hsealed rfl, rfl⟩
  | fundAsset => exact touched_fundAsset s _ _ _ s.regime _ _ _ _
  | setAssetOwnerPays => exact touched_changeOwned s _ _ _ s.regime fun asset howner _ => ⟨howner, _, rfl⟩
  | giveAsset => exact touched_changeOwned s _ _ _ s.regime fun asset howner _ => ⟨howner, rfl, rfl⟩
  | buyAsset => exact touched_buyAsset s _ _ _ s.regime _ _ _
  | setAlias => exact touched_setAlias _ _ s.regime _ _ _ _ _
  | deleteAlias => exact touched_deleteAlias _ _ s.regime _
  | registerKeyName => exact touched_registerKeyName _ _ s.regime _ _
  | clearKeyName => exact touched_clearKeyName _ _ s.regime _
  | proveWork => exact touched_proveWork s _ _
  | run now r => exact touched_handleRun s.regime r
  | cron now key => exact touched_cronTurn s.regime key
  | gossip shuffle req addr => exact touched_handleGossip s.regime s shuffle req addr
  | gossipAck => exact touched_ackGossipLeg s.regime s _ _ _ _
  | daily order => exact touched_dailyTaskTick rfl s order
  | topUp => exact touched_topUp s.regime s
  | brr => exact touched_brrInner s.regime s _ _
  | burn => exact touched_burnInner s.regime s _ _
  | walletSend => exact touched_walletSend s.regime s _ _ _
  | signerSpend => exact touched_signerSpend s.regime s _ _ _ _
  | debitAccount => exact touched_debitAccount s.regime s _ _
  | debitProgramAccount => exact touched_debitProgramAccount s.regime s _ _
  | mailCharge => exact touched_mailCharge s.regime s _ _

theorem touched_openTransfer (r : TransferRequest) :
    Touched s.regime s.cells (openTransferTouches exec s r) (openTransfer exec s r).cells := by
  refine Runs.append touched_transfer ?_
  unfold openTransfer
  dsimp only
  split_ifs
  · exact touched_hook s.regime _ _ _ _ _ _
  · exact .nil _

theorem ServerOp.touched_apply (op : ServerOp) :
    Touched (op.regime s) s.cells (op.touches exec s) (op.apply exec s).cells := by
  cases op with
  | ledger op => exact op.touched_apply s
  | openTransfer r => exact touched_openTransfer s r
  | completeRpc => exact touched_completeRpc s.regime s _ _ _ _
  | completeL2Call => exact touched_completeL2Call s _ _ _
  | channelL2Call => exact touched_enqueueChannelL2Call s _ _ _ _ _
  | besides t => exact .nil _

/-- The key names change by a registration, by a release and once a day. -/
def LedgerOp.KeepsNames : LedgerOp → Prop
  | .registerKeyName .. | .clearKeyName .. | .daily _ => False
  | _ => True

theorem LedgerOp.fixed_apply (op : LedgerOp) (h : op.KeepsNames) : (op.apply exec s).fixed = s.fixed := by
  cases op with
  | transfer r => exact fixed_transfer r
  | bulkTransfer => exact fixed_bulkTransfer _ _ _ _ _ _
  | crossTransfer r => exact fixed_crossTransfer r
  | createAsset => exact fixed_createAsset _ _ _ _ _ _ _ _
  | createAssetRange => exact fixed_createAssetRange _ _ _ _ _ _ _ _
  | updateAsset => exact fixed_paidOp fun t ht => fixed_changeOwned ht
  | updateAssetMeta => exact fixed_paidOp fun t ht => fixed_changeOwned ht
  | updateAssetFast => exact fixed_paidOp fun t ht => fixed_changeOwned ht
  | fundAsset => exact fixed_fundAsset _ _ _ _ _ _ _
  | setAssetOwnerPays => exact fixed_paidOp fun t ht => fixed_changeOwned ht
  | giveAsset => exact fixed_paidOp fun t ht => fixed_changeOwned ht
  | buyAsset => exact fixed_buyAsset _ _ _ _ _ _
  | setAlias => exact fixed_setAlias _ _ _ _ _ _ _
  | deleteAlias => exact fixed_deleteAlias _ _ _
  | registerKeyName => exact h.elim
  | clearKeyName => exact h.elim
  | run now r => exact fixed_handleRun now r
  | cron now key => exact fixed_cronTurn now key
  | gossip shuffle req addr => exact fixed_handleGossip shuffle req addr
  | gossipAck peerKey authorized rc paid =>
    change (ackGossipLeg s peerKey authorized rc paid).fixed = s.fixed
    unfold ackGossipLeg
    split_ifs <;> rfl
  | daily => exact h.elim
  | _ => rfl

theorem ServerOp.fixed_apply (op : ServerOp) (h : ∀ lop, op = .ledger lop → lop.KeepsNames) :
    (op.apply exec s).fixed = s.fixed := by
  cases op with
  | ledger op => exact op.fixed_apply s (h op rfl)
  | openTransfer r =>
    change (Ces.openTransfer exec s r).fixed = s.fixed
    unfold Ces.openTransfer
    dsimp only
    split_ifs
    · exact (fixed_fireAccountHook exec _ _ _ _ _ _).trans (fixed_transfer r)
    · exact fixed_transfer r
  | completeRpc p now errorCode responseBody => exact fixed_scheduleRun _ _
  | completeL2Call e rep time =>
    change (Ces.completeL2Call exec s e rep time).1.fixed = s.fixed
    unfold Ces.completeL2Call L2Escrow.notify
    split_ifs
    · rfl
    · exact fixed_transfer (s := { s with l2PendingCount := s.l2PendingCount - 1 }) _
    · refine (fixed_scheduleRun _ _).trans ?_
      exact fixed_transfer (s := { s with l2PendingCount := s.l2PendingCount - 1 }) _
  | channelL2Call handler payer value blob time =>
    change (enqueueChannelL2Call exec s handler payer value blob time).2.fixed = s.fixed
    have hmove : (l2TransferSync exec s payer s.serverKey value time).2.fixed = s.fixed := by
      unfold l2TransferSync
      split_ifs
      · rfl
      · exact fixed_transfer _
    unfold enqueueChannelL2Call
    dsimp only
    split_ifs
    · rfl
    · exact hmove
    · exact hmove
  | besides t => rfl

/-- The configuration and the server's key never change. -/
theorem ServerOp.base_apply (op : ServerOp) :
    ((op.apply exec s).cfg, (op.apply exec s).serverKey) = (s.cfg, s.serverKey) := by
  by_cases h : ∀ lop, op = .ledger lop → lop.KeepsNames
  · have hfixed : (op.apply exec s).fixed = s.fixed := op.fixed_apply s h
    exact congrArg (fun f : CesConfig × Hash × KeyNames => (f.1, f.2.1)) hfixed
  · simp only [not_forall] at h
    obtain ⟨lop, rfl, hnames⟩ := h
    have hpart : ∀ (t : CesServer) a,
        (({ t with accounts := a } : CesServer).cfg, ({ t with accounts := a } : CesServer).serverKey) =
          (t.cfg, t.serverKey) := fun _ _ => rfl
    cases lop with
    | registerKeyName originKey name providedNonce errFee =>
      refine part_paidOp (fun t : CesServer => (t.cfg, t.serverKey)) hpart fun t ht => ?_
      rcases hres : s.keyNames.registerName originKey (ByteArr.ofList 32 name) s.cfg.maxKeyName with ⟨res, names⟩
      rw [hres] at ht
      cases res <;> cases ht
      rfl
    | clearKeyName originKey providedNonce errFee =>
      refine part_paidOp (fun t : CesServer => (t.cfg, t.serverKey)) hpart fun t ht => ?_
      rcases hres : s.keyNames.clearName originKey with ⟨cleared, names⟩
      rw [hres] at ht
      cases cleared <;> cases ht
      rfl
    | daily order => rfl
    | _ => exact absurd trivial hnames

/-! ### Whole histories -/

variable (exec)

def runServer (s : CesServer) (ops : List ServerOp) : CesServer := ops.foldl (fun t op => op.apply exec t) s

/-- All the cells a history writes, in order. -/
def touchesOf (s : CesServer) (ops : List ServerOp) : List Touch :=
  foldTrace (fun t op => op.apply exec t) (fun t op => op.touches exec t) s ops

theorem ServerOp.anyDay_regime (op : ServerOp) : (op.regime s).anyDay = s.regime.anyDay := by
  cases op with
  | ledger op => cases op <;> rfl
  | _ => rfl

theorem touched_history (ops : List ServerOp) :
    Touched s.regime.anyDay s.cells (touchesOf exec s ops) (runServer exec s ops).cells := by
  induction ops generalizing s with
  | nil => exact .nil _
  | cons op ops ih =>
    have hcfg : (op.apply exec s).cfg = s.cfg := congrArg Prod.fst (op.base_apply s)
    have hregime : (op.apply exec s).regime = s.regime :=
      congrArg (fun cfg : CesConfig => (⟨cfg.maxAcc, cfg.maxAsset, false⟩ : Regime)) hcfg
    have htouched : Touched (op.regime s) s.cells (op.touches exec s) (op.apply exec s).cells := op.touched_apply s
    have hop := htouched.anyDay
    have hrest := ih (op.apply exec s)
    rw [hregime] at hrest
    rw [op.anyDay_regime] at hop
    exact hop.append hrest

/-- Every touch of the history satisfies `ok` when it is made. -/
def RunMeets (ok : Touch → Cells → Prop) : CesServer → List ServerOp → Prop
  | _, [] => True
  | s, op :: ops => TouchesMeet ok s.cells (op.touches exec s) ∧ RunMeets ok (op.apply exec s) ops

instance RunMeets.decide {ok : Touch → Cells → Prop} [∀ t c, Decidable (ok t c)] :
    ∀ s ops, Decidable (RunMeets exec ok s ops)
  | _, [] => .isTrue trivial
  | s, op :: ops =>
    @instDecidableAnd _ _ (inferInstanceAs (Decidable (Meets Touch.act ok s.cells (op.touches exec s))))
      (RunMeets.decide (op.apply exec s) ops)

theorem meets_touchesOf {ok : Touch → Cells → Prop} {s : CesServer} {ops : List ServerOp} :
    TouchesMeet ok s.cells (touchesOf exec s ops) ↔ RunMeets exec ok s ops := by
  induction ops generalizing s with
  | nil => rfl
  | cons op ops ih =>
    have hop : Touched (op.regime s) s.cells (op.touches exec s) (op.apply exec s).cells := op.touched_apply s
    exact hop.meets_append.trans (and_congr_right fun _ => ih)

/-- What every allowed touch that satisfies `ok` preserves holds after every history whose touches do. -/
theorem history_invariant {ok : Touch → Cells → Prop} {I : Cells → Prop} {s : CesServer} {ops : List ServerOp}
    (hstep : ∀ t c, t.Can s.regime.anyDay c → ok t c → I c → I (t.act c)) (hok : RunMeets exec ok s ops)
    (hs : I s.cells) : I (runServer exec s ops).cells :=
  (touched_history exec s ops).invariant hstep ((meets_touchesOf exec).mpr hok) hs

end

end Ces
