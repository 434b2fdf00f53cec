import Ces.Ledger.Runs

/-!
# Runs of the ledger

`LedgerOp` lists what writes to the account store, one constructor for each operation; `LedgerStep` adds everything
else that can happen to the server, as `elsewhere`. The credit tally starts right when the store is loaded; an
operation keeps it right when it is `Clean`, which is a condition on the state it starts from. The conditions
that are not trivial say, for the most part, that a credit does not land on a pending payment and that a debit
is not a negative number in disguise.
-/

namespace Ces

open Ces.Lib

/-- The operations on the ledger. -/
inductive LedgerOp where
  | transfer (r : TransferRequest)
  | bulkTransfer (originKey : Hash) (items : List BulkTransferItem) (providedNonce : UInt32)
      (txFee rentFee errFee : Int)
  | crossTransfer (r : CrossTransferRequest)
  | createAsset (originKey : Hash) (ownerId : HashPrefix) (assetId : Hash) (content : AssetData)
      (balance : UInt16) (providedNonce : UInt32) (rentFee errFee : Int)
  | createAssetRange (originKey : Hash) (ownerId : HashPrefix) (firstKey : Hash) (count : UInt32)
      (days : UInt16) (providedNonce : UInt32) (rentFee errFee : Int)
  | updateAsset (originKey assetId : Hash) (newOwnerId : HashPrefix) (content : AssetData) (price : UInt32)
      (providedNonce : UInt32) (updateFee errFee : Int)
  | updateAssetMeta (originKey assetId : Hash) (newOwnerId : HashPrefix) (price : UInt32)
      (providedNonce : UInt32) (updateFee errFee : Int)
  | updateAssetFast (originKey assetId : Hash) (content : AssetData) (providedNonce : UInt32)
      (fastUpdateFee errFee : Int)
  | fundAsset (originKey assetId : Hash) (balance : UInt16) (providedNonce : UInt32)
      (fundFee rentFee errFee : Int)
  | setAssetOwnerPays (originKey assetId : Hash) (ownerPays : Bool) (providedNonce : UInt32) (fee errFee : Int)
  | giveAsset (originKey assetId : Hash) (newOwnerId : HashPrefix) (providedNonce : UInt32)
      (giveFee errFee : Int)
  | buyAsset (originKey assetId : Hash) (priceLimit : UInt64) (providedNonce : UInt32) (buyFee errFee : Int)
  | setAlias (originKey : Hash) (aliasId : UInt32) (offset : UInt16) (bytes : Bytes) (providedNonce : UInt32)
      (fee errFee : Int)
  | deleteAlias (originKey : Hash) (providedNonce : UInt32) (errFee : Int)
  | registerKeyName (originKey : Hash) (name : Bytes) (providedNonce : UInt32) (errFee : Int)
  | clearKeyName (originKey : Hash) (providedNonce : UInt32) (errFee : Int)
  | proveWork (ckey : Hash) (difficulty : Nat)
  | run (now : UInt64) (r : RunRequest)
  | cron (now : UInt64) (key : ScheduleKey)
  | gossip (shuffle : List GossipCand → List GossipCand) (req : CesGossip) (addr : SockAddr)
  | gossipAck (peerKey : Hash) (authorized : UInt64) (rc : Rc) (paid : UInt64)
  | daily (order : DailyOrder)
  | topUp
  | brr (key : Hash) (amount : Int)
  | burn (key : Hash) (amount : Int)
  | walletSend (destKey : Hash) (amount : UInt64)
  | signerSpend (signer : Hash) (amount : UInt64) (reqNonce : UInt32) (errFee : Int)
  | debitAccount (key : Hash) (amount : UInt64)
  | debitProgramAccount (key : Hash) (amount : Int)
  | mailCharge (payer : Hash) (price : UInt64)

namespace LedgerOp

section

variable (exec : CesServer → VmRunRequest → VmProgram)

/-- The queued run under `key`, when it is due. -/
def dueRun (s : CesServer) (now : UInt64) (key : ScheduleKey) : Option ScheduledRun :=
  if key.timeUs ≤ now then s.scheduledRuns.runs.lookup key else none

/-- One turn of the cron loop. -/
def cronTurn (s : CesServer) (now : UInt64) (key : ScheduleKey) : CesServer :=
  match dueRun s now key with
  | none => s
  | some queued => (executeScheduledRun exec { s with scheduledRuns := s.scheduledRuns.erase key } queued).2

def apply (s : CesServer) : LedgerOp → CesServer
  | .transfer r => (Ces.transfer exec s r).server
  | .bulkTransfer originKey items providedNonce txFee rentFee errFee =>
    (Ces.bulkTransfer s originKey items providedNonce txFee rentFee errFee).server
  | .crossTransfer r => (Ces.crossTransfer exec r s).server
  | .createAsset originKey ownerId assetId content balance providedNonce rentFee errFee =>
    (Ces.createAsset s originKey ownerId assetId content balance providedNonce rentFee errFee).2
  | .createAssetRange originKey ownerId firstKey count days providedNonce rentFee errFee =>
    (Ces.createAssetRange s originKey ownerId firstKey count days providedNonce rentFee errFee).2
  | .updateAsset originKey assetId newOwnerId content price providedNonce updateFee errFee =>
    (Ces.updateAsset s originKey assetId newOwnerId content price providedNonce updateFee errFee).2
  | .updateAssetMeta originKey assetId newOwnerId price providedNonce updateFee errFee =>
    (Ces.updateAssetMeta s originKey assetId newOwnerId price providedNonce updateFee errFee).2
  | .updateAssetFast originKey assetId content providedNonce fastUpdateFee errFee =>
    (Ces.updateAssetFast s originKey assetId content providedNonce fastUpdateFee errFee).2
  | .fundAsset originKey assetId balance providedNonce fundFee rentFee errFee =>
    (Ces.fundAsset s originKey assetId balance providedNonce fundFee rentFee errFee).2
  | .setAssetOwnerPays originKey assetId ownerPays providedNonce fee errFee =>
    (Ces.setAssetOwnerPays s originKey assetId ownerPays providedNonce fee errFee).2
  | .giveAsset originKey assetId newOwnerId providedNonce giveFee errFee =>
    (Ces.giveAsset s originKey assetId newOwnerId providedNonce giveFee errFee).2
  | .buyAsset originKey assetId priceLimit providedNonce buyFee errFee =>
    (Ces.buyAsset s originKey assetId priceLimit providedNonce buyFee errFee).2
  | .setAlias originKey aliasId offset bytes providedNonce fee errFee =>
    (Ces.setAlias s originKey aliasId offset bytes providedNonce fee errFee).server
  | .deleteAlias originKey providedNonce errFee => (Ces.deleteAlias s originKey providedNonce errFee).2
  | .registerKeyName originKey name providedNonce errFee =>
    (Ces.registerKeyName s originKey name providedNonce errFee).2
  | .clearKeyName originKey providedNonce errFee => (Ces.clearKeyName s originKey providedNonce errFee).2
  | .proveWork ckey difficulty =>
    { s with accounts := s.accounts.proveWork s.cfg.maxAcc s.cfg.feeAccount ckey difficulty }
  | .run now r => (handleRun exec now r s).2
  | .cron now key => cronTurn exec s now key
  | .gossip shuffle req addr => handleGossip s shuffle req addr
  | .gossipAck peerKey authorized rc paid => ackGossipLeg s peerKey authorized rc paid
  | .daily order => dailyTaskTick s order
  | .topUp => Ces.topUp s
  | .brr key amount => { s with accounts := s.accounts.brrInner key amount }
  | .burn key amount => { s with accounts := s.accounts.burnInner key amount }
  | .walletSend destKey amount => { s with accounts := (s.accounts.walletSend s.serverKey destKey amount).2 }
  | .signerSpend signer amount reqNonce errFee =>
    { s with accounts := (s.accounts.signerSpend signer amount reqNonce errFee).2 }
  | .debitAccount key amount => { s with accounts := (s.accounts.debitAccount key amount).2 }
  | .debitProgramAccount key amount => { s with accounts := (s.accounts.debitProgramAccount key amount).2 }
  | .mailCharge payer price => { s with accounts := (s.accounts.mailCharge payer price).2 }

/-- What the operation needs of the state it starts from. -/
def Clean (s : CesServer) : LedgerOp → Prop
  | .transfer r => TransferClean exec s r
  | .bulkTransfer _ _ _ _ rentFee _ => BulkClean s rentFee
  | .crossTransfer r => ∀ peer, s.findPeer r.destServer = some peer → CrossClean exec r s peer.ckey
  | .buyAsset _ assetId _ _ _ _ =>
    ∀ asset, s.assets.lookup assetId = some asset → 0 ≤ s.accounts.balance asset.ownerId
  | .run _ r => HandleRunClean exec r s
  | .cron now key =>
    ∀ queued, dueRun s now key = some queued →
      ScheduledClean exec { s with scheduledRuns := s.scheduledRuns.erase key } queued
  | .gossip _ req _ => GossipClean s req
  | .gossipAck peerKey _ _ _ => s.accounts.KeyedClean peerKey
  | .daily _ => 0 ≤ s.accounts.balance (getHashPrefix s.serverKey)
  | .topUp => 0 ≤ s.accounts.balance (getHashPrefix s.serverKey)
  | .brr key amount => amount ≤ 0 ∨ 0 ≤ s.accounts.balance (getHashPrefix key)
  | .walletSend destKey _ => 0 ≤ s.accounts.balance (getHashPrefix destKey)
  | .signerSpend _ _ _ errFee => 0 ≤ errFee ∧ errFee < 2 ^ 63
  | .debitAccount _ amount => amount.toNat < 2 ^ 63
  | .debitProgramAccount _ amount => 0 ≤ amount ∧ amount < 2 ^ 63
  | _ => True

end

variable {exec : CesServer → VmRunRequest → VmProgram} {s : CesServer}

theorem tallied_cronTurn {now : UInt64} {key : ScheduleKey} (h : s.accounts.Tallied)
    (hclean : ∀ queued, dueRun s now key = some queued →
      ScheduledClean exec { s with scheduledRuns := s.scheduledRuns.erase key } queued) :
    (cronTurn exec s now key).accounts.Tallied := by
  unfold cronTurn
  cases hdue : dueRun s now key with
  | none => exact h
  | some queued => exact tallied_executeScheduledRun (hclean queued hdue) h

/-- A clean operation keeps the tally. -/
theorem tallied_apply (op : LedgerOp) (hclean : op.Clean exec s) (h : s.accounts.Tallied) :
    (op.apply exec s).accounts.Tallied := by
  cases op with
  | transfer r => exact tallied_transfer hclean h
  | bulkTransfer => exact tallied_bulkTransfer hclean h
  | crossTransfer r => exact tallied_crossTransfer hclean h
  | createAsset => exact tallied_createAsset h _ _ _ _ _ _ _ _
  | createAssetRange => exact tallied_createAssetRange h _ _ _ _ _ _ _ _
  | updateAsset => exact tallied_changeOwned h
  | updateAssetMeta => exact tallied_changeOwned h
  | updateAssetFast => exact tallied_changeOwned h
  | fundAsset => exact tallied_fundAsset h _ _ _ _ _ _ _
  | setAssetOwnerPays => exact tallied_changeOwned h
  | giveAsset => exact tallied_changeOwned h
  | buyAsset => exact tallied_buyAsset h _ _ _ _ _ _ hclean
  | setAlias => exact tallied_setAlias h _ _ _ _ _ _ _
  | deleteAlias => exact tallied_deleteAlias h _ _ _
  | registerKeyName => exact tallied_registerKeyName h _ _ _ _
  | clearKeyName => exact tallied_clearKeyName h _ _ _
  | proveWork => exact Accounts.tallied_proveWork h _ _ _ _
  | run now r => exact tallied_handleRun hclean h
  | cron now key => exact tallied_cronTurn h hclean
  | gossip shuffle req addr => exact tallied_handleGossip h hclean shuffle addr
  | gossipAck => exact tallied_ackGossipLeg h hclean
  | daily order => exact tallied_dailyTaskTick order h hclean
  | topUp => exact Accounts.tallied_topUpServerAccount h hclean
  | brr => exact Accounts.tallied_brrInner h hclean
  | burn => exact Accounts.tallied_burnInner h _ _
  | walletSend => exact Accounts.tallied_walletSend h hclean
  | signerSpend => exact Accounts.tallied_signerSpend h hclean.1 hclean.2
  | debitAccount => exact Accounts.tallied_debitAccount h hclean
  | debitProgramAccount => exact Accounts.tallied_debitProgramAccount h hclean.1 hclean.2
  | mailCharge => exact Accounts.tallied_mailCharge h _ _

end LedgerOp

/-! ### Whole runs -/

/-- An operation, or anything that leaves the accounts alone: replies to programs, peers, presence, fee multipliers,
caches, settings. -/
inductive LedgerStep where
  | op (op : LedgerOp)
  | elsewhere (t : CesServer)

section

variable (exec : CesServer → VmRunRequest → VmProgram)

namespace LedgerStep

def apply (s : CesServer) : LedgerStep → CesServer
  | .op o => o.apply exec s
  | .elsewhere t => { t with accounts := s.accounts }

def Clean (s : CesServer) : LedgerStep → Prop
  | .op o => o.Clean exec s
  | .elsewhere _ => True

variable {exec} in
theorem tallied_apply {s : CesServer} (step : LedgerStep) (hclean : step.Clean exec s) (h : s.accounts.Tallied) :
    (step.apply exec s).accounts.Tallied := by
  cases step with
  | op o => exact o.tallied_apply hclean h
  | elsewhere t => exact h

end LedgerStep

def runOps (s : CesServer) (ops : List LedgerStep) : CesServer := ops.foldl (fun t op => op.apply exec t) s

/-- Every step of the run is clean in the state it starts from. -/
def CleanRun (s : CesServer) : List LedgerStep → Prop
  | [] => True
  | op :: ops => op.Clean exec s ∧ CleanRun (op.apply exec s) ops

theorem tallied_runOps {s : CesServer} {ops : List LedgerStep} (hclean : CleanRun exec s ops)
    (h : s.accounts.Tallied) : (runOps exec s ops).accounts.Tallied := by
  induction ops generalizing s with
  | nil => exact h
  | cons op ops ih => exact ih hclean.2 (op.tallied_apply hclean.1 h)

end

/-! ### A run that loses the tally -/

def tallyKey : Hash := ByteArr.ofList 32 (List.replicate 32 7)

def payeeKey : Hash := ByteArr.ofList 32 (List.replicate 32 9)

def programOwner : HashPrefix := ByteArr.ofList 8 (List.replicate 8 5)

/-- The given accounts, and a program whose owner has none. -/
def programServer (accounts : FMap HashPrefix Account) (code : Bytes) : CesServer :=
  .load .stock (ByteArr.zero 32) accounts
    ((∅ : FMap Hash Asset).insert tallyKey ⟨programOwner, ByteArr.ofList 210 code, 1, 0⟩) ∅

/-- The account that runs it. -/
def callerAccount : FMap HashPrefix Account :=
  (∅ : FMap HashPrefix Account).insert (getHashPrefix tallyKey) (.ofKey tallyKey 200100 0)

/-- A signed `RUN_ASSET` of the program by that account. -/
def programRequest (nonce : UInt32) (budget : UInt64) (input : Bytes) : RunRequest where
  originKey := tallyKey
  target := .ofAsset tallyKey
  budget := budget
  allowance := 1000
  input := input
  time := 0
  reqNonce := nonce
  effectiveNonce := nonce

/-- `HOSTV deposit 1 40; TERM`. -/
def depositCode : Bytes := [46, 0x54, 0x41, 0x68, 1]

/-- `HOSTV transfer 2 892 40; TERM`: the payee's key is the input. -/
def payCode : Bytes := [46, 0x42, 0x42, 2, 0x7C, 0x03, 0x68, 1]

/-- The caller, a payee and the program that pays. -/
def payServer (balance : Int) : CesServer :=
  programServer (callerAccount.insert (getHashPrefix payeeKey) (.ofKey payeeKey balance 5)) payCode

end Ces
