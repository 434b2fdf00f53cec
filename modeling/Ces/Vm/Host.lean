import Ces.Lib.Interaction
import Ces.Server

/-!
# The VM host

`VmHost` is the server as a running program sees it: every syscall that reads or changes the ledger is
one method here. A method that changes a cell first pushes the cell's old content on the undo log, and
effects that leave the server wait in the deferred lists until the run commits. Two methods do not
wait: `sendClient` sends and `rpc` posts its request at once.

`handle` dispatches a `HostCall`; `VmProgram` is what the interpreter makes of bytecode, input and
budget: a terminating interaction with the host, ending with an error code and the gas used.
-/

namespace Ces

open Ces.Lib

inductive UndoEntry where
  | account (key : HashPrefix) (old : Option Account)
  | asset (key : Hash) (old : Option Asset)
  | alias (key : UInt32) (old : Option Alias)
  | schedule (key : ScheduleKey)
  deriving DecidableEq

structure DeferredUdp where
  addr : Bytes
  port : UInt16
  data : Bytes
  deriving DecidableEq

structure DeferredCrossXfer where
  dest : Hash
  amount : UInt64
  server : Bytes
  peerKey : Hash
  deriving DecidableEq

structure DeferredHook where
  dest : Hash
  counterparty : Hash
  amount : UInt64
  deriving DecidableEq

structure VmHost where
  server : CesServer
  caller : HashPrefix
  programOwner : HashPrefix
  callerKey : Hash
  selfAssetKey : Hash
  allowance : UInt64
  refillCeiling : UInt64
  refilledTotal : UInt64
  enableVerifySig : Bool
  undoLog : List UndoEntry
  deferredUdp : List DeferredUdp
  deferredCrossXfers : List DeferredCrossXfer
  deferredHooks : List DeferredHook
  newL2Calls : List PendingL2Call

/-- `std::numeric_limits<uint64_t>::max()`, the allowance that is not enforced. -/
def uint64Max : UInt64 := 0xFFFFFFFFFFFFFFFF

def cesvmCostPerOp : UInt64 := 100
def cesvmCostPerSyscall : UInt64 := 150
def cesvmCrashFee : UInt64 := 1000000
def cesvmHookGrantOps : UInt64 := 50
def cesvmHookGrantReads : UInt64 := 4

/-- Free gas of an account hook. -/
def CesServer.hookFreeGrant (s : CesServer) : UInt64 :=
  let gasMult := s.discountFee .vmMult s.cfg.feeVmMult
  let gasMult := if gasMult = 0 then 1 else gasMult
  let fq := s.discountFee .query s.cfg.feeQuery
  cesvmHookGrantOps * cesvmCostPerOp * gasMult +
    cesvmHookGrantReads * (cesvmCostPerSyscall * gasMult + fq)

/-- Write authority over an asset: sealed content, an asset-owned cell, or an account-owned one. -/
def checkAssetWriteAuth (asset : Asset) (caller programOwner : HashPrefix) (selfAssetKey : Hash) : Rc :=
  if isAssetImmutable asset.balance then .immutable
  else if isAssetOwned asset.balance then
    if asset.ownerId ≠ getHashPrefix selfAssetKey then .notOwner else .ok
  else if asset.ownerId ≠ caller ∧ asset.ownerId ≠ programOwner then .notOwner
  else .ok

namespace VmHost

variable (h : VmHost)

/-! ### Cells -/

def findAccount (id : HashPrefix) : Option Account := h.server.accounts.find id

/-- Replace an account cell in memory. The tally is not told. -/
def setAccount (id : HashPrefix) (acc : Account) : VmHost :=
  { h with server.accounts.store := h.server.accounts.store.insert id acc }

def setAsset (key : Hash) (asset : Asset) : VmHost :=
  { h with server.assets := h.server.assets.insert key asset }

def saveAccount (id : HashPrefix) : VmHost :=
  { h with undoLog := .account id (h.findAccount id) :: h.undoLog }

def saveAsset (key : Hash) : VmHost :=
  { h with undoLog := .asset key (h.server.assets.lookup key) :: h.undoLog }

def saveAlias (id : UInt32) : VmHost :=
  { h with undoLog := .alias id (h.server.aliases.lookup id) :: h.undoLog }

/-! ### Value moves -/

def checkCredit (id : HashPrefix) (amount : UInt64) : Rc :=
  if creditWouldOverflow (h.server.accounts.balance id) amount then .balanceOverflow else .ok

/-- Take `amount` off the account `id`, guarded by the signed comparison only. -/
def debitAccount (id : HashPrefix) (amount : UInt64) : Rc × VmHost :=
  match h.findAccount id with
  | none => (.originNotFound, h)
  | some acc =>
    if acc.getBalance < asInt64 amount then (.insufficientBalance, h)
    else
      (.ok, (h.saveAccount id).setAccount id
        (acc.setBalance (int64 (acc.getBalance - asInt64 amount))))

/-- The unlimited allowance stays unlimited. -/
def spendAllowance (amount : UInt64) : VmHost :=
  if h.allowance = uint64Max then h else { h with allowance := h.allowance - amount }

/-- Run `next` when the code so far is `ok`, otherwise stop there. -/
def andThen (r : Rc × VmHost) (next : VmHost → Rc × VmHost) : Rc × VmHost :=
  match r with
  | (.ok, h') => next h'
  | (rc, h') => (rc, h')

def debitCaller (amount : UInt64) : Rc × VmHost :=
  if amount = 0 then (.ok, h)
  else if h.allowance < amount then (.allowanceExceeded, h)
  else andThen (h.debitAccount h.caller amount) fun h => (.ok, h.spendAllowance amount)

/-- The program owner pays. No allowance: the owner deployed the bytecode. -/
def debitProgramOwner (amount : UInt64) : Rc × VmHost :=
  if amount = 0 then (.ok, h) else h.debitAccount h.programOwner amount

/-- Save the cell and add `amount` to the stored account. -/
def addTo (id : HashPrefix) (acc : Account) (amount : UInt64) : VmHost :=
  (h.saveAccount id).setAccount id (acc.setBalance (saturatingAddBalance acc.getBalance amount))

/-- Remember to fire the destination's watch hook when the run commits. -/
def creditHook (dest : Hash) (amount : UInt64) : VmHost :=
  if h.server.inHook || amount < h.server.hookFreeGrant then h
  else
    match h.findAccount (getHashPrefix dest) with
    | none => h
    | some acc =>
      if acc.aliasId = 0 then h
      else { h with deferredHooks := h.deferredHooks ++ [⟨dest, h.callerKey, amount⟩] }

/-- The account at the key's prefix gets the amount; a missing one is created. -/
def creditKey (dest : Hash) (amount : UInt64) : VmHost :=
  match h.findAccount (getHashPrefix dest) with
  | some acc => h.addTo (getHashPrefix dest) acc amount
  | none =>
    (h.saveAccount (getHashPrefix dest)).setAccount (getHashPrefix dest)
      (Account.ofKey dest (asInt64 amount) 0)

def creditDest (dest : Hash) (amount : UInt64) : VmHost := (h.creditKey dest amount).creditHook dest amount

def transfer (dest : Hash) (amount : UInt64) : Rc × VmHost :=
  andThen (h.checkCredit (getHashPrefix dest) amount, h) fun h =>
  andThen (h.debitCaller amount) fun h => (.ok, h.creditDest dest amount)

def ownerTransfer (dest : Hash) (amount : UInt64) : Rc × VmHost :=
  andThen (h.checkCredit (getHashPrefix dest) amount, h) fun h =>
  andThen (h.debitProgramOwner amount) fun h => (.ok, h.creditDest dest amount)

/-- Credit an account that has to exist; when it does not, the debit before it stands. -/
def creditExisting (id : HashPrefix) (amount : UInt64) : Rc × VmHost :=
  match h.findAccount id with
  | none => (.originNotFound, h)
  | some acc => (.ok, h.addTo id acc amount)

/-- Caller to program owner. -/
def deposit (amount : UInt64) : Rc × VmHost :=
  andThen (h.checkCredit h.programOwner amount, h) fun h =>
  andThen (h.debitCaller amount) fun h => h.creditExisting h.programOwner amount

/-- Program owner to caller. -/
def withdraw (amount : UInt64) : Rc × VmHost :=
  andThen (h.checkCredit h.caller amount, h) fun h =>
  andThen (h.debitProgramOwner amount) fun h => h.creditExisting h.caller amount

/-- Pay the owner and take the asset over; an owner without an account is not paid. -/
def purchase (key : Hash) (asset : Asset) (price : UInt64) : Rc × VmHost :=
  andThen (h.checkCredit asset.ownerId price, h) fun h =>
  andThen (h.debitCaller price) fun h =>
    let h := (h.creditExisting asset.ownerId price).2
    (.ok, (h.saveAsset key).setAsset key { asset with ownerId := h.caller, price := 0 })

def buyAsset (key : Hash) (maxPrice : UInt64) : Rc × VmHost :=
  match h.server.assets.lookup key with
  | none => (.assetNotFound, h)
  | some asset =>
    if asset.price = 0 then (.notForSale, h)
    else if maxPrice < storedToRealPrice asset.price then (.insufficientPayment, h)
    else h.purchase key asset (storedToRealPrice asset.price)

def findPeer (server : Bytes) : Option PeerEntry :=
  h.server.peerTable.find? fun p => p.declaredAddress == server && p.reachable

def crossTransfer (dest : Hash) (amount : UInt64) (server : Bytes) : Rc × VmHost :=
  match h.findPeer server with
  | none => (.unknownPeer, h)
  | some peer =>
    if (h.server.settlementLoad server peer.ckey).all (95 ≤ ·) then (.queueFull, h)
    else
      andThen (h.checkCredit (getHashPrefix peer.ckey) amount, h) fun h =>
      andThen (h.debitCaller amount) fun h =>
        let h := h.creditKey peer.ckey amount
        (.ok, { h with
          deferredCrossXfers := h.deferredCrossXfers ++ [⟨dest, amount, server, peer.ckey⟩] })

/-- Park `value` in the server's own account and queue the call for commit. -/
def l2call (disc : Bytes) (value : UInt64) (blob : Bytes) (followupKey : Hash) (followupBudget : UInt64)
    (followupTag : UInt32) : Rc × VmHost :=
  match h.server.l2Registry.lookup (UInt64.ofNat (beNat (disc.take 8))) with
  | none => (.unsupported, h)
  | some handler =>
    if h.server.cfg.l2MaxPending ≤ h.server.l2PendingCount then (.queueFull, h)
    else
      andThen (h.transfer h.server.serverKey value) fun h =>
        (.ok, { h with
          newL2Calls := h.newL2Calls ++ [⟨0, handler, h.callerKey, value, blob, followupKey,
            followupBudget, h.allowance, followupTag⟩] })

/-- Grant gas against the caller's balance; nothing is debited here. -/
def refillGas (requested : UInt64) : UInt64 × VmHost :=
  if h.refillCeiling = 0 then (0, h)
  else
    let room := if h.refilledTotal < h.refillCeiling then h.refillCeiling - h.refilledTotal else 0
    let bal := h.server.accounts.balance h.caller
    let avail := if asInt64 h.refilledTotal < bal then asUInt64 bal - h.refilledTotal else 0
    let granted := min (min requested room) avail
    (granted, { h with refilledTotal := h.refilledTotal + granted })

@[simp] theorem andThen_ok (next : VmHost → Rc × VmHost) : andThen (.ok, h) next = next h := rfl

theorem andThen_of_ne {rc : Rc} (hrc : rc ≠ .ok) (next : VmHost → Rc × VmHost) :
    andThen (rc, h) next = (rc, h) := by
  cases rc <;> first | exact absurd rfl hrc | rfl

theorem andThen_assoc (r : Rc × VmHost) (f g : VmHost → Rc × VmHost) :
    andThen (andThen r f) g = andThen r fun h => andThen (f h) g := by
  obtain ⟨rc, h⟩ := r
  by_cases hrc : rc = .ok
  · subst hrc
    rfl
  · rw [andThen_of_ne _ hrc, andThen_of_ne _ hrc, andThen_of_ne _ hrc]

/-! ### Asset writes -/

/-- The days and flags of a new cell: one day more than asked for, at most 4095. -/
def newAssetBalance (days : UInt16) (assetOwned : Bool) : UInt16 :=
  let storeDays := min (1 + (assetDays days).toNat) 0x0FFF
  assetBalance (UInt16.ofNat storeDays) (isAssetPrivate days) assetOwned (isAssetImmutable days)
    (isAssetOwnerPays days)

def createAsset (key : Hash) (content : AssetData) (days : UInt16) : Rc × VmHost :=
  if key = ByteArr.zero 32 then (.badInput, h)
  else if (h.server.assets.lookup key).isSome then (.assetExists, h)
  else (.ok, (h.saveAsset key).setAsset key ⟨h.caller, content, newAssetBalance days false, 0⟩)

/-- Owned by the boot asset. A run without one is refused, after the cell was saved. -/
def createAssetManaged (key : Hash) (content : AssetData) (days : UInt16) : Rc × VmHost :=
  if key = ByteArr.zero 32 then (.badInput, h)
  else if (h.server.assets.lookup key).isSome then (.assetExists, h)
  else if h.selfAssetKey = ByteArr.zero 32 then (.disabled, h.saveAsset key)
  else
    (.ok, (h.saveAsset key).setAsset key
      ⟨getHashPrefix h.selfAssetKey, content, newAssetBalance days true, 0⟩)

/-- The key with its last eight bytes set to the index, in native order. -/
def rangeSetCellIndex (key : Hash) (index : Nat) : Hash := key.patch 24 (leBytes 8 index)

/-- Cell 0 of a range starts with the count. -/
def rangeContent (n i : Nat) : AssetData :=
  if i = 0 then (ByteArr.zero 210).patch 0 (leBytes 4 n) else ByteArr.zero 210

def createRangeCell (firstKey : Hash) (n : Nat) (days : UInt16) (h : VmHost) (i : Nat) : VmHost :=
  let key := rangeSetCellIndex firstKey i
  (h.saveAsset key).setAsset key ⟨h.caller, rangeContent n i, newAssetBalance days false, 0⟩

def createAssetRange (firstKey : Hash) (n : UInt32) (days : UInt16) : Rc × VmHost :=
  if (List.range n.toNat).any fun i =>
      (h.server.assets.lookup (rangeSetCellIndex firstKey i)).isSome then (.assetExists, h)
  else (.ok, (List.range n.toNat).foldl (createRangeCell firstKey n.toNat days) h)

/-- An authorised in-place change of an existing asset. -/
def writeAsset (key : Hash) (change : Asset → Asset) : Rc × VmHost :=
  match h.server.assets.lookup key with
  | none => (.assetNotFound, h)
  | some asset =>
    match checkAssetWriteAuth asset h.caller h.programOwner h.selfAssetKey with
    | .ok => (.ok, (h.saveAsset key).setAsset key (change asset))
    | rc => (rc, h)

def updateAsset (key : Hash) (content : AssetData) : Rc × VmHost :=
  h.writeAsset key fun asset => { asset with content := content }

def updateAssetMeta (key : Hash) (newOwner : HashPrefix) (price : UInt32) : Rc × VmHost :=
  h.writeAsset key fun asset => { asset with ownerId := newOwner, price := price }

def giveAsset (key : Hash) (newOwner : HashPrefix) : Rc × VmHost :=
  h.writeAsset key fun asset => { asset with ownerId := newOwner, price := 0 }

/-- Anyone may fund an asset. -/
def fundAsset (key : Hash) (days : UInt16) : Rc × VmHost :=
  match h.server.assets.lookup key with
  | none => (.assetNotFound, h)
  | some asset =>
    let newDays := min ((assetDays asset.balance).toNat + days.toNat) 0x0FFF
    (.ok, (h.saveAsset key).setAsset key { asset with
      balance := assetBalance (UInt16.ofNat newDays) (isAssetPrivate asset.balance)
        (isAssetOwned asset.balance) (isAssetImmutable asset.balance)
        (isAssetOwnerPays asset.balance) })

/-! ### Aliases and scheduled runs -/

/-- A hook must point at an asset that is sealed or owned by the setter. -/
def hookTargetOk (s : CesServer) (value : Alias) (setter : HashPrefix) : Bool :=
  !aliasOpIsHook value.op ||
    match s.assets.lookup (value.content.slice 0 32) with
    | none => false
    | some trigger => isAssetImmutable trigger.balance || trigger.ownerId == setter

/-- Patch an alias as the program owner. -/
def writeAlias (id : UInt32) (offset : Nat) (src : Bytes) : Rc × VmHost :=
  if h.programOwner = ByteArr.zero 8 then (.notOwner, h)
  else if id = 0 then (.aliasNotFound, h)
  else
    match h.server.aliases.lookup id with
    | none => (.aliasNotFound, h)
    | some al =>
      if al.owner ≠ h.programOwner ∧ al.editor ≠ h.programOwner then (.notOwner, h)
      else if aliasValueBytes < offset + src.length then (.badInput, h)
      else if offset < (if al.owner = h.programOwner then aliasPatchMinOwner else aliasPatchMinEditor)
      then (.notOwner, h)
      else
        let next := Alias.ofImage (al.image.patch offset src)
        if !hookTargetOk h.server next h.programOwner then (.hookTarget, h)
        else
          let h := h.saveAlias id
          (.ok, { h with server.aliases := h.server.aliases.insert id next })

def invokeScheduled : UInt64 := 1

/-- Enqueue at once, so that the program sees a full queue, and log the enqueue. -/
def enqueueRun (run : ScheduledRun) (timeUs : UInt64) : Rc × VmHost :=
  match h.server.scheduleRunUndoable run timeUs with
  | (none, s) => (.queueFull, { h with server := s })
  | (some key, s) => (.ok, { h with server := s, undoLog := .schedule key :: h.undoLog })

def schedule (assetId : Hash) (budget allowance : UInt64) (input : Bytes) (timeUs : UInt64) :
    Rc × VmHost :=
  h.enqueueRun ⟨h.caller, assetId, budget, allowance, input, false, 0, invokeScheduled⟩ timeUs

def scheduleAlias (aliasId : UInt32) (budget allowance : UInt64) (input : Bytes) (timeUs : UInt64) :
    Rc × VmHost :=
  if aliasId = 0 then (.aliasNotFound, h)
  else
    match h.server.aliases.lookup aliasId with
    | none => (.aliasNotFound, h)
    | some al =>
      if al.op ≠ aliasOpInlineProgram then (.badInput, h)
      else
        h.enqueueRun ⟨h.caller, ByteArr.zero 32, budget, allowance, input, false, aliasId,
          invokeScheduled⟩ timeUs

/-- The child's allowance comes out of the run's own, unless that is unlimited, and is given back when the
run is not queued. -/
def carved (childAllowance : UInt64) (queue : VmHost → Rc × VmHost) : Rc × VmHost :=
  if h.allowance = uint64Max then queue h
  else if h.allowance < childAllowance then (.allowanceExceeded, h)
  else
    match queue { h with allowance := h.allowance - childAllowance } with
    | (.ok, h') => (.ok, h')
    | (rc, h') => (rc, { h' with allowance := h'.allowance + childAllowance })

/-! ### Calls that act at once -/

def sendClient (clientId : HashPrefix) (data : Bytes) : Bool × VmHost :=
  let r := h.server.send clientId data
  (r.1, { h with server := r.2 })

end VmHost

/-! ### The rpc queue -/

/-- Head cell of a RAM file. -/
structure RamfileHeader where
  fileSize : Nat
  firstChunk : Hash

def parseRamfileHeader (c : AssetData) : Option RamfileHeader :=
  if (c.slice 0 1).bytes = [0x46] then some ⟨beNat (c.slice 1 8).bytes, c.slice 178 32⟩ else none

/-- Append chunks until `remaining` bytes are read. Each chunk takes at least one byte, so `remaining`
bounds the walk. -/
def readChunks (assets : FMap Hash Asset) : Nat → Nat → Hash → Bytes → Except Rc Bytes
  | 0, _, _, acc => .ok acc
  | fuel + 1, remaining, next, acc =>
    if remaining = 0 ∨ next = ByteArr.zero 32 then .ok acc
    else
      match assets.lookup next with
      | none => .error .internal
      | some chunk =>
        let take := min remaining 178
        readChunks assets fuel (remaining - take) (chunk.content.slice 178 32)
          (acc ++ chunk.content.bytes.take take)

def readFileChunkBytes (assets : FMap Hash Asset) (headKey : Hash) (maxBytes : Nat) : Except Rc Bytes :=
  match assets.lookup headKey with
  | none => .error .assetNotFound
  | some asset =>
    match parseRamfileHeader asset.content with
    | none => .error .internal
    | some header =>
      if maxBytes < header.fileSize then .error .insufficientPayment
      else readChunks assets header.fileSize header.fileSize header.firstChunk []

/-- Validate the destination and the request file, count the request and post it. -/
def CesServer.queueRpc (s : CesServer) (pending : PendingRpc) : Rc × CesServer :=
  if !s.rpcReady || (s.cfg.rpcPort == 0 && !s.cfg.rpcAutoPort) then (.disabled, s)
  else if pending.host = [] ∨ 255 < pending.host.length then (.internal, s)
  else if pending.port = 0 then (.internal, s)
  else if s.cfg.rpcMaxPending ≤ s.rpcPendingCount then (.queueFull, s)
  else
    match s.assets.lookup pending.fileHeadKey with
    | none => (.assetNotFound, s)
    | some head =>
      match checkAssetWriteAuth head pending.callerPrefix pending.programOwnerPrefix
          pending.selfAssetKey with
      | .ok =>
        match readFileChunkBytes s.assets pending.fileHeadKey s.cfg.rpcMaxRequestBytes with
        | .error rc => (rc, s)
        | .ok body =>
          let s := { s with rpcPendingCount := s.rpcPendingCount + 1 }
          (.ok, s.emit (.rpcRequest { pending with requestBody := body }))
      | rc => (rc, s)

namespace VmHost

variable (h : VmHost)

/-- What the request will need when its reply comes. -/
def pendingRpc (host : Bytes) (port : UInt16) (fileHeadKey followupProgramKey : Hash)
    (followupBudget : UInt64) (followupInputTag : UInt32) : PendingRpc :=
  ⟨host, port, fileHeadKey, followupProgramKey, h.selfAssetKey, getHashPrefix h.callerKey,
    h.programOwner, followupBudget, h.allowance, followupInputTag, []⟩

def rpc (host : Bytes) (port : UInt16) (fileHeadKey followupProgramKey : Hash) (followupBudget : UInt64)
    (followupInputTag : UInt32) : Rc × VmHost :=
  let r := h.server.queueRpc
    (h.pendingRpc host port fileHeadKey followupProgramKey followupBudget followupInputTag)
  (r.1, { h with server := r.2 })

def sendUdp (addr : Bytes) (port : UInt16) (data : Bytes) : VmHost :=
  { h with deferredUdp := h.deferredUdp ++ [⟨addr, port, data⟩] }

/-- Id 0 is the id generator's cell, not a user alias. -/
def readAlias (id : UInt32) (offset len : Nat) : Option Bytes :=
  match if id = 0 then none else h.server.aliases.lookup id with
  | none => none
  | some al =>
    if aliasValueBytes < offset + len then none else some ((al.image.bytes.drop offset).take len)

def verifySig (data sig : Bytes) (pubkey : Hash) : Bool :=
  h.enableVerifySig && h.server.verifySignature pubkey data sig

end VmHost

/-! ### Dispatch -/

/-- What the interpreter asks of its host: the methods of `CesVMHost`, with the allowance carved out around
the two that queue a run, and a look at the allowance left. -/
inductive HostCall where
  | readAccount (id : HashPrefix)
  | readAlias (id : UInt32) (offset len : Nat)
  | readAsset (key : Hash)
  | transfer (dest : Hash) (amount : UInt64)
  | ownerTransfer (dest : Hash) (amount : UInt64)
  | deposit (amount : UInt64)
  | withdraw (amount : UInt64)
  | refillGas (requested : UInt64)
  | createAsset (key : Hash) (content : AssetData) (days : UInt16)
  | createAssetManaged (key : Hash) (content : AssetData) (days : UInt16)
  | createAssetRange (firstKey : Hash) (n : UInt32) (days : UInt16)
  | updateAsset (key : Hash) (content : AssetData)
  | updateAssetMeta (key : Hash) (newOwner : HashPrefix) (price : UInt32)
  | fundAsset (key : Hash) (days : UInt16)
  | buyAsset (key : Hash) (maxPrice : UInt64)
  | giveAsset (key : Hash) (newOwner : HashPrefix)
  | sendUdp (addr : Bytes) (port : UInt16) (data : Bytes)
  | crossTransfer (dest : Hash) (amount : UInt64) (server : Bytes)
  | sendClient (clientId : HashPrefix) (data : Bytes)
  | schedule (assetId : Hash) (budget allowance : UInt64) (input : Bytes) (timeUs : UInt64)
  | scheduleAlias (aliasId : UInt32) (budget allowance : UInt64) (input : Bytes) (timeUs : UInt64)
  | writeAlias (id : UInt32) (offset : Nat) (src : Bytes)
  | rpc (host : Bytes) (port : UInt16) (fileHeadKey followupProgramKey : Hash)
      (followupBudget : UInt64) (followupInputTag : UInt32)
  | l2call (disc : Bytes) (value : UInt64) (blob : Bytes) (followupKey : Hash)
      (followupBudget : UInt64) (followupTag : UInt32)
  | verifySig (data sig : Bytes) (pubkey : Hash)
  | allowance
  deriving DecidableEq

inductive HostReply where
  | rc (code : Rc)
  | account (balance : Int) (nonce aliasId : UInt32)
  | bytes (data : Option Bytes)
  | asset (cell : Option Asset)
  | gas (granted : UInt64)
  | flag (b : Bool)
  deriving DecidableEq

namespace VmHost

/-- Answer with the result code of a method. -/
def answer (r : Rc × VmHost) : HostReply × VmHost := (.rc r.1, r.2)

def handle (c : HostCall) (h : VmHost) : HostReply × VmHost :=
  match c with
  | .readAccount id =>
    (.account (h.server.accounts.balance id) (h.server.accounts.nonce id)
      ((h.findAccount id).elim 0 (·.aliasId)), h)
  | .readAlias id offset len => (.bytes (h.readAlias id offset len), h)
  | .readAsset key => (.asset (h.server.assets.lookup key), h)
  | .transfer dest amount => answer (h.transfer dest amount)
  | .ownerTransfer dest amount => answer (h.ownerTransfer dest amount)
  | .deposit amount => answer (h.deposit amount)
  | .withdraw amount => answer (h.withdraw amount)
  | .refillGas requested => let r := h.refillGas requested; (.gas r.1, r.2)
  | .createAsset key content days => answer (h.createAsset key content days)
  | .createAssetManaged key content days => answer (h.createAssetManaged key content days)
  | .createAssetRange firstKey n days => answer (h.createAssetRange firstKey n days)
  | .updateAsset key content => answer (h.updateAsset key content)
  | .updateAssetMeta key newOwner price => answer (h.updateAssetMeta key newOwner price)
  | .fundAsset key days => answer (h.fundAsset key days)
  | .buyAsset key maxPrice => answer (h.buyAsset key maxPrice)
  | .giveAsset key newOwner => answer (h.giveAsset key newOwner)
  | .sendUdp addr port data => (.flag true, h.sendUdp addr port data)
  | .crossTransfer dest amount server => answer (h.crossTransfer dest amount server)
  | .sendClient clientId data => let r := h.sendClient clientId data; (.flag r.1, r.2)
  | .schedule assetId budget allowance input timeUs =>
    answer (h.carved allowance fun h => h.schedule assetId budget allowance input timeUs)
  | .scheduleAlias aliasId budget allowance input timeUs =>
    answer (h.carved allowance fun h => h.scheduleAlias aliasId budget allowance input timeUs)
  | .writeAlias id offset src => answer (h.writeAlias id offset src)
  | .rpc host port fileHeadKey followupProgramKey followupBudget followupInputTag =>
    answer (h.rpc host port fileHeadKey followupProgramKey followupBudget followupInputTag)
  | .l2call disc value blob followupKey followupBudget followupTag =>
    answer (h.l2call disc value blob followupKey followupBudget followupTag)
  | .verifySig data sig pubkey => (.flag (h.verifySig data sig pubkey), h)
  | .allowance => (.gas h.allowance, h)

end VmHost

/-! ### Programs -/

/-- `CesVMError`, with the faults of the interpreter under their own names. -/
inductive VmError where
  | ok
  | opcode
  | codesize
  | divzero
  | oplimit
  | underflow
  | ret
  | segfault
  | negnum
  | budget
  | syscall
  | auth
  | codefull
  | abort
  | host
  | overflow
  deriving DecidableEq, Repr

structure VmResult where
  error : VmError
  budgetUsed : UInt64
  output : Bytes
  deriving DecidableEq

/-- An interaction of the interpreter with its host. An exception that escapes the interpreter ends the
run with the default result and error `host`. -/
abbrev VmProgram := Program HostCall HostReply VmResult

structure VmRunRequest where
  callerPrefix : HashPrefix
  callerKey : Hash
  selfAssetKey : Hash
  programOwnerPrefix : HashPrefix
  code : Bytes
  input : Bytes
  budget : UInt64
  allowance : UInt64
  gasMult : UInt64
  enableVerifySig : Bool
  freeBudget : Bool
  invokeKind : UInt64
  refillCeiling : UInt64
  deriving DecidableEq

/-- The host `executeVmRun` wires up: empty undo log, nothing deferred. -/
def VmHost.ofRequest (s : CesServer) (req : VmRunRequest) : VmHost where
  server := s
  caller := req.callerPrefix
  programOwner := req.programOwnerPrefix
  callerKey := req.callerKey
  selfAssetKey := req.selfAssetKey
  allowance := req.allowance
  refillCeiling := req.refillCeiling
  refilledTotal := 0
  enableVerifySig := req.enableVerifySig
  undoLog := []
  deferredUdp := []
  deferredCrossXfers := []
  deferredHooks := []
  newL2Calls := []

end Ces
