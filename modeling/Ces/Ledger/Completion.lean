import Ces.Ledger.DailyTrace
import Ces.Vm.Syscall

/-!
# Completions

What comes back to the logic strand after a program or a client called out: the reply of an RPC, which is written
into the chunks of a RAM file, and the report of an L2 call, which releases the value parked in the server's own
account. Both may queue a followup run.
-/

namespace Ces

open Ces.Lib CesServer

/-! ### RPC replies -/

def ramfileChunkDataSize : Nat := 178
def ramfileNextOffset : Nat := 178

/-- `buildRamfileHeader`: magic, size, content hash, both times, metadata and the first chunk. -/
def buildRamfileHeader (fileSize : Nat) (contentHash : Hash) (createdTime modifiedTime : UInt64)
    (metadata : ByteArr 121) (firstChunk : Hash) : AssetData :=
  ByteArr.ofList 210 <|
    [0x46] ++ (leBytes 8 fileSize).reverse ++ contentHash.bytes ++ (leBytes 8 createdTime.toNat).reverse ++
      (leBytes 8 modifiedTime.toNat).reverse ++ metadata.bytes ++ firstChunk.bytes

/-- `buildRamfileChunk`. -/
def buildRamfileChunk (data : Bytes) (nextKey : Hash) : AssetData :=
  (ByteArr.ofList 210 (data.take ramfileChunkDataSize)).patch ramfileNextOffset nextKey.bytes

namespace PendingRpc

variable (p : PendingRpc)

def writeAuth (asset : Asset) : Rc :=
  checkAssetWriteAuth asset p.callerPrefix p.programOwnerPrefix p.selfAssetKey

/-- Write the reply into the chain: the assets, and what is left of the reply at the end of the chain or at the
first chunk that is missing or not writable. Every chunk takes a byte at least, so the reply bounds the walk. -/
def writeChunks : Nat → Hash → Bytes → FMap Hash Asset → FMap Hash Asset × Bytes
  | 0, _, body, assets => (assets, body)
  | fuel + 1, nextKey, body, assets =>
    if body = [] ∨ nextKey = ByteArr.zero 32 then (assets, body)
    else
      match assets.lookup nextKey with
      | none => (assets, body)
      | some chunk =>
        if p.writeAuth chunk ≠ .ok then (assets, body)
        else
          -- the chunk keeps its next pointer
          let chunkNext := chunk.content.slice ramfileNextOffset 32
          writeChunks fuel chunkNext (body.drop ramfileChunkDataSize)
            (assets.insert nextKey { chunk with content := buildRamfileChunk body chunkNext })

/-- The head, with the size that was written, its hash zeroed and a new modification time. -/
def newHead (head : AssetData) (firstChunk : Hash) (bytesWritten : Nat) (now : UInt64) : AssetData :=
  buildRamfileHeader bytesWritten (ByteArr.zero 32) (UInt64.ofNat (beNat (head.slice 41 8).bytes)) now
    (head.slice 57 121) firstChunk

/-- The file write of a reply: status, bytes written and assets. -/
def writeReply (s : CesServer) (now : UInt64) (body : Bytes) : Rc × Nat × FMap Hash Asset :=
  match s.assets.lookup p.fileHeadKey with
  | none => (.assetNotFound, 0, s.assets)
  | some head =>
    if p.writeAuth head ≠ .ok then (p.writeAuth head, 0, s.assets)
    else
      match parseRamfileHeader head.content with
      | none => (.internal, 0, s.assets)
      | some header =>
        let r := p.writeChunks body.length header.firstChunk body s.assets
        let written := body.length - r.2.length
        (.ok, written, r.1.alter p.fileHeadKey fun asset =>
          some { asset with content := newHead head.content header.firstChunk written now })

def followupInput (status : Rc) (wireBodyLen bytesWritten : Nat) : Bytes :=
  leBytes 4 p.followupInputTag.toNat ++ leBytes 4 status.code.toNat ++ leBytes 4 wireBodyLen ++
    leBytes 4 bytesWritten ++ p.fileHeadKey.bytes

def followup (input : Bytes) : ScheduledRun :=
  ⟨p.callerPrefix, p.followupProgramKey, p.followupBudget, p.followupAllowance, input, false, 0,
    VmHost.invokeScheduled⟩

end PendingRpc

/-- `completeRpc`. A reply that failed on the way writes nothing. -/
def completeRpc (s : CesServer) (p : PendingRpc) (now : UInt64) (errorCode : Rc) (responseBody : Bytes) : CesServer :=
  let r := if errorCode = .ok then p.writeReply s now responseBody else (errorCode, 0, s.assets)
  let t := { s with rpcPendingCount := s.rpcPendingCount - 1, assets := r.2.2 }
  (t.scheduleRun (p.followup (p.followupInput r.1 responseBody.length r.2.1)) 0).2

/-! ### L2 calls -/

inductive L2CallOutcome where
  | delivered
  | noHandler
  | timeout
  deriving DecidableEq

/-- What the handler of a call reports, or the server itself when the handler refuses. -/
structure L2CallReport where
  outcome : L2CallOutcome
  payee : Hash
  reply : Bytes

/-- A call in flight. `channel` is set for a client's CALL, which is answered on its request; a program's call is
answered by a followup run. -/
structure L2Escrow where
  call : PendingL2Call
  channel : Bool
  resolved : Bool

def cesL2CallVmReply : Nat := 512
def invokeL2Return : UInt64 := 5

namespace L2Escrow

variable (e : L2Escrow) (rep : L2CallReport)

/-- A delivery without a payee counts as a failure. -/
def delivered : Bool := rep.outcome = .delivered && rep.payee != ByteArr.zero 32

/-- Who gets the value. -/
def target : Hash := if delivered rep then rep.payee else e.call.payerKey

/-- The release: a fee-free transfer out of the server's own account. -/
def settlement (s : CesServer) (time : UInt32) : TransferRequest where
  originKey := s.serverKey
  destKey := e.target rep
  amount := e.call.value
  mode := .openDest
  paymentDays := 0
  providedNonce := Accounts.nonceless
  txFee := 0
  rentFee := 0
  errFee := 0
  time := time

def followupInput : Bytes :=
  leBytes 8 e.call.followupTag.toNat ++ leBytes 8 rep.outcome.ctorIdx ++ rep.reply.take cesL2CallVmReply

def followup : ScheduledRun :=
  ⟨getHashPrefix e.call.payerKey, e.call.followupProgramKey, e.call.followupBudget, e.call.followupAllowance,
    e.followupInput rep, false, 0, invokeL2Return⟩

/-- The followup of a program's call, when it asked for one. -/
def notify (s : CesServer) : CesServer :=
  if e.channel ∨ e.call.followupProgramKey = ByteArr.zero 32 then s else (s.scheduleRun (e.followup rep) 0).2

end L2Escrow

section

variable (exec : CesServer → VmRunRequest → VmProgram)

/-- `completeL2Call`: the first report resolves the call, later ones are ignored. -/
def completeL2Call (s : CesServer) (e : L2Escrow) (rep : L2CallReport) (time : UInt32) : CesServer × L2Escrow :=
  if e.resolved then (s, e)
  else
    let t := { s with l2PendingCount := s.l2PendingCount - 1 }
    let paid := (transfer exec t (e.settlement rep t time)).server
    (e.notify rep paid, { e with resolved := true })

/-- `l2TransferSync`. -/
def l2TransferSync (s : CesServer) (originKey destKey : Hash) (amount : UInt64) (time : UInt32) : Bool × CesServer :=
  if amount = 0 then (true, s)
  else
    let r := transfer exec s ⟨originKey, destKey, amount, .openDest, 0, Accounts.nonceless, 0, 0, 0, time⟩
    (r.rcode = .ok, r.server)

/-- `enqueueChannelL2Call`: park the value and post the call. -/
def enqueueChannelL2Call (s : CesServer) (handler : Nat) (payer : Hash) (value : UInt64) (blob : Bytes)
    (time : UInt32) : Rc × CesServer :=
  if s.cfg.l2MaxPending ≤ s.l2PendingCount then (.queueFull, s)
  else
    let r := l2TransferSync exec s payer s.serverKey value time
    if !r.1 then (.insufficientBalance, r.2)
    else (.ok, r.2.postL2Call ⟨0, handler, payer, value, blob, ByteArr.zero 32, 0, uint64Max, 0⟩)

end

/-! ### Touches -/

namespace PendingRpc

variable (p : PendingRpc)

def writer : AssetWriter := .program p.callerPrefix p.programOwnerPrefix p.selfAssetKey

def writeChunksTouches : Nat → Hash → Bytes → FMap Hash Asset → List Touch
  | 0, _, _, _ => []
  | fuel + 1, nextKey, body, assets =>
    if body = [] ∨ nextKey = ByteArr.zero 32 then []
    else
      match assets.lookup nextKey with
      | none => []
      | some chunk =>
        if p.writeAuth chunk ≠ .ok then []
        else
          let chunkNext := chunk.content.slice ramfileNextOffset 32
          let chunk' := { chunk with content := buildRamfileChunk body chunkNext }
          .writeAsset p.writer nextKey chunk' ::
            writeChunksTouches fuel chunkNext (body.drop ramfileChunkDataSize) (assets.insert nextKey chunk')

def writeReplyTouches (s : CesServer) (now : UInt64) (body : Bytes) : List Touch :=
  match s.assets.lookup p.fileHeadKey with
  | none => []
  | some head =>
    if p.writeAuth head ≠ .ok then []
    else
      match parseRamfileHeader head.content with
      | none => []
      | some header =>
        let r := p.writeChunks body.length header.firstChunk body s.assets
        let written := body.length - r.2.length
        p.writeChunksTouches body.length header.firstChunk body s.assets ++
          match r.1.lookup p.fileHeadKey with
          | none => []
          | some asset =>
            [.writeAsset p.writer p.fileHeadKey
              { asset with content := newHead head.content header.firstChunk written now }]

variable {p} (reg : Regime)

theorem touched_writeChunks (accounts : FMap HashPrefix Account) (aliases : FMap UInt32 Alias) (fuel : Nat)
    (nextKey : Hash) (body : Bytes) (assets : FMap Hash Asset) :
    Touched reg ⟨accounts, assets, aliases⟩ (p.writeChunksTouches fuel nextKey body assets)
      ⟨accounts, (p.writeChunks fuel nextKey body assets).1, aliases⟩ := by
  induction fuel generalizing nextKey body assets with
  | zero => exact .nil _
  | succ fuel ih =>
    rw [writeChunksTouches, writeChunks]
    split_ifs
    · exact .nil _
    · cases hchunk : assets.lookup nextKey with
      | none => exact .nil _
      | some chunk =>
        dsimp only
        split_ifs with hauth
        · exact .nil _
        · rw [not_not] at hauth
          exact .cons ⟨chunk, hchunk, hauth, rfl⟩ (ih _ _ _)

/-- The walk changes contents only, so that who may write an asset stays as it was. -/
theorem writeAuth_writeChunks (fuel : Nat) (nextKey : Hash) (body : Bytes) (assets : FMap Hash Asset) (key : Hash) :
    ((p.writeChunks fuel nextKey body assets).1.lookup key).map p.writeAuth =
      (assets.lookup key).map p.writeAuth := by
  induction fuel generalizing nextKey body assets with
  | zero => rfl
  | succ fuel ih =>
    rw [writeChunks]
    split_ifs
    · rfl
    · cases hchunk : assets.lookup nextKey with
      | none => rfl
      | some chunk =>
        dsimp only
        split_ifs
        · rfl
        · rw [ih, FMap.lookup_insert_eq]
          split_ifs with hkey
          · rw [hkey, hchunk]
            rfl
          · rfl

theorem touched_writeReply (s : CesServer) (now : UInt64) (body : Bytes) :
    Touched reg s.cells (p.writeReplyTouches s now body)
      { s with assets := (p.writeReply s now body).2.2 }.cells := by
  unfold writeReplyTouches writeReply
  cases hhead : s.assets.lookup p.fileHeadKey with
  | none => exact .nil _
  | some head =>
    dsimp only
    split_ifs with hauth
    · exact .nil _
    · rw [not_not] at hauth
      cases parseRamfileHeader head.content with
      | none => exact .nil _
      | some header =>
        have hkept := writeAuth_writeChunks (p := p) body.length header.firstChunk body s.assets p.fileHeadKey
        have hchain := touched_writeChunks (p := p) reg s.accounts.store s.aliases body.length header.firstChunk
          body s.assets
        rw [hhead, Option.map_some, hauth, Option.map_eq_some_iff] at hkept
        obtain ⟨asset, hasset, hwrite⟩ := hkept
        dsimp only
        rw [hasset, FMap.alter_of_some _ hasset]
        exact hchain.append (.single ⟨asset, hasset, hwrite, rfl⟩)

end PendingRpc

def completeRpcTouches (s : CesServer) (p : PendingRpc) (now : UInt64) (errorCode : Rc) (responseBody : Bytes) :
    List Touch :=
  if errorCode = .ok then p.writeReplyTouches s now responseBody else []

theorem touched_completeRpc (reg : Regime) (s : CesServer) (p : PendingRpc) (now : UInt64) (errorCode : Rc)
    (responseBody : Bytes) :
    Touched reg s.cells (completeRpcTouches s p now errorCode responseBody)
      (completeRpc s p now errorCode responseBody).cells := by
  unfold completeRpcTouches completeRpc
  dsimp only
  rw [cells_scheduleRun]
  split_ifs
  · exact PendingRpc.touched_writeReply reg s now responseBody
  · exact .nil _

section

variable (exec : CesServer → VmRunRequest → VmProgram)

def completeL2CallTouches (s : CesServer) (e : L2Escrow) (rep : L2CallReport) (time : UInt32) : List Touch :=
  if e.resolved then []
  else
    let t := { s with l2PendingCount := s.l2PendingCount - 1 }
    transferTouches exec t (e.settlement rep t time)

def l2TransferTouches (s : CesServer) (originKey destKey : Hash) (amount : UInt64) (time : UInt32) : List Touch :=
  if amount = 0 then []
  else transferTouches exec s ⟨originKey, destKey, amount, .openDest, 0, Accounts.nonceless, 0, 0, 0, time⟩

def enqueueChannelL2CallTouches (s : CesServer) (payer : Hash) (value : UInt64) (time : UInt32) : List Touch :=
  if s.cfg.l2MaxPending ≤ s.l2PendingCount then [] else l2TransferTouches exec s payer s.serverKey value time

variable {exec}

theorem L2Escrow.cells_notify (e : L2Escrow) (rep : L2CallReport) (s : CesServer) :
    (e.notify rep s).cells = s.cells := by
  unfold notify
  split_ifs
  · rfl
  · exact cells_scheduleRun s _ 0

theorem touched_completeL2Call (s : CesServer) (e : L2Escrow) (rep : L2CallReport) (time : UInt32) :
    Touched s.regime s.cells (completeL2CallTouches exec s e rep time) (completeL2Call exec s e rep time).1.cells := by
  unfold completeL2CallTouches completeL2Call
  split_ifs
  · exact .nil _
  · dsimp only
    rw [L2Escrow.cells_notify]
    exact touched_transfer (s := { s with l2PendingCount := s.l2PendingCount - 1 })

theorem touched_enqueueChannelL2Call (s : CesServer) (handler : Nat) (payer : Hash) (value : UInt64) (blob : Bytes)
    (time : UInt32) :
    Touched s.regime s.cells (enqueueChannelL2CallTouches exec s payer value time)
      (enqueueChannelL2Call exec s handler payer value blob time).2.cells := by
  unfold enqueueChannelL2CallTouches enqueueChannelL2Call
  split_ifs with hfull
  · exact .nil _
  · have hmove : Touched s.regime s.cells (l2TransferTouches exec s payer s.serverKey value time)
        (l2TransferSync exec s payer s.serverKey value time).2.cells := by
      unfold l2TransferTouches l2TransferSync
      split_ifs
      · exact .nil _
      · exact touched_transfer
    dsimp only
    split_ifs
    · exact hmove
    · exact hmove

end

end Ces
