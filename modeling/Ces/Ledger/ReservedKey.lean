import Ces.Ledger.Coherence

/-!
# The reserved asset key

The key of 32 zero bytes stands for "no asset" in a VM run and for the start of the store in a query. A creation under
one key refuses it. A range overwrites the last 8 bytes of its first key by the cell's index, so its first cell has the
reserved key whenever the other 24 bytes are zero, whatever the first key itself is.

`Touch.proper` is what the store needs of a write. Each list of touches has its own lemma; the two that can go wrong are
those of a range.
-/

namespace Ces

open Ces.Lib CesServer

/-- The write creates no asset under the reserved key. -/
def Touch.proper : Touch → Bool
  | .createAsset _ key _ => key ≠ ByteArr.zero 32
  | _ => true

def Proper (ts : List Touch) : Prop := ∀ t ∈ ts, t.proper = true

namespace Proper

variable {ts us : List Touch}

@[simp] theorem nil : Proper [] := fun _ h => absurd h List.not_mem_nil

@[simp] theorem cons_iff {t : Touch} : Proper (t :: ts) ↔ t.proper = true ∧ Proper ts := List.forall_mem_cons

@[simp] theorem append_iff : Proper (ts ++ us) ↔ Proper ts ∧ Proper us := List.forall_mem_append

theorem ite {p : Prop} [Decidable p] (h : Proper ts) (h' : Proper us) : Proper (if p then ts else us) := by
  split_ifs
  · exact h
  · exact h'

theorem foldTrace {σ κ : Type} {step : σ → κ → σ} {touches : σ → κ → List Touch} (h : ∀ x k, Proper (touches x k))
    (l : List κ) (x : σ) : Proper (Lib.foldTrace step touches x l) := by
  induction l generalizing x with
  | nil => exact nil
  | cons k l ih => exact append_iff.mpr ⟨h x k, ih _⟩

end Proper

/-! ### Ranges -/

/-- The part of a first key that the cells of a range keep. -/
def rangePrefix (firstKey : Hash) : ByteArr 24 := firstKey.slice 0 24

theorem rangePrefix_setCellIndex (firstKey : Hash) (i : Nat) :
    rangePrefix (VmHost.rangeSetCellIndex firstKey i) = rangePrefix firstKey := by
  have hlen := leBytes_length 8 i
  exact ByteArr.slice_patch_of_le firstKey (by omega) (by omega)

theorem proper_rangeTouches {firstKey : Hash} (h : rangePrefix firstKey ≠ ByteArr.zero 24) (counted : Bool)
    (owner : HashPrefix) (n : Nat) (days : UInt16) : Proper (VmHost.rangeTouches counted owner firstKey n days) := by
  intro t ht
  obtain ⟨i, -, rfl⟩ := List.mem_map.mp ht
  refine decide_eq_true fun hzero => h ?_
  rw [← rangePrefix_setCellIndex firstKey i, hzero]
  decide

/-! ### Programs -/

namespace VmHost

variable {h : VmHost}

theorem proper_onOk {rc : Rc} {ts : List Touch} (hts : rc = .ok → Proper ts) : Proper (onOk rc ts) := by
  unfold onOk
  split_ifs with hrc
  · exact hts hrc
  · exact .nil

theorem proper_then {r : Rc × VmHost} {first : List Touch} {next : VmHost → List Touch} (hfirst : Proper first)
    (hnext : ∀ h', Proper (next h')) : Proper (thenTouches r first next) := by
  obtain ⟨rc, h'⟩ := r
  cases rc with
  | ok => exact Proper.append_iff.mpr ⟨hfirst, hnext h'⟩
  | _ => exact hfirst

theorem proper_debit (id : HashPrefix) (amount : UInt64) : Proper (h.debitTouches id amount) :=
  proper_onOk fun _ => by simp [Touch.proper]

theorem proper_caller (amount : UInt64) : Proper (h.callerTouches amount) := .ite .nil (proper_debit _ _)

theorem proper_owner (amount : UInt64) : Proper (h.ownerTouches amount) := .ite .nil (proper_debit _ _)

theorem proper_creditKey (dest : Hash) (amount : UInt64) : Proper (h.creditKeyTouches dest amount) := by
  unfold creditKeyTouches
  cases h.findAccount (getHashPrefix dest) <;> simp [Touch.proper]

theorem proper_creditExisting (id : HashPrefix) (amount : UInt64) : Proper (h.creditExistingTouches id amount) := by
  unfold creditExistingTouches
  cases h.findAccount id <;> simp [Touch.proper]

theorem proper_transfer (dest : Hash) (amount : UInt64) : Proper (h.transferTouches dest amount) :=
  proper_then .nil fun _ => proper_then (proper_caller _) fun _ => proper_creditKey _ _

theorem proper_writeAsset (key : Hash) (change : Asset → Asset) : Proper (h.writeAssetTouches key change) := by
  unfold writeAssetTouches
  cases h.server.assets.lookup key with
  | none => exact .nil
  | some asset => exact proper_onOk fun _ => by simp [Touch.proper]

theorem proper_buyAsset (key : Hash) (maxPrice : UInt64) : Proper (h.buyAssetTouches key maxPrice) := by
  unfold buyAssetTouches
  cases h.server.assets.lookup key with
  | none => exact .nil
  | some asset =>
    refine .ite .nil ?_
    exact proper_then .nil fun _ => proper_then (proper_caller _) fun _ =>
      Proper.append_iff.mpr ⟨proper_creditExisting _ _, by simp [Touch.proper]⟩

theorem proper_crossTransfer (amount : UInt64) (server : Bytes) : Proper (h.crossTransferTouches amount server) := by
  unfold crossTransferTouches
  cases h.findPeer server with
  | none => exact .nil
  | some peer =>
    refine .ite .nil ?_
    exact proper_then .nil fun _ => proper_then (proper_caller _) fun _ => proper_creditKey _ _

end VmHost

/-- A range a program asks for keeps clear of the reserved key. -/
def HostCall.KeepsClear : HostCall → Prop
  | .createAssetRange firstKey _ _ => rangePrefix firstKey ≠ ByteArr.zero 24
  | _ => True

theorem HostCall.proper_touches {c : HostCall} (hc : c.KeepsClear) (h : VmHost) : Proper (c.touches h) := by
  cases c with
  | transfer dest amount => exact VmHost.proper_transfer dest amount
  | ownerTransfer dest amount =>
    exact VmHost.proper_then .nil fun _ => VmHost.proper_then (VmHost.proper_owner _) fun _ =>
      VmHost.proper_creditKey _ _
  | deposit amount =>
    exact VmHost.proper_then .nil fun _ => VmHost.proper_then (VmHost.proper_caller _) fun _ =>
      VmHost.proper_creditExisting _ _
  | withdraw amount =>
    exact VmHost.proper_then .nil fun _ => VmHost.proper_then (VmHost.proper_owner _) fun _ =>
      VmHost.proper_creditExisting _ _
  | createAsset key content days =>
    refine VmHost.proper_onOk fun hok => ?_
    have hkey : key ≠ ByteArr.zero 32 := by
      rintro rfl
      exact nomatch hok
    simpa [Touch.proper] using hkey
  | createAssetManaged key content days =>
    refine VmHost.proper_onOk fun hok => ?_
    have hkey : key ≠ ByteArr.zero 32 := by
      rintro rfl
      exact nomatch hok
    simpa [Touch.proper] using hkey
  | createAssetRange firstKey n days => exact VmHost.proper_onOk fun _ => proper_rangeTouches hc _ _ _ _
  | updateAsset key content => exact VmHost.proper_writeAsset _ _
  | updateAssetMeta key newOwner price => exact VmHost.proper_writeAsset _ _
  | giveAsset key newOwner => exact VmHost.proper_writeAsset _ _
  | fundAsset key days =>
    change Proper (h.fundAssetTouches key days)
    unfold VmHost.fundAssetTouches
    cases h.server.assets.lookup key <;> simp [Touch.proper]
  | buyAsset key maxPrice => exact VmHost.proper_buyAsset _ _
  | crossTransfer dest amount server => exact VmHost.proper_crossTransfer _ _
  | writeAlias id offset src =>
    change Proper (h.writeAliasTouches id offset src)
    unfold VmHost.writeAliasTouches
    cases h.server.aliases.lookup id with
    | none => exact .nil
    | some al => exact VmHost.proper_onOk fun _ => by simp [Touch.proper]
  | l2call disc value blob followupKey followupBudget followupTag =>
    change Proper (h.l2callTouches disc value)
    unfold VmHost.l2callTouches
    cases h.server.l2Registry.lookup (UInt64.ofNat (beNat (disc.take 8))) with
    | none => exact .nil
    | some handler => exact .ite .nil (VmHost.proper_transfer _ _)
  | _ => exact .nil

/-- Every range the programs ask for keeps clear of the reserved key. -/
def ProgramsKeepClear (exec : CesServer → VmRunRequest → VmProgram) : Prop :=
  ∀ s req, (exec s req).Along VmHost.handle (fun c _ => c.KeepsClear) (.ofRequest s req)

section runs

variable {exec : CesServer → VmRunRequest → VmProgram} (hexec : ProgramsKeepClear exec)

theorem proper_trace {prog : VmProgram} {h : VmHost} (hprog : prog.Along VmHost.handle (fun c _ => c.KeepsClear) h) :
    Proper (prog.trace VmHost.handle HostCall.touches h) := by
  induction prog generalizing h with
  | done res => exact .nil
  | call c next ih => exact Proper.append_iff.mpr ⟨c.proper_touches hprog.1 h, ih _ hprog.2⟩

include hexec

theorem proper_settled (s : CesServer) (req : VmRunRequest) : Proper (settledTouches exec s req) := by
  refine Proper.append_iff.mpr ⟨.ite (proper_trace (hexec s req)) .nil, Proper.append_iff.mpr ⟨?_, ?_⟩⟩
  · exact .ite (by simp [Touch.proper]) .nil
  · exact .ite (.ite (by simp [Touch.proper]) .nil) .nil

theorem proper_hook (s : CesServer) (accountKey : Hash) (wantGate : Bool) (invokeKind : UInt64)
    (counterpartyKey : Hash) (amount : UInt64) :
    Proper (hookTouches exec s accountKey wantGate invokeKind counterpartyKey amount) := by
  unfold hookTouches
  cases hookAlias s accountKey wantGate with
  | none => exact .nil
  | some hook =>
    obtain ⟨al, bal⟩ := hook
    dsimp only
    cases hookProgram s (getHashPrefix accountKey) al wantGate with
    | none => exact .nil
    | some program => exact .ite .nil (proper_settled hexec _ _)

theorem proper_vmRun (s : CesServer) (req : VmRunRequest) : Proper (vmRunTouches exec s req) :=
  Proper.append_iff.mpr ⟨proper_settled hexec s req,
    .ite (.foldTrace (fun _ _ => proper_hook hexec _ _ _ _ _ _) _ _) .nil⟩

end runs

/-! ### Requests -/

section requests

variable {s : CesServer} {origin : HashPrefix}

theorem proper_spend {amount fee : UInt64} {reqNonce : UInt32} {errFee : Int} {next : List Touch} (h : Proper next) :
    Proper (s.spendTouches origin amount fee reqNonce errFee next) :=
  .ite h (by simp [Touch.proper])

theorem proper_paid {cost : UInt64} {reqNonce : UInt32} {errFee : Int} {outcome : Outcome} {writes : List Touch}
    (h : Proper writes) : Proper (s.paidTouches origin cost reqNonce errFee outcome writes) := by
  refine proper_spend ?_
  cases outcome with
  | refused rc => exact .nil
  | charged rc => simp [Touch.proper]
  | accepted t => exact Proper.append_iff.mpr ⟨h, by simp [Touch.proper]⟩

theorem proper_changeOwned (originKey assetId : Hash) (providedNonce : UInt32) (writer : HashPrefix → AssetWriter)
    (cost : UInt64) (errFee : Int) (sealable : Bool) (change : Asset → Asset) :
    Proper (changeOwnedTouches s originKey assetId providedNonce writer cost errFee sealable change) := by
  refine proper_paid ?_
  cases s.assets.lookup assetId <;> simp [Touch.proper]

theorem proper_createAsset (originKey assetId : Hash) (providedNonce : UInt32) (ownerId : HashPrefix)
    (content : AssetData) (balance : UInt16) (rentFee errFee : Int) :
    Proper (createAssetTouches s originKey assetId providedNonce ownerId content balance rentFee errFee) := by
  unfold createAssetTouches
  dsimp only
  by_cases hzero : assetId = ByteArr.zero 32
  · rw [if_pos hzero]
    exact .nil
  · rw [if_neg hzero]
    exact proper_paid (by simpa [Touch.proper] using hzero)

theorem proper_createAssetRange (originKey : Hash) (providedNonce : UInt32) (ownerId : HashPrefix) {firstKey : Hash}
    (hclear : rangePrefix firstKey ≠ ByteArr.zero 24) (count : UInt32) (days : UInt16) (rentFee errFee : Int) :
    Proper (createAssetRangeTouches s originKey providedNonce ownerId firstKey count days rentFee errFee) :=
  .ite .nil (.ite .nil (proper_paid (proper_rangeTouches hclear _ _ _ _)))

theorem proper_fundAsset (originKey assetId : Hash) (providedNonce : UInt32) (balance : UInt16)
    (fundFee rentFee errFee : Int) :
    Proper (fundAssetTouches s originKey assetId providedNonce balance fundFee rentFee errFee) := by
  refine proper_paid ?_
  cases s.assets.lookup assetId <;> simp [Touch.proper]

theorem proper_buyAsset (originKey assetId : Hash) (providedNonce : UInt32) (priceLimit : UInt64)
    (buyFee errFee : Int) : Proper (buyAssetTouches s originKey assetId providedNonce priceLimit buyFee errFee) := by
  refine .ite .nil ?_
  cases s.assets.lookup assetId with
  | none => simp [Touch.proper]
  | some asset =>
    refine .ite (by simp [Touch.proper]) (proper_spend (.ite ?_ ?_))
    · simp [Touch.proper]
    · simp [Touch.proper]

theorem proper_setAlias (originKey : Hash) (providedNonce : UInt32) (aliasId : UInt32) (offset : UInt16)
    (bytes : Bytes) (fee errFee : Int) :
    Proper (setAliasTouches s originKey providedNonce aliasId offset bytes fee errFee) := by
  unfold setAliasTouches
  dsimp only
  cases s.accounts.find (getHashPrefix originKey) with
  | none => exact .nil
  | some acc =>
    refine .ite .nil ?_
    cases aliasTarget s (getHashPrefix originKey) acc aliasId offset with
    | error rc => exact .nil
    | ok target => exact .ite .nil (proper_paid (.ite (by simp [Touch.proper]) (by simp [Touch.proper])))

/-- What is paid into a target that exists. -/
theorem proper_payTouch (destId : HashPrefix) (dest : Account) (amount : UInt64) :
    (payTouch destId dest amount).proper = true := by
  unfold payTouch
  split_ifs <;> rfl

theorem proper_move (r : TransferRequest) (s : CesServer) : Proper (r.moveTouches s) := by
  refine proper_spend ?_
  cases s.accounts.find r.destId with
  | none =>
    refine .ite (by simp [Touch.proper]) (.ite .nil ?_)
    cases s.accounts.openTarget (s.accounts.balance r.originId) r.destId r.newAccount r.amount
      (r.amount + r.flatFee s) (r.creationCost s) <;> simp [Touch.proper]
  | some dest =>
    refine .ite (by simp [Touch.proper]) ?_
    cases s.accounts.payInto r.destId dest r.amount with
    | error rc => simp [Touch.proper]
    | ok acc => exact Proper.cons_iff.mpr ⟨proper_payTouch _ _ _, by simp [Touch.proper]⟩

theorem proper_bulkItem (b : BulkState) (txFee creationCost : UInt64) (errFee : Int) (it : BulkTransferItem) :
    Proper (b.itemTouches origin txFee creationCost errFee it) := by
  have hfine : Proper (b.fineTouches origin errFee) := .ite (by simp [Touch.proper]) .nil
  have hdebit : ∀ total, Proper (b.debitTouches origin total) := fun _ => .ite (by simp [Touch.proper]) .nil
  unfold BulkState.itemTouches
  dsimp only
  cases b.server.accounts.find (getHashPrefix it.destKey) with
  | none =>
    refine .ite .nil ?_
    cases b.server.accounts.openTarget (b.balance origin) (getHashPrefix it.destKey)
      (.ofKey it.destKey (asInt64 it.amount) 0) it.amount (it.amount + txFee) creationCost with
    | error rc => exact hfine
    | ok opened => exact Proper.cons_iff.mpr ⟨rfl, hdebit _⟩
  | some dest =>
    refine .ite hfine ?_
    cases b.server.accounts.payInto (getHashPrefix it.destKey) dest it.amount with
    | error rc => exact hfine
    | ok acc => exact Proper.cons_iff.mpr ⟨proper_payTouch _ _ _, hdebit _⟩

theorem proper_bulkItems (txFee creationCost : UInt64) (errFee : Int) (items : List BulkTransferItem) (b : BulkState) :
    Proper (BulkState.itemsTouches origin txFee creationCost errFee b items) := by
  induction items generalizing b with
  | nil => exact .nil
  | cons it rest ih =>
    unfold BulkState.itemsTouches
    refine Proper.append_iff.mpr ⟨proper_bulkItem b txFee creationCost errFee it, ?_⟩
    cases b.item origin txFee creationCost errFee it with
    | error stopped => exact .nil
    | ok b' => exact ih b'

end requests

section operations

variable {exec : CesServer → VmRunRequest → VmProgram} (hexec : ProgramsKeepClear exec)
include hexec

theorem proper_transfer (s : CesServer) (r : TransferRequest) : Proper (transferTouches exec s r) := by
  have hhook := fun s key gate kind other amount => proper_hook hexec s key gate kind other amount
  have hgates : Proper (gateTouches exec s r) :=
    Proper.append_iff.mpr ⟨hhook _ _ _ _ _ _, .ite .nil (hhook _ _ _ _ _ _)⟩
  have hwatches : ∀ t, Proper (watchTouches exec t r) := fun t =>
    .ite (Proper.append_iff.mpr ⟨hhook _ _ _ _ _ _, hhook _ _ _ _ _ _⟩) (hhook _ _ _ _ _ _)
  refine .ite (Proper.append_iff.mpr ⟨hgates, .ite (by simp [Touch.proper]) ?_⟩) (proper_move r s)
  exact Proper.append_iff.mpr ⟨proper_move r _, .ite (hwatches _) .nil⟩

theorem proper_crossTransfer (s : CesServer) (r : CrossTransferRequest) : Proper (crossTransferTouches exec r s) := by
  refine proper_spend ?_
  cases s.findPeer r.destServer with
  | none => simp [Touch.proper]
  | some peer =>
    dsimp only
    cases s.settlementLoad r.destServer peer.ckey with
    | none => simp [Touch.proper]
    | some load =>
      refine .ite (by simp [Touch.proper]) (Proper.cons_iff.mpr ⟨rfl, Proper.cons_iff.mpr ⟨?_, ?_⟩⟩)
      · unfold creditOrCreateTouch
        split <;> rfl
      · exact proper_hook hexec _ _ _ _ _ _

theorem proper_handleRun (now : UInt64) (r : RunRequest) (s : CesServer) : Proper (handleRunTouches exec now r s) := by
  refine proper_spend (Proper.cons_iff.mpr ⟨rfl, ?_⟩)
  have hrefund : Proper r.refundTouches := by simp [RunRequest.refundTouches, Touch.proper]
  refine .ite (.ite .nil hrefund) ?_
  cases r.target.program (s.debit r.origin r.budget) with
  | error rc => exact hrefund
  | ok program => exact proper_vmRun hexec _ _

theorem proper_cron (s : CesServer) (now : UInt64) (key : ScheduleKey) : Proper (cronTouches exec s now key) := by
  unfold cronTouches
  cases LedgerOp.dueRun s now key with
  | none => exact .nil
  | some queued =>
    dsimp only
    unfold scheduledRunTouches
    cases CesServer.accounts { s with scheduledRuns := s.scheduledRuns.erase key } |>.find queued.callerPrefix with
    | none => exact .nil
    | some acc =>
      refine .ite .nil (Proper.append_iff.mpr ⟨.ite .nil (by simp [Touch.proper]), ?_⟩)
      unfold scheduledProgramTouches
      split
      · exact .nil
      · exact proper_vmRun hexec _ _

omit hexec in
theorem proper_brr (a : Accounts) (key : Hash) (amount : Int) : Proper (a.brrTouches key amount) := by
  refine .ite .nil (Proper.cons_iff.mpr ⟨?_, .nil⟩)
  unfold creditOrCreateTouch
  split <;> rfl

omit hexec in
theorem proper_burn (a : Accounts) (key : Hash) (amount : Int) : Proper (a.burnTouches key amount) := by
  unfold Accounts.burnTouches
  cases a.find (getHashPrefix key) with
  | none => exact .nil
  | some acc => exact .ite (by simp [Touch.proper]) .nil

omit hexec in
theorem proper_keyed (credit : CreditSource) (create : CreateSource) (a : Accounts) (key : Hash) (amount : UInt64) :
    (keyedTouch credit create a key amount).proper = true := by
  unfold keyedTouch
  cases a.find (getHashPrefix key) with
  | none => rfl
  | some acc =>
    dsimp only
    split_ifs <;> rfl

omit hexec in
theorem proper_gossip (s : CesServer) (shuffle : List GossipCand → List GossipCand) (req : CesGossip) :
    Proper (gossipTouches s shuffle req) := by
  unfold gossipTouches
  cases s.gossipSeen.lookup req.mid with
  | some seen => exact .nil
  | none =>
    refine .ite (.ite (Proper.cons_iff.mpr ⟨rfl, .ite ?_ .nil⟩) .nil) (.ite .nil (by simp [Touch.proper]))
    exact Proper.cons_iff.mpr ⟨proper_keyed _ _ _ _ _, .nil⟩

omit hexec in
theorem proper_topUp (a : Accounts) (serverKey : Hash) : Proper (a.topUpTouches serverKey) := by
  unfold Accounts.topUpTouches
  cases a.find (getHashPrefix serverKey) with
  | none => simp [Touch.proper]
  | some acc => exact .ite .nil (by simp [Touch.proper])

omit hexec in
theorem proper_daily (s : CesServer) (order : DailyOrder) : Proper (dailyTouches s order) := by
  simp only [dailyTouches, Proper.append_iff]
  refine ⟨⟨⟨⟨.foldTrace (fun w id => ?_) _ _, .foldTrace (fun st key => ?_) _ _⟩, .foldTrace (fun st id => ?_) _ _⟩,
    .foldTrace (fun st key => ?_) _ _⟩, proper_topUp _ _⟩
  · unfold Sweep.accountTouches
    cases w.accounts.find id with
    | none => exact .nil
    | some acc =>
      exact .ite (.ite (by simp [Touch.proper]) (by simp [Touch.proper]))
        (.ite (by simp [Touch.proper]) (by simp [Touch.proper]))
  · unfold sweepAssetTouches
    cases st.2.lookup key with
    | none => exact .nil
    | some asset =>
      refine .ite (.ite ?_ (by simp [Touch.proper])) (by simp [Touch.proper])
      cases st.1.rent asset.ownerId _ <;> simp [Touch.proper]
  · unfold sweepAliasTouches
    cases st.2.lookup id with
    | none => exact .nil
    | some al =>
      refine .ite .nil ?_
      cases st.1.accounts.find al.owner with
      | none => simp [Touch.proper]
      | some acc => exact .ite (by simp [Touch.proper]) (by simp [Touch.proper])
  · unfold sweepKeyNameTouches
    cases st.store.lookup key with
    | none => exact .nil
    | some name =>
      refine .ite .nil ?_
      cases st.sweep.rent (getHashPrefix key) _ <;> simp [Touch.proper]

/-- A wire request for a range keeps clear of the reserved key. -/
def ServerOp.KeepsClear : ServerOp → Prop
  | .ledger (.createAssetRange _ _ firstKey _ _ _ _ _) => rangePrefix firstKey ≠ ByteArr.zero 24
  | _ => True

theorem LedgerOp.proper_touches {op : LedgerOp} (hop : ServerOp.KeepsClear (.ledger op)) (s : CesServer) :
    Proper (op.touches exec s) := by
  cases op with
  | transfer r => exact proper_transfer hexec s r
  | bulkTransfer => exact proper_spend (proper_bulkItems _ _ _ _ _)
  | crossTransfer r => exact proper_crossTransfer hexec s r
  | createAsset => exact proper_createAsset _ _ _ _ _ _ _ _
  | createAssetRange => exact proper_createAssetRange _ _ _ hop _ _ _ _
  | updateAsset => exact proper_changeOwned _ _ _ _ _ _ _ _
  | updateAssetMeta => exact proper_changeOwned _ _ _ _ _ _ _ _
  | updateAssetFast => exact proper_changeOwned _ _ _ _ _ _ _ _
  | fundAsset => exact proper_fundAsset _ _ _ _ _ _ _
  | setAssetOwnerPays => exact proper_changeOwned _ _ _ _ _ _ _ _
  | giveAsset => exact proper_changeOwned _ _ _ _ _ _ _ _
  | buyAsset => exact proper_buyAsset _ _ _ _ _ _
  | setAlias => exact proper_setAlias _ _ _ _ _ _ _
  | deleteAlias => exact proper_paid (by simp [Touch.proper])
  | registerKeyName => exact proper_paid .nil
  | clearKeyName => exact proper_paid .nil
  | proveWork ckey difficulty =>
    change Proper (s.accounts.proveWorkTouches s.cfg.maxAcc s.cfg.feeAccount ckey difficulty)
    refine .ite .nil ?_
    cases s.accounts.find (getHashPrefix ckey) with
    | none => exact .ite .nil (by simp [Touch.proper])
    | some acc => exact .ite .nil (by simp [Touch.proper])
  | run now r => exact proper_handleRun hexec now r s
  | cron now key => exact proper_cron hexec s now key
  | gossip shuffle req addr => exact proper_gossip s shuffle req
  | gossipAck peerKey authorized rc paid =>
    exact .ite .nil (Proper.cons_iff.mpr ⟨proper_keyed _ _ _ _ _, .nil⟩)
  | daily order => exact proper_daily s order
  | topUp => exact proper_topUp _ _
  | brr key amount => exact proper_brr _ _ _
  | burn key amount => exact proper_burn _ _ _
  | walletSend destKey amount =>
    change Proper (s.accounts.walletSendTouches s.serverKey destKey amount)
    unfold Accounts.walletSendTouches
    cases s.accounts.find (getHashPrefix s.serverKey) with
    | none => exact .nil
    | some acc => exact .ite (Proper.append_iff.mpr ⟨proper_burn _ _ _, proper_brr _ _ _⟩) .nil
  | signerSpend signer amount reqNonce errFee =>
    exact .ite .nil (.ite (by simp [Touch.proper]) (by simp [Touch.proper]))
  | debitAccount key amount =>
    change Proper (s.accounts.debitAccountTouches key amount)
    unfold Accounts.debitAccountTouches
    cases s.accounts.find (getHashPrefix key) with
    | none => exact .nil
    | some acc => exact .ite .nil (by simp [Touch.proper])
  | debitProgramAccount key amount =>
    change Proper (s.accounts.debitProgramAccountTouches key amount)
    unfold Accounts.debitProgramAccountTouches
    cases s.accounts.find (getHashPrefix key) with
    | none => exact .nil
    | some acc => exact .ite .nil (by simp [Touch.proper])
  | mailCharge payer price =>
    refine .ite .nil ?_
    cases s.accounts.find (getHashPrefix payer) with
    | none => exact .nil
    | some acc => exact .ite .nil (proper_burn _ _ _)

omit hexec in
theorem PendingRpc.proper_writeChunks (p : PendingRpc) (fuel : Nat) (nextKey : Hash) (body : Bytes)
    (assets : FMap Hash Asset) : Proper (p.writeChunksTouches fuel nextKey body assets) := by
  induction fuel generalizing nextKey body assets with
  | zero => exact .nil
  | succ fuel ih =>
    unfold PendingRpc.writeChunksTouches
    refine .ite .nil ?_
    cases assets.lookup nextKey with
    | none => exact .nil
    | some chunk => exact .ite .nil (Proper.cons_iff.mpr ⟨rfl, ih _ _ _⟩)

theorem ServerOp.proper_touches {op : ServerOp} (hop : op.KeepsClear) (s : CesServer) : Proper (op.touches exec s) := by
  cases op with
  | ledger op => exact op.proper_touches hexec hop s
  | openTransfer r =>
    exact Proper.append_iff.mpr ⟨proper_transfer hexec s r, .ite (proper_hook hexec _ _ _ _ _ _) .nil⟩
  | completeRpc p now errorCode responseBody =>
    refine .ite ?_ .nil
    unfold PendingRpc.writeReplyTouches
    cases s.assets.lookup p.fileHeadKey with
    | none => exact .nil
    | some head =>
      refine .ite .nil ?_
      cases parseRamfileHeader head.content with
      | none => exact .nil
      | some header =>
        refine Proper.append_iff.mpr ⟨p.proper_writeChunks _ _ _ _, ?_⟩
        split
        · exact .nil
        · simp [Touch.proper]
  | completeL2Call e rep time => exact .ite .nil (proper_transfer hexec _ _)
  | channelL2Call handler payer value blob time => exact .ite .nil (.ite .nil (proper_transfer hexec _ _))
  | besides t => exact .nil

end operations

/-! ### Histories -/

/-- From a store without it, the reserved key stays free in every history whose ranges, requested or drawn by a
program, keep clear of it. -/
theorem reserved_key_free {exec : CesServer → VmRunRequest → VmProgram} (hexec : ProgramsKeepClear exec)
    (s : CesServer) (ops : List ServerOp) (hops : ∀ op ∈ ops, op.KeepsClear)
    (hfree : s.assets.lookup (ByteArr.zero 32) = none) :
    (runServer exec s ops).assets.lookup (ByteArr.zero 32) = none := by
  have hmeets : RunMeets exec (fun t _ => t.proper = true) s ops := by
    clear hfree
    induction ops generalizing s with
    | nil => trivial
    | cons op ops ih =>
      exact ⟨Meets.of_forall _ (op.proper_touches hexec (hops op List.mem_cons_self) s),
        ih _ fun o ho => hops o (List.mem_cons_of_mem _ ho)⟩
  refine history_invariant exec (I := fun c => c.assets.lookup (ByteArr.zero 32) = none) ?_ hmeets hfree
  intro t c hcan hproper hc
  cases t with
  | createAsset counted key asset =>
    have hkey : key ≠ ByteArr.zero 32 := of_decide_eq_true hproper
    exact (Finmap.lookup_insert_of_ne _ hkey.symm).trans hc
  | writeAsset writer key asset =>
    obtain ⟨old, hold, -⟩ := hcan
    have hkey : ByteArr.zero 32 ≠ key := by
      rintro rfl
      exact Option.some_ne_none old (hold.symm.trans hc)
    exact (Finmap.lookup_insert_of_ne _ hkey).trans hc
  | dropAsset key =>
    change (c.assets.erase key).lookup _ = none
    rw [FMap.lookup_erase_eq]
    split_ifs
    · rfl
    · exact hc
  | _ => exact hc

/-- A range of two cells under a first key that is not reserved. -/
def rangeOps (firstKey : Hash) : List ServerOp :=
  [.ledger (.brr tallyKey 1000000000),
    .ledger (.createAssetRange tallyKey (getHashPrefix tallyKey) firstKey 2 1 1 (-1) (-1))]

theorem reserved_key_free_range :
    (runServer idleExec orphanServer (rangeOps tallyKey)).assets.lookup (ByteArr.zero 32) = none ∧
      FMap.size (runServer idleExec orphanServer (rangeOps tallyKey)).assets = 2 :=
  ⟨@reserved_key_free idleExec (fun _ _ => trivial) orphanServer (rangeOps tallyKey) (by
    intro op hop
    rcases List.mem_cons.mp hop with rfl | hop
    · trivial
    · obtain rfl := List.mem_singleton.mp hop
      change rangePrefix tallyKey ≠ ByteArr.zero 24
      decide) (by decide), by decide +kernel⟩

/-- A first key of zeros but for the last byte passes the check, and its first cell has the reserved key. -/
theorem range_takes_reserved_key :
    orphanServer.assets.lookup (ByteArr.zero 32) = none ∧
      (ByteArr.ofList 32 (List.replicate 31 0 ++ [1]) : Hash) ≠ ByteArr.zero 32 ∧
      ((runServer idleExec orphanServer (rangeOps (ByteArr.ofList 32 (List.replicate 31 0 ++ [1])))).assets.lookup
        (ByteArr.zero 32)).isSome := by
  decide +kernel

end Ces
