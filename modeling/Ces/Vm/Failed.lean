import Ces.Vm.Value

/-!
# Failed host calls

A program that gets an error code may go on and commit, so a failed call has to leave the ledger alone by itself.
Every call that answers with a code does, apart from the two that credit an account which has to exist, and look
for it only after the debit: `deposit` when the program owner has no account, `withdraw` when the caller has none.
-/

namespace Ces

open Ces.Lib

namespace VmHost

/-- The same accounts, assets and aliases, and the same allowance. -/
structure Untouched (h h' : VmHost) : Prop where
  accounts : h'.server.accounts = h.server.accounts
  assets : h'.server.assets = h.server.assets
  aliases : h'.server.aliases = h.server.aliases
  allowance : h'.allowance = h.allowance

theorem Untouched.refl (h : VmHost) : Untouched h h := ⟨rfl, rfl, rfl, rfl⟩

/-- The result is a success, or nothing was touched. -/
def NoOp (h : VmHost) (r : Rc × VmHost) : Prop := r.1 ≠ .ok → Untouched h r.2

variable {h : VmHost}

theorem noOp_of_eq {r : Rc × VmHost} (hr : r.2 = h) : NoOp h r := by
  intro _
  rw [hr]
  exact .refl h

theorem noOp_stay (rc : Rc) : NoOp h (rc, h) := noOp_of_eq rfl

theorem noOp_ok (h' : VmHost) : NoOp h (.ok, h') := fun hrc => absurd rfl hrc

theorem noOp_andThen {r : Rc × VmHost} {next : VmHost → Rc × VmHost} (hr : NoOp h r)
    (hnext : ∀ h', r = (.ok, h') → NoOp h (next h')) : NoOp h (andThen r next) := by
  obtain ⟨rc, h'⟩ := r
  by_cases hrc : rc = .ok
  · subst hrc
    exact hnext h' rfl
  · rw [andThen_of_ne _ hrc]
    exact hr

/-! ### Calls that only credit what they may create -/

theorem noOp_callerMove (payee : HashPrefix) (amount : UInt64) (next : VmHost → VmHost) :
    NoOp h (andThen (h.checkCredit payee amount, h) fun h =>
      andThen (h.debitCaller amount) fun h => (.ok, next h)) := by
  rcases callerMove_cases h payee amount fun h => (.ok, next h) with ⟨hsame, -⟩ | ⟨mid, heq, -⟩
  · exact noOp_of_eq hsame
  · rw [heq]
    exact noOp_ok _

theorem noOp_ownerTransfer (dest : Hash) (amount : UInt64) : NoOp h (h.ownerTransfer dest amount) := by
  unfold ownerTransfer
  rcases ownerMove_cases h (getHashPrefix dest) amount fun h => (.ok, h.creditDest dest amount) with
    ⟨hsame, -⟩ | ⟨mid, heq, -⟩
  · exact noOp_of_eq hsame
  · rw [heq]
    exact noOp_ok _

theorem noOp_transfer (dest : Hash) (amount : UInt64) : NoOp h (h.transfer dest amount) :=
  noOp_callerMove _ _ _

theorem noOp_buyAsset (key : Hash) (maxPrice : UInt64) : NoOp h (h.buyAsset key maxPrice) := by
  unfold buyAsset
  cases h.server.assets.lookup key with
  | none => exact noOp_stay _
  | some asset =>
    dsimp only
    split_ifs
    · exact noOp_stay _
    · exact noOp_stay _
    · exact noOp_callerMove _ _ _

theorem noOp_crossTransfer (dest : Hash) (amount : UInt64) (server : Bytes) :
    NoOp h (h.crossTransfer dest amount server) := by
  unfold crossTransfer
  cases h.findPeer server with
  | none => exact noOp_stay _
  | some peer =>
    dsimp only
    split
    · exact noOp_stay _
    · exact noOp_callerMove _ _ _

theorem noOp_l2call (disc : Bytes) (value : UInt64) (blob : Bytes) (followupKey : Hash) (followupBudget : UInt64)
    (followupTag : UInt32) : NoOp h (h.l2call disc value blob followupKey followupBudget followupTag) := by
  unfold l2call
  cases h.server.l2Registry.lookup (UInt64.ofNat (beNat (disc.take 8))) with
  | none => exact noOp_stay _
  | some handler =>
    dsimp only
    split
    · exact noOp_stay _
    · exact noOp_andThen (noOp_transfer _ _) fun h' _ => noOp_ok _

/-! ### Asset and alias writes -/

theorem noOp_createAsset (key : Hash) (content : AssetData) (days : UInt16) :
    NoOp h (h.createAsset key content days) := by
  unfold createAsset
  split_ifs
  · exact noOp_stay _
  · exact noOp_stay _
  · exact noOp_ok _

/-- A run without a boot asset is refused after the cell was saved: the undo log is no part of the ledger. -/
theorem noOp_createAssetManaged (key : Hash) (content : AssetData) (days : UInt16) :
    NoOp h (h.createAssetManaged key content days) := by
  unfold createAssetManaged
  split_ifs
  · exact noOp_stay _
  · exact noOp_stay _
  · exact fun _ => ⟨rfl, rfl, rfl, rfl⟩
  · exact noOp_ok _

theorem noOp_createAssetRange (firstKey : Hash) (n : UInt32) (days : UInt16) :
    NoOp h (h.createAssetRange firstKey n days) := by
  unfold createAssetRange
  split
  · exact noOp_stay _
  · exact noOp_ok _

theorem noOp_writeAsset (key : Hash) (change : Asset → Asset) : NoOp h (h.writeAsset key change) := by
  unfold writeAsset
  cases h.server.assets.lookup key with
  | none => exact noOp_stay _
  | some asset =>
    dsimp only
    split
    · exact noOp_ok _
    · exact noOp_stay _

theorem noOp_fundAsset (key : Hash) (days : UInt16) : NoOp h (h.fundAsset key days) := by
  unfold fundAsset
  cases h.server.assets.lookup key with
  | none => exact noOp_stay _
  | some asset => exact noOp_ok _

theorem noOp_writeAlias (id : UInt32) (offset : Nat) (src : Bytes) : NoOp h (h.writeAlias id offset src) := by
  unfold writeAlias
  cases h.server.aliases.lookup id with
  | none => split_ifs <;> exact noOp_stay _
  | some al =>
    dsimp only
    split_ifs <;> first | exact noOp_stay _ | exact noOp_ok _

/-! ### Queued work -/

theorem noOp_enqueueRun (run : ScheduledRun) (timeUs : UInt64) : NoOp h (h.enqueueRun run timeUs) := by
  unfold enqueueRun CesServer.scheduleRunUndoable
  split_ifs
  · exact fun _ => ⟨rfl, rfl, rfl, rfl⟩
  · exact noOp_ok _

theorem noOp_scheduleAlias (aliasId : UInt32) (budget allowance : UInt64) (input : Bytes) (timeUs : UInt64) :
    NoOp h (h.scheduleAlias aliasId budget allowance input timeUs) := by
  unfold scheduleAlias
  split
  · exact noOp_stay _
  cases h.server.aliases.lookup aliasId with
  | none => exact noOp_stay _
  | some al =>
    dsimp only
    split
    · exact noOp_stay _
    · exact noOp_enqueueRun _ _

/-- A run that is not queued gives the carved allowance back. -/
theorem noOp_carved (childAllowance : UInt64) {queue : VmHost → Rc × VmHost} (hqueue : ∀ h, NoOp h (queue h)) :
    NoOp h (h.carved childAllowance queue) := by
  unfold carved
  split_ifs
  · exact hqueue h
  · exact noOp_stay _
  · have hchild := hqueue { h with allowance := h.allowance - childAllowance }
    split
    · exact noOp_ok _
    · next rc h' hrc heq =>
      rw [heq] at hchild
      intro _
      obtain ⟨haccounts, hassets, haliases, hallowance⟩ := hchild hrc
      exact ⟨haccounts, hassets, haliases, by
        change h'.allowance + childAllowance = h.allowance
        rw [hallowance]
        exact UInt64.sub_add_cancel _ _⟩

/-- A request counts and is posted; accounts, assets and aliases it only reads. -/
theorem queueRpc_ledger (s : CesServer) (pending : PendingRpc) :
    (s.queueRpc pending).2.accounts = s.accounts ∧ (s.queueRpc pending).2.assets = s.assets ∧
      (s.queueRpc pending).2.aliases = s.aliases := by
  unfold CesServer.queueRpc
  split_ifs <;> (try exact ⟨rfl, rfl, rfl⟩)
  cases s.assets.lookup pending.fileHeadKey with
  | none => exact ⟨rfl, rfl, rfl⟩
  | some head =>
    dsimp only
    split
    · cases readFileChunkBytes s.assets pending.fileHeadKey s.cfg.rpcMaxRequestBytes <;> exact ⟨rfl, rfl, rfl⟩
    · exact ⟨rfl, rfl, rfl⟩

theorem noOp_rpc (host : Bytes) (port : UInt16) (fileHeadKey followupProgramKey : Hash) (followupBudget : UInt64)
    (followupInputTag : UInt32) :
    NoOp h (h.rpc host port fileHeadKey followupProgramKey followupBudget followupInputTag) := by
  intro _
  obtain ⟨haccounts, hassets, haliases⟩ := queueRpc_ledger h.server
    (h.pendingRpc host port fileHeadKey followupProgramKey followupBudget followupInputTag)
  exact ⟨haccounts, hassets, haliases, rfl⟩

/-! ### Calls that look for the payee last -/

/-- The payer can pay, and there is nobody to pay. -/
structure Strands (h : VmHost) (payer payee : HashPrefix) (amount : UInt64) : Prop where
  missing : h.findAccount payee = none
  nonzero : amount ≠ 0
  covered : (amount.toNat : Int) ≤ h.balance payer

theorem Strands.not_refused {payer payee : HashPrefix} {amount : UInt64} (hs : Strands h payer payee amount) :
    ¬ Refused h payer amount := by
  rintro ⟨-, hlow⟩
  have hcovered := hs.covered
  have hupper := h.balance_upper payer
  have hpos : 0 < amount.toNat := UInt64.lt_iff_toNat_lt.mp (UInt64.pos_iff_ne_zero.mpr hs.nonzero)
  unfold balanceMax at hupper
  have hfound : (h.findAccount payer).isSome := by
    by_contra hnone
    have hzero : h.balance payer = 0 := Accounts.balance_of_none (Option.not_isSome_iff_eq_none.mp hnone)
    omega
  have hguard := hlow hfound
  rw [asInt64_of_lt (by omega)] at hguard
  omega

theorem Strands.check {payer payee : HashPrefix} {amount : UInt64} (hs : Strands h payer payee amount) :
    h.checkCredit payee amount = .ok := by
  by_contra hrefused
  obtain ⟨-, hroom⟩ := (credit_refused_iff payee amount).mp hrefused
  have hzero : h.balance payee = 0 := Accounts.balance_of_none hs.missing
  have hcovered := hs.covered
  have hupper := h.balance_upper payer
  omega

/-- A debit of a positive amount that fits a balance is seen in the payer's. -/
theorem Debited.accounts_ne {mid : VmHost} {payer : HashPrefix} {amount : UInt64} (hd : Debited h mid payer amount)
    (hne : amount ≠ 0) (hfits : (amount.toNat : Int) ≤ balanceMax) :
    (amount.toNat : Int) ≤ h.balance payer ∧ mid.server.accounts ≠ h.server.accounts := by
  have hpos : 0 < amount.toNat := UInt64.lt_iff_toNat_lt.mp (UInt64.pos_iff_ne_zero.mpr hne)
  have hguard := hd.guard
  have hupper := h.balance_upper payer
  have hwrote := hd.wrote.balance payer
  unfold balanceMax at hfits hupper
  rw [asInt64_of_lt (by omega)] at hguard hwrote
  rw [if_pos rfl, wrap48_of_range (by unfold balanceMin; omega) (by unfold balanceMax; omega)] at hwrote
  refine ⟨hguard, fun hsame => ?_⟩
  have hbalance : mid.balance payer = h.balance payer := congrArg (Accounts.balance · payer) hsame
  omega

theorem noOp_creditExisting_iff {mid : VmHost} {payer payee : HashPrefix} {amount : UInt64}
    (hcheck : h.checkCredit payee amount = .ok) (hp : Paid h mid payer amount) :
    NoOp h (mid.creditExisting payee amount) ↔ ¬ Strands h payer payee amount := by
  cases hfound : mid.findAccount payee with
  | some acc =>
    have hpayee := hp.found_iff payee
    refine ⟨fun _ hs => ?_, fun _ => ?_⟩
    · rw [hfound, hs.missing] at hpayee
      exact absurd hpayee (by simp)
    · unfold creditExisting
      rw [hfound]
      exact noOp_ok _
  | none =>
    obtain ⟨hmissing, hfits⟩ := ValueCall.room_of_check hcheck hp hfound
    have heq : mid.creditExisting payee amount = (.originNotFound, mid) := by
      unfold creditExisting
      rw [hfound]
    rw [heq]
    rcases hp with ⟨hzero, rfl⟩ | ⟨hne, hd⟩
    · exact ⟨fun _ hs => hs.nonzero hzero, fun _ => noOp_stay _⟩
    · obtain ⟨hcovered, hchanged⟩ := hd.accounts_ne hne hfits
      exact ⟨fun hnoop => absurd (hnoop (by simp)).accounts hchanged,
        fun hnot => absurd ⟨hmissing, hne, hcovered⟩ hnot⟩

theorem noOp_deposit_iff (amount : UInt64) :
    NoOp h (h.deposit amount) ↔ ¬ (amount ≤ h.allowance ∧ Strands h h.caller h.programOwner amount) := by
  unfold deposit
  rcases callerMove_cases h h.programOwner amount fun h => h.creditExisting h.programOwner amount with
    ⟨hsame, hwhy⟩ | ⟨mid, heq, hcheck, hle, hp⟩
  · refine ⟨fun _ => ?_, fun _ => noOp_of_eq hsame⟩
    rintro ⟨hle, hs⟩
    rcases hwhy with hcheck | hallowance | hrefused
    · exact hcheck hs.check
    · exact absurd hle (UInt64.not_le.mpr hallowance)
    · exact hs.not_refused hrefused
  · rw [heq, hp.caller.2, noOp_creditExisting_iff hcheck hp]
    exact ⟨fun hnot hboth => hnot hboth.2, fun hnot hs => hnot ⟨hle, hs⟩⟩

theorem noOp_withdraw_iff (amount : UInt64) :
    NoOp h (h.withdraw amount) ↔ ¬ Strands h h.programOwner h.caller amount := by
  unfold withdraw
  rcases ownerMove_cases h h.caller amount fun h => h.creditExisting h.caller amount with
    ⟨hsame, hwhy⟩ | ⟨mid, heq, hcheck, hp⟩
  · refine ⟨fun _ hs => ?_, fun _ => noOp_of_eq hsame⟩
    rcases hwhy with hcheck | hrefused
    · exact hcheck hs.check
    · exact hs.not_refused hrefused
  · rw [heq, hp.caller.1, noOp_creditExisting_iff hcheck hp]

end VmHost

/-! ### Every call -/

namespace HostCall

open VmHost

/-- When the call fails with a code, nothing was touched. -/
def FailsClean (c : HostCall) (h : VmHost) : Prop :=
  ∀ code, (handle c h).1 = .rc code → code ≠ .ok → Untouched h (handle c h).2

/-- The call debits an account and then finds nobody to credit. -/
def LosesDebit (c : HostCall) (h : VmHost) : Prop :=
  match c with
  | .deposit amount => amount ≤ h.allowance ∧ Strands h h.caller h.programOwner amount
  | .withdraw amount => Strands h h.programOwner h.caller amount
  | _ => False

theorem failsClean_answer {c : HostCall} {h : VmHost} {r : Rc × VmHost} (hr : handle c h = answer r) :
    FailsClean c h ↔ NoOp h r := by
  unfold FailsClean NoOp
  rw [hr]
  refine ⟨fun hclean hrc => hclean r.1 rfl hrc, fun hnoop code hcode hne => hnoop ?_⟩
  rw [HostReply.rc.inj hcode]
  exact hne

/-- A failed call leaves every account, asset and alias and the allowance alone, unless it is a deposit or a
withdrawal whose payee is missing. -/
theorem failsClean_iff (c : HostCall) (h : VmHost) : c.FailsClean h ↔ ¬ c.LosesDebit h := by
  cases c with
  | readAccount id => simp [FailsClean, LosesDebit, handle]
  | readAlias id offset len => simp [FailsClean, LosesDebit, handle]
  | readAsset key => simp [FailsClean, LosesDebit, handle]
  | refillGas requested => simp [FailsClean, LosesDebit, handle]
  | sendUdp addr port data => simp [FailsClean, LosesDebit, handle]
  | sendClient clientId data => simp [FailsClean, LosesDebit, handle]
  | verifySig data sig pubkey => simp [FailsClean, LosesDebit, handle]
  | allowance => simp [FailsClean, LosesDebit, handle]
  | deposit amount => exact (failsClean_answer rfl).trans (noOp_deposit_iff amount)
  | withdraw amount => exact (failsClean_answer rfl).trans (noOp_withdraw_iff amount)
  | transfer dest amount => exact ⟨fun _ => id, fun _ => (failsClean_answer rfl).mpr (noOp_transfer _ _)⟩
  | ownerTransfer dest amount => exact ⟨fun _ => id, fun _ => (failsClean_answer rfl).mpr (noOp_ownerTransfer _ _)⟩
  | buyAsset key maxPrice => exact ⟨fun _ => id, fun _ => (failsClean_answer rfl).mpr (noOp_buyAsset _ _)⟩
  | crossTransfer dest amount server =>
    exact ⟨fun _ => id, fun _ => (failsClean_answer rfl).mpr (noOp_crossTransfer _ _ _)⟩
  | l2call disc value blob followupKey followupBudget followupTag =>
    exact ⟨fun _ => id, fun _ => (failsClean_answer rfl).mpr (noOp_l2call _ _ _ _ _ _)⟩
  | createAsset key content days =>
    exact ⟨fun _ => id, fun _ => (failsClean_answer rfl).mpr (noOp_createAsset _ _ _)⟩
  | createAssetManaged key content days =>
    exact ⟨fun _ => id, fun _ => (failsClean_answer rfl).mpr (noOp_createAssetManaged _ _ _)⟩
  | createAssetRange firstKey n days =>
    exact ⟨fun _ => id, fun _ => (failsClean_answer rfl).mpr (noOp_createAssetRange _ _ _)⟩
  | updateAsset key content => exact ⟨fun _ => id, fun _ => (failsClean_answer rfl).mpr (noOp_writeAsset _ _)⟩
  | updateAssetMeta key newOwner price =>
    exact ⟨fun _ => id, fun _ => (failsClean_answer rfl).mpr (noOp_writeAsset _ _)⟩
  | giveAsset key newOwner => exact ⟨fun _ => id, fun _ => (failsClean_answer rfl).mpr (noOp_writeAsset _ _)⟩
  | fundAsset key days => exact ⟨fun _ => id, fun _ => (failsClean_answer rfl).mpr (noOp_fundAsset _ _)⟩
  | writeAlias id offset src =>
    exact ⟨fun _ hfalse => hfalse, fun _ => (failsClean_answer rfl).mpr (noOp_writeAlias _ _ _)⟩
  | schedule assetId budget allowance input timeUs =>
    exact ⟨fun _ => id, fun _ => (failsClean_answer rfl).mpr (noOp_carved _ fun h => noOp_enqueueRun _ _)⟩
  | scheduleAlias aliasId budget allowance input timeUs =>
    exact ⟨fun _ => id, fun _ => (failsClean_answer rfl).mpr (noOp_carved _ fun h => noOp_scheduleAlias _ _ _ _ _)⟩
  | rpc host port fileHeadKey followupProgramKey followupBudget followupInputTag =>
    exact ⟨fun _ => id, fun _ => (failsClean_answer rfl).mpr (noOp_rpc _ _ _ _ _ _)⟩

end HostCall

def payingKey : Hash := ByteArr.ofList 32 (List.replicate 32 4)
def vendorKey : Hash := ByteArr.ofList 32 (List.replicate 32 6)

/-- The caller reserved its whole balance as gas, which erased its account; the program owner holds 1000. -/
def reservedAllHost : VmHost :=
  let s := CesServer.load .stock (ByteArr.zero 32)
    (((∅ : FMap HashPrefix Account).insert (getHashPrefix payingKey) (.ofKey payingKey 5000 0)).insert
      (getHashPrefix vendorKey) (.ofKey vendorKey 1000 0)) ∅ ∅
  .ofRequest { s with accounts := s.accounts.debit (getHashPrefix payingKey) 5000 }
    { callerPrefix := getHashPrefix payingKey, callerKey := payingKey, selfAssetKey := vendorKey
      programOwnerPrefix := getHashPrefix vendorKey, code := [], input := [], budget := 5000, allowance := 0
      gasMult := 1, enableVerifySig := false, freeBudget := false, invokeKind := 0, refillCeiling := 0 }

/-- The withdrawal fails, and the owner is 40 poorer. -/
theorem failed_withdraw_keeps_debit :
    let r := VmHost.handle (.withdraw 40) reservedAllHost
    r.1 = .rc .originNotFound ∧ reservedAllHost.balance (getHashPrefix vendorKey) = 1000 ∧
      r.2.balance (getHashPrefix vendorKey) = 960 := by
  decide

end Ces
