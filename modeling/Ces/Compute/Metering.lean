import Ces.File.Rules
import Ces.File.Handler
import Ces.Ledger.Gossip
import Ces.Plex.ChannelMeter

/-!
# Metering

Network use, gossip budgets and rent are all computed as unsigned numbers and taken by one debit that compares and
subtracts signed ones. `Metered` is what a charge should do: take exactly the amount, or report failure and
change nothing. `metered_bill_iff` says when the debit does: the amount survives the cast, or the debit is refused.
The events of `MeterEvent` are the charges that end in this debit.
-/

namespace Ces

open Ces.Lib Ces.Lib.Posix

/-! ### A sidecar that is written -/

namespace FileServer

variable {f : FileServer} {env : CallEnv} {name : Bytes} {sc : Sidecar} {d : Disk}

theorem contentPath_split (f : FileServer) (name : Bytes) :
    ∃ path last, f.contentPath name = path ++ [last] ∧ f.sidecarPath name = path ++ [last ++ sidecarSuffix] := by
  have hne : f.contentPath name ≠ [] := by
    unfold contentPath resolveContentPath joinPath components
    split_ifs <;> simp [List.splitOn, List.splitOnP_ne_nil]
  refine ⟨(f.contentPath name).dropLast, (f.contentPath name).getLast hne, ?_, ?_⟩
  · exact (List.dropLast_append_getLast hne).symm
  · change appendToPath (f.contentPath name) sidecarSuffix = _
    simp [appendToPath, List.getLastD_eq_getLast?, List.getLast?_eq_some_getLast hne]

/-- A sidecar that was written is read back, and the content beside it is as before. -/
theorem writeSidecar_reads (h : f.disk.writeSidecar env (f.sidecarPath name) sc = some d) :
    d.readSidecar f.files (f.sidecarPath name) = some sc ∧
      d.tree.read (f.contentPath name) = f.disk.tree.read (f.contentPath name) := by
  obtain ⟨path, last, hcontent, hsidecar⟩ := f.contentPath_split name
  unfold Disk.writeSidecar at h
  split_ifs at h
  cases htmp : f.disk.tree.write (appendToPath (f.sidecarPath name) (ascii ".tmp")) (.sidecar sc) with
  | none => simp [htmp] at h
  | some written =>
    simp only [htmp] at h
    obtain ⟨t, hrename, rfl⟩ := Option.map_eq_some_iff.mp h
    obtain ⟨pTmp, p, hpTmp, hp, hreplaced⟩ := FileTree.rename_write htmp hrename
    constructor
    · simp only [Disk.readSidecar, hreplaced.read_target hp]
    · refine hreplaced.read_other fun q hq => ?_
      rw [hcontent] at hq
      rw [hsidecar] at hp hpTmp
      rw [show appendToPath (path ++ [last ++ sidecarSuffix]) (ascii ".tmp") =
        path ++ [last ++ (sidecarSuffix ++ ascii ".tmp")] by simp [appendToPath]] at hpTmp
      have hnamed : last ++ (sidecarSuffix ++ ascii ".tmp") ≠ [] ∧ last ++ (sidecarSuffix ++ ascii ".tmp") ≠ [dot] ∧
          last ++ (sidecarSuffix ++ ascii ".tmp") ≠ [dot, dot] := by
        have hlen : (last ++ (sidecarSuffix ++ ascii ".tmp")).length = last.length + 17 := by
          rw [List.length_append]
          rfl
        refine ⟨?_, ?_, ?_⟩ <;> intro hbad <;> rw [hbad] at hlen <;> simp at hlen
      exact ⟨f.disk.tree.resolve_ne_of_longer (by decide) (named_sidecarSuffix last) hq hp,
        f.disk.tree.resolve_ne_of_longer (by decide) hnamed hq hpTmp⟩

end FileServer

/-! ### The debit -/

namespace Accounts

variable (a : Accounts)

/-- `_l2DebitNetworkBill`. -/
def l2DebitNetworkBill (payerPfx : HashPrefix) (amount : Int) : Bool × Accounts :=
  match a.find payerPfx with
  | none => (false, a)
  | some acc =>
    if amount ≤ acc.getBalance then (true, a.debit payerPfx (asUInt64 amount)) else (false, a)

/-- `_l2DebitProgramAccountSync` is the same debit. -/
theorem debitProgramAccount_eq_bill (key : Hash) (amount : Int) :
    ((a.debitProgramAccount key amount).1.1, (a.debitProgramAccount key amount).2) =
      a.l2DebitNetworkBill (getHashPrefix key) amount := by
  unfold debitProgramAccount l2DebitNetworkBill
  cases a.find (getHashPrefix key) with
  | none => rfl
  | some acc =>
    dsimp only
    by_cases hpoor : acc.getBalance < amount
    · rw [if_pos hpoor, if_neg (by omega)]
    · rw [if_neg hpoor, if_pos (by omega)]

/-- A charge takes exactly `due` from the payer, or changes nothing and reports failure. -/
def Metered (a a' : Accounts) (payer : HashPrefix) (due : Nat) (ok : Bool) : Prop :=
  a.Took a' payer due ∨ (a' = a ∧ ok = false)

/-- The amount survives the cast, or the debit is refused. -/
def CastSafe (payer : HashPrefix) (amount : UInt64) : Prop :=
  amount.toNat < 2 ^ 63 ∨ a.find payer = none ∨ a.balance payer < asInt64 amount

variable {a} {a' a'' : Accounts} {payer : HashPrefix} {due : Nat}

theorem Took.balance_le (h : a.Took a' payer due) (x : HashPrefix) : a'.balance x ≤ a.balance x := by
  rw [h.balance]
  split_ifs <;> omega

theorem Took.trans {due' : Nat} (h : a.Took a' payer due) (h' : a'.Took a'' payer due') :
    a.Took a'' payer (due + due') := by
  have hcovered := h.covered
  have hcovered' := h'.covered
  have hcredits := h.credits
  have hcredits' := h'.credits
  have hpayer := h.balance payer
  rw [if_pos rfl] at hpayer
  refine ⟨by push_cast; omega, fun x => ?_, ?_⟩
  · rw [h'.balance, h.balance]
    split_ifs <;> push_cast <;> omega
  · push_cast
    rw [hpayer] at hcovered'
    omega

/-- No charge raises a balance. -/
theorem Metered.balance_le {ok : Bool} (h : a.Metered a' payer due ok) (x : HashPrefix) :
    a'.balance x ≤ a.balance x := by
  rcases h with htook | ⟨rfl, -⟩
  · exact htook.balance_le x
  · exact le_refl _

theorem metered_bill_iff (a : Accounts) (payer : HashPrefix) (amount : UInt64) :
    a.Metered (a.l2DebitNetworkBill payer (asInt64 amount)).2 payer amount.toNat
      (a.l2DebitNetworkBill payer (asInt64 amount)).1 ↔ a.CastSafe payer amount := by
  unfold l2DebitNetworkBill
  cases hfind : a.find payer with
  | none => exact ⟨fun _ => .inr (.inl hfind), fun _ => .inr ⟨rfl, rfl⟩⟩
  | some acc =>
    have hbal := balance_of_find hfind
    dsimp only
    by_cases hcovered : asInt64 amount ≤ acc.getBalance
    · rw [if_pos hcovered, asUInt64_asInt64]
      constructor
      · rintro (htook | ⟨-, hbad⟩)
        · -- nobody can pay an amount that does not survive the cast
          have hle := htook.paid_le
          unfold balanceMax at hle
          exact .inl (by omega)
        · exact absurd hbad (by simp)
      · rintro (hsmall | hnone | hpoor)
        · rw [asInt64_of_lt hsmall] at hcovered
          exact .inl (took_debit hsmall (by omega))
        · rw [hfind] at hnone
          exact absurd hnone (by simp)
        · exact absurd hpoor (by omega)
    · rw [if_neg hcovered]
      exact ⟨fun _ => .inr (.inr (by omega)), fun _ => .inr ⟨rfl, rfl⟩⟩

/-- A debit that went through leaves a trace: the account is gone, or its nonce moved. -/
theorem bill_paid_ne {amount : Int} (h : a.l2DebitNetworkBill payer amount = (true, a')) : a' ≠ a := by
  unfold l2DebitNetworkBill at h
  cases hfind : a.find payer with
  | none => simp [hfind] at h
  | some acc =>
    rw [hfind] at h
    dsimp only at h
    split_ifs at h with hcovered
    · obtain rfl : a.debit payer (asUInt64 amount) = a' := by simpa using h
      intro hsame
      have hafter := find_debit hfind (asUInt64 amount) payer
      rw [hsame, hfind, if_pos rfl] at hafter
      split_ifs at hafter
      have hnonce := congrArg Account.nonce (Option.some.inj hafter)
      have hstep : acc.nonce = acc.nonce + 1 := hnonce
      simp at hstep
    · exact absurd h (by simp)

theorem bill_refused {amount : Int} (h : (a.l2DebitNetworkBill payer amount).1 = false) :
    (a.l2DebitNetworkBill payer amount).2 = a := by
  unfold l2DebitNetworkBill at h ⊢
  cases hfind : a.find payer with
  | none => rfl
  | some acc =>
    rw [hfind] at h
    dsimp only at h ⊢
    split_ifs at h ⊢
    rfl

/-- A refund of no more than what was taken leaves the difference taken. -/
theorem Took.refund {key : Hash} {refund : UInt64} (h : a.Took a' (getHashPrefix key) due)
    (hpos : 0 < due) (hle : refund.toNat ≤ due) :
    a.Took (a'.brrInner key (asInt64 refund)) (getHashPrefix key) (due - refund.toNat) := by
  have hpaid := h.paid_le
  have hcovered := h.covered
  have hcredits := h.credits
  have hpayer := h.balance (getHashPrefix key)
  have hupper := a.balance_upper (getHashPrefix key)
  rw [if_pos rfl] at hpayer
  have hsmall : refund.toNat < 2 ^ 63 := by unfold balanceMax at hpaid; omega
  rw [asInt64_of_lt hsmall]
  have hafter := a'.balance_brrInner key refund.toNat
  have hcap : ∀ x, (a'.brrInner key refund.toNat).balance x =
      if x = getHashPrefix key then a'.balance x + refund.toNat else a'.balance x := by
    intro x
    rw [hafter]
    split_ifs with hx
    · rw [hx]
      omega
    · rfl
  refine ⟨?_, fun x => ?_, by omega⟩
  · have hsum : (a'.brrInner key refund.toNat).credits = a'.credits + refund.toNat := by
      have hkey := hcap (getHashPrefix key)
      rw [if_pos rfl] at hkey
      unfold brrInner at hkey ⊢
      split_ifs at hkey ⊢ with hnone
      · omega
      · rw [credits_creditOrCreate, hkey]
        omega
    omega
  · rw [hcap, h.balance]
    split_ifs <;> omega

end Accounts

/-! ### Network use -/

structure NetFees where
  feeNetChannelSec : UInt64
  feeNetMemByteDay : UInt64
  feeNetKiBSent : UInt64
  feeNetKiBReceived : UInt64

def bytesPerKib : Nat := 1024
def secsPerDay : Nat := 86400

/-- The price of a channel's use, in 128 bits, clamped to 64. -/
def CesServer.priceNetUsage (s : CesServer) (fees : NetFees) (usage : CesPlexUsage) : UInt64 :=
  let price (used fee : UInt64) (unit : Nat) : Nat := used.toNat * (s.discountFee .net fee).toNat % 2 ^ 128 / unit
  let debit := (price usage.bytesSent fees.feeNetKiBSent bytesPerKib +
    price usage.bytesReceived fees.feeNetKiBReceived bytesPerKib +
    price usage.memByteSeconds fees.feeNetMemByteDay secsPerDay + price usage.ageSeconds fees.feeNetChannelSec 1) %
      2 ^ 128
  if 2 ^ 64 - 1 < debit then 0xFFFFFFFFFFFFFFFF else UInt64.ofNat debit

/-- `originateGossip`: the fan-out of a gossip this server authors, and what it handed out. `msgId` is the hash of
author, time and message. -/
def CesServer.originateGossip (s : CesServer) (shuffle : List GossipCand → List GossipCand) (msgId : Hash)
    (msg : Bytes) (budget : UInt64) (dest : Hash) : UInt64 × CesServer :=
  let plan := s.computeGossipFanout shuffle budget (ByteArr.zero 32)
  let seen := { s with gossipSeen := s.gossipSeen.insert (getHashPrefix msgId) ⟨ByteArr.zero 8, 0⟩ }
  (plan.fanned,
    (seen.emit (.gossipDelivery s.serverKey s.serverKey msgId dest msg)).dispatchGossipFanout s.serverKey msgId dest
      msg plan)

namespace FileServer

variable (f : FileServer)

/-- `cesplexReportUsage` and `debitNetworkBill`: the verdict, on which the first closes the channel. -/
def billNetUsage (fees : NetFees) (payer : HashPrefix) (usage : CesPlexUsage) : Bool × FileServer :=
  let amount := f.server.priceNetUsage fees usage
  if amount = 0 then (true, f)
  else
    match f.accounts.l2DebitNetworkBill payer (asInt64 amount) with
    | (ok, a) => (ok, f.setAccounts a)

/-- The outbound use of an instance, charged to its source file. -/
def billSource (env : CallEnv) (fees : NetFees) (name : Bytes) (usage : CesPlexUsage) : Bool × FileServer :=
  let amount := f.server.priceNetUsage fees usage
  if amount = 0 then (true, f) else f.debitBalance env name amount

/-- A gossip of a program: the budget is taken from the source file, what does not fan out is returned. The clock
moves on between the two calls. -/
def gossipOut (env env' : CallEnv) (shuffle : List GossipCand → List GossipCand) (name : Bytes) (msgId : Hash)
    (msg : Bytes) (budget : UInt64) (dest : Hash) : FileServer :=
  let debited := if 0 < budget then f.debitBalance env name budget else (true, f)
  if debited.1 then
    let sent := debited.2.server.originateGossip shuffle msgId msg budget dest
    let f := { debited.2 with server := sent.2 }
    if sent.1 < budget then (f.creditBalance env' name (budget - sent.1)).2 else f
  else debited.2

/-! ### What a charge is measured by -/

/-- The rent a roll takes: none in the server's zone and of key-value stores. -/
def rentDue (env : CallEnv) (sc : Sidecar) : UInt64 :=
  if isServerZone sc.name ∨ sc.type = .kv then 0 else f.owedRent env sc

/-- `rollRent f env name sc` is the rent roll of a file found under `name`. -/
def rollRent (env : CallEnv) (name : Bytes) (sc : Sidecar) : Option Sidecar × FileServer :=
  f.chargeRentOrDelete env (f.contentPath name) (f.sidecarPath name) sc

def RentMetered (env : CallEnv) (name : Bytes) (sc : Sidecar) : Prop :=
  f.accounts.Metered (f.rollRent env name sc).2.accounts (getHashPrefix sc.programPubkey) (f.rentDue env sc).toNat
    (f.rollRent env name sc).1.isSome

/-- The rent and then the amount are taken from the account of the source file; the zone pays nothing. -/
structure SourceMetered (env : CallEnv) (name : Bytes) (amount : UInt64) : Prop where
  waived : isServerZone name = true → (f.debitBalance env name amount).2.accounts = f.accounts
  missing : isServerZone name = false → f.disk.readSidecar f.files (f.sidecarPath name) = none →
    (f.debitBalance env name amount).1 = false ∧ (f.debitBalance env name amount).2.accounts = f.accounts
  rent : isServerZone name = false → ∀ sc, f.disk.readSidecar f.files (f.sidecarPath name) = some sc →
    f.RentMetered env name sc
  expired : isServerZone name = false → ∀ sc, f.disk.readSidecar f.files (f.sidecarPath name) = some sc →
    (f.rollRent env name sc).1 = none → (f.debitBalance env name amount).1 = false ∧
      (f.debitBalance env name amount).2.accounts = (f.rollRent env name sc).2.accounts
  bill : isServerZone name = false → ∀ sc, f.disk.readSidecar f.files (f.sidecarPath name) = some sc →
    (f.rollRent env name sc).1.isSome = true →
      (f.rollRent env name sc).2.accounts.Metered (f.debitBalance env name amount).2.accounts
        (getHashPrefix sc.programPubkey) amount.toNat (f.debitBalance env name amount).1

/-- Every amount taken from the source file survives its cast, in the ledger it is taken from. -/
def SourceSafe (env : CallEnv) (name : Bytes) (amount : UInt64) : Prop :=
  isServerZone name = false → ∀ sc, f.disk.readSidecar f.files (f.sidecarPath name) = some sc →
    f.accounts.CastSafe (getHashPrefix sc.programPubkey) (f.rentDue env sc) ∧
      ((f.rollRent env name sc).1.isSome = true → sidecarHasProgramAccount sc = true →
        (f.rollRent env name sc).2.accounts.CastSafe (getHashPrefix sc.programPubkey) amount)

section charges

variable {f} {env env' : CallEnv} {name : Bytes} {sc : Sidecar} {amount : UInt64}

/-- The rent roll is one debit of the rent that is due. -/
theorem rollRent_spec (f : FileServer) (env : CallEnv) (name : Bytes) (sc : Sidecar) :
    (((f.rollRent env name sc).1.isSome, (f.rollRent env name sc).2.accounts) =
      if f.rentDue env sc = 0 then (true, f.accounts)
      else f.accounts.l2DebitNetworkBill (getHashPrefix sc.programPubkey) (asInt64 (f.rentDue env sc))) ∧
    ∀ sc', (f.rollRent env name sc).1 = some sc' → sc' = { sc with lastRentUs := sc'.lastRentUs } ∧
      (f.rollRent env name sc).2 = f.setAccounts (f.rollRent env name sc).2.accounts := by
  by_cases hfree : isServerZone sc.name = true ∨ sc.type = .kv
  · have hroll : f.rollRent env name sc = (some sc, f) := by
      unfold rollRent chargeRentOrDelete
      rcases hfree with hzone | hkv
      · rw [if_pos hzone]
      · rw [if_pos hkv, ite_self]
    have hdue : f.rentDue env sc = 0 := if_pos hfree
    rw [hroll, if_pos hdue]
    refine ⟨rfl, fun sc' hsc => ?_⟩
    obtain rfl := Option.some.inj hsc
    exact ⟨rfl, rfl⟩
  have hdue : f.rentDue env sc = f.owedRent env sc := if_neg hfree
  obtain ⟨hzone, hkv⟩ := not_or.mp hfree
  rw [hdue]
  unfold rollRent chargeRentOrDelete owedRent
  rw [if_neg hzone, if_neg hkv]
  dsimp only
  generalize computeOwedRent sc.size f.files.feeFileRent sc.lastRentUs env.now = owed
  by_cases hzero : owed = 0
  · rw [if_pos hzero, if_pos hzero]
    refine ⟨rfl, fun sc' hsc => ?_⟩
    obtain rfl := Option.some.inj hsc
    exact ⟨rfl, rfl⟩
  rw [if_neg hzero, if_neg hzero]
  unfold debitProgramAccountSync
  rw [← f.accounts.debitProgramAccount_eq_bill sc.programPubkey (asInt64 owed)]
  rcases f.accounts.debitProgramAccount sc.programPubkey (asInt64 owed) with ⟨⟨_ | _, bal⟩, a⟩
  · exact ⟨rfl, fun sc' hsc => absurd hsc (by simp)⟩
  · refine ⟨rfl, fun sc' hsc => ?_⟩
    obtain rfl := Option.some.inj hsc
    exact ⟨rfl, rfl⟩

theorem rentMetered_iff (f : FileServer) (env : CallEnv) (name : Bytes) (sc : Sidecar) :
    f.RentMetered env name sc ↔ f.accounts.CastSafe (getHashPrefix sc.programPubkey) (f.rentDue env sc) := by
  have hspec := (f.rollRent_spec env name sc).1
  unfold RentMetered
  by_cases hzero : f.rentDue env sc = 0
  · rw [if_pos hzero] at hspec
    obtain ⟨halive, hsame⟩ := Prod.mk.inj hspec
    rw [hsame, hzero]
    exact ⟨fun _ => .inl (by decide), fun _ => .inl (Accounts.Took.refl _ _)⟩
  · rw [if_neg hzero] at hspec
    have hiff := f.accounts.metered_bill_iff (getHashPrefix sc.programPubkey) (f.rentDue env sc)
    rw [← hspec] at hiff
    exact hiff

/-- A sidecar is saved on the disk alone. -/
theorem trySaveModified_accounts (f : FileServer) (env : CallEnv) (name : Bytes) (sc : Sidecar) :
    (f.trySaveModified env name sc).2.accounts = f.accounts := by
  unfold trySaveModified
  cases f.disk.writeSidecar env (f.sidecarPath name) { sc with modifiedUs := env.now } <;> rfl

/-- The bill is one debit of the account the rent was taken from. When it is reported as paid, the sidecar was
saved. -/
theorem debitBalance_spec (hzone : isServerZone name = false)
    (hread : f.disk.readSidecar f.files (f.sidecarPath name) = some sc) {sc' : Sidecar}
    (halive : (f.rollRent env name sc).1 = some sc') :
    (sidecarHasProgramAccount sc = false ∧ (f.debitBalance env name amount).1 = false ∧
      (f.debitBalance env name amount).2.accounts = (f.rollRent env name sc).2.accounts) ∨
    (sidecarHasProgramAccount sc = true ∧ ∃ paid a,
      (f.rollRent env name sc).2.accounts.l2DebitNetworkBill (getHashPrefix sc.programPubkey) (asInt64 amount) =
        (paid, a) ∧ (f.debitBalance env name amount).2.accounts = a ∧
      ((f.debitBalance env name amount).1 = true → paid = true ∧
        ∃ d, f.disk.writeSidecar env (f.sidecarPath name) { sc' with modifiedUs := env.now } = some d ∧
          (f.debitBalance env name amount).2 = { f.setAccounts a with disk := d })) := by
  obtain ⟨hsc, hledger⟩ := (f.rollRent_spec env name sc).2 sc' halive
  generalize sc'.lastRentUs = rolledUs at hsc
  obtain rfl := hsc
  have hhas : sidecarHasProgramAccount { sc with lastRentUs := rolledUs } = sidecarHasProgramAccount sc := rfl
  have hroll : f.chargeRentOrDelete env (f.contentPath name) (f.sidecarPath name) sc =
      (some { sc with lastRentUs := rolledUs }, f.setAccounts (f.rollRent env name sc).2.accounts) :=
    Prod.ext halive hledger
  generalize (f.rollRent env name sc).2.accounts = a₁ at hroll
  unfold debitBalance withMetered
  rw [if_neg (by simp [hzone]), hread]
  dsimp only
  rw [hroll]
  dsimp only
  unfold debitProgramAccount
  rw [hhas]
  cases hacc : sidecarHasProgramAccount sc with
  | false => exact .inl ⟨rfl, rfl, rfl⟩
  | true =>
    refine .inr ⟨rfl, ?_⟩
    simp only [if_true]
    unfold debitProgramAccountSync
    rw [← a₁.debitProgramAccount_eq_bill sc.programPubkey (asInt64 amount)]
    rw [accounts_setAccounts]
    rcases a₁.debitProgramAccount sc.programPubkey (asInt64 amount) with ⟨⟨_ | _, bal⟩, a⟩
    · exact ⟨false, a, rfl, rfl, fun hbad => absurd hbad (by simp)⟩
    · refine ⟨true, a, rfl, trySaveModified_accounts _ env name _, fun hsaved => ⟨rfl, ?_⟩⟩
      dsimp only at hsaved ⊢
      unfold trySaveModified at hsaved ⊢
      cases hwrite : f.disk.writeSidecar env (f.sidecarPath name)
        { sc with lastRentUs := rolledUs, modifiedUs := env.now } with
      | none =>
        rw [show ((f.setAccounts a₁).setAccounts a).disk.writeSidecar env
          (((f.setAccounts a₁).setAccounts a).sidecarPath name)
            { sc with lastRentUs := rolledUs, modifiedUs := env.now } = none from hwrite]
          at hsaved
        exact absurd hsaved (by simp)
      | some d =>
        refine ⟨d, rfl, ?_⟩
        rw [show ((f.setAccounts a₁).setAccounts a).disk.writeSidecar env
          (((f.setAccounts a₁).setAccounts a).sidecarPath name)
            { sc with lastRentUs := rolledUs, modifiedUs := env.now } = some d from hwrite]
        rfl

theorem sourceMetered_iff (f : FileServer) (env : CallEnv) (name : Bytes) (amount : UInt64) :
    f.SourceMetered env name amount ↔ f.SourceSafe env name amount := by
  constructor
  · intro h hzone sc hread
    refine ⟨(f.rentMetered_iff env name sc).mp (h.rent hzone sc hread), fun halive hhas => ?_⟩
    obtain ⟨sc', hsc'⟩ := Option.isSome_iff_exists.mp halive
    have hbill := h.bill hzone sc hread halive
    rcases debitBalance_spec hzone hread hsc' with ⟨hnone, -⟩ | ⟨-, paid, a, heq, rfl, -⟩
    · rw [hnone] at hhas
      exact absurd hhas (by simp)
    · refine ((f.rollRent env name sc).2.accounts.metered_bill_iff _ amount).mp ?_
      rw [heq]
      rcases hbill with htook | ⟨hsame, hfailed⟩
      · exact .inl htook
      · cases paid with
        | false => exact .inr ⟨hsame, rfl⟩
        | true => exact absurd hsame (Accounts.bill_paid_ne heq)
  · intro h
    refine ⟨fun hzone => ?_, fun hzone hnone => ?_, fun hzone sc hread => ?_, fun hzone sc hread hdead => ?_,
      fun hzone sc hread halive => ?_⟩
    · unfold debitBalance
      rw [if_pos hzone]
    · unfold debitBalance withMetered
      rw [if_neg (by simp [hzone]), hnone]
      exact ⟨rfl, rfl⟩
    · exact (f.rentMetered_iff env name sc).mpr (h hzone sc hread).1
    · have hroll : f.chargeRentOrDelete env (f.contentPath name) (f.sidecarPath name) sc =
          (none, (f.rollRent env name sc).2) := Prod.ext hdead rfl
      unfold debitBalance withMetered
      rw [if_neg (by simp [hzone]), hread]
      dsimp only
      rw [hroll]
      exact ⟨rfl, rfl⟩
    · obtain ⟨sc', hsc'⟩ := Option.isSome_iff_exists.mp halive
      rcases debitBalance_spec hzone hread hsc' with ⟨-, hfailed, hsame⟩ | ⟨hhas, paid, a, heq, rfl, hok⟩
      · exact .inr ⟨hsame, hfailed⟩
      · have hmetered := ((f.rollRent env name sc).2.accounts.metered_bill_iff (getHashPrefix sc.programPubkey)
          amount).mpr ((h hzone sc hread).2 halive hhas)
        rw [heq] at hmetered
        rcases hmetered with htook | ⟨hsame, hfailed⟩
        · exact .inl htook
        · obtain rfl : paid = false := hfailed
          refine .inr ⟨hsame, ?_⟩
          by_contra hpaid
          exact absurd (hok (by simpa using hpaid)).1 (by simp)

/-- A refund goes to the account the rent was taken from; it is lost when the file expired. -/
theorem creditBalance_spec (hzone : isServerZone name = false) (hamount : amount ≠ 0)
    (hread : f.disk.readSidecar f.files (f.sidecarPath name) = some sc) (hhas : sidecarHasProgramAccount sc = true) :
    (f.creditBalance env name amount).2.accounts =
      if (f.rollRent env name sc).1.isSome then
        (f.rollRent env name sc).2.accounts.brrInner sc.programPubkey (asInt64 amount)
      else (f.rollRent env name sc).2.accounts := by
  have hroll : f.chargeRentOrDelete env (f.contentPath name) (f.sidecarPath name) sc =
      ((f.rollRent env name sc).1, (f.rollRent env name sc).2) := rfl
  unfold creditBalance withMetered
  rw [if_neg hamount, if_neg (by simp [hzone]), hread]
  dsimp only
  rw [hroll]
  cases hrolled : (f.rollRent env name sc).1 with
  | none => rfl
  | some sc' =>
    obtain ⟨hsc, -⟩ := (f.rollRent_spec env name sc).2 sc' hrolled
    generalize sc'.lastRentUs = rolledUs at hsc
    obtain rfl := hsc
    generalize (f.rollRent env name sc).2 = f₁
    dsimp only
    rw [trySaveModified_accounts]
    unfold creditProgramAccount
    rw [if_pos (show sidecarHasProgramAccount { sc with lastRentUs := rolledUs } = true from hhas),
      accounts_setAccounts, Option.isSome_some, if_pos rfl]

/-- A bill that was reported as paid was paid, by an account that the saved sidecar still names. -/
theorem debitBalance_paid (h : f.SourceMetered env name amount) (hzone : isServerZone name = false)
    (hread : f.disk.readSidecar f.files (f.sidecarPath name) = some sc)
    (hpaid : (f.debitBalance env name amount).1 = true) :
    (f.rollRent env name sc).2.accounts.Took (f.debitBalance env name amount).2.accounts
        (getHashPrefix sc.programPubkey) amount.toNat ∧
      (f.debitBalance env name amount).2.files = f.files ∧
      ∃ sc', (f.debitBalance env name amount).2.disk.readSidecar f.files (f.sidecarPath name) = some sc' ∧
        sc'.programPubkey = sc.programPubkey ∧ sidecarHasProgramAccount sc' = true := by
  have halive : (f.rollRent env name sc).1.isSome = true := by
    by_contra hdead
    have hfailed := (h.expired hzone sc hread (by simpa using hdead)).1
    rw [hfailed] at hpaid
    exact absurd hpaid (by simp)
  obtain ⟨sc', hsc'⟩ := Option.isSome_iff_exists.mp halive
  have htook : (f.rollRent env name sc).2.accounts.Took (f.debitBalance env name amount).2.accounts
      (getHashPrefix sc.programPubkey) amount.toNat := by
    rcases h.bill hzone sc hread halive with htook | ⟨-, hfailed⟩
    · exact htook
    · rw [hfailed] at hpaid
      exact absurd hpaid (by simp)
  rcases debitBalance_spec hzone hread hsc' with ⟨-, hfailed, -⟩ | ⟨hhas, paid, a, -, -, hsaved⟩
  · rw [hfailed] at hpaid
    exact absurd hpaid (by simp)
  obtain ⟨-, d, hwrite, heq⟩ := hsaved hpaid
  obtain ⟨hback, -⟩ := writeSidecar_reads hwrite
  obtain ⟨hsc, -⟩ := (f.rollRent_spec env name sc).2 sc' hsc'
  generalize sc'.lastRentUs = rolledUs at hsc
  obtain rfl := hsc
  refine ⟨htook, ?_, ?_⟩
  · rw [heq]
    rfl
  · rw [heq]
    exact ⟨_, hback, rfl, hhas⟩

end charges

/-! ### Gossip -/

section gossip

variable (f : FileServer) (env env' : CallEnv) (shuffle : List GossipCand → List GossipCand) (name : Bytes)
  (msgId : Hash) (msg : Bytes) (budget : UInt64) (dest : Hash)

/-- What of a budget fanned out. -/
def gossipFanned : UInt64 :=
  ((f.debitBalance env name budget).2.server.computeGossipFanout shuffle budget (ByteArr.zero 32)).fanned

/-- The server once the gossip is on its way, before the refund. -/
def gossipSent : FileServer :=
  { (f.debitBalance env name budget).2 with
    server := ((f.debitBalance env name budget).2.server.originateGossip shuffle msgId msg budget dest).2 }

/-- The budget is taken from the source file. Of it, what fanned out stays taken; the rest is given back, unless
the rent that fell due in between cannot be paid and the file is gone. -/
structure GossipMetered : Prop where
  debit : f.SourceMetered env name budget
  refused : (f.debitBalance env name budget).1 = false →
    (f.gossipOut env env' shuffle name msgId msg budget dest).accounts = (f.debitBalance env name budget).2.accounts
  waived : isServerZone name = true → (f.gossipOut env env' shuffle name msgId msg budget dest).accounts = f.accounts
  rent : isServerZone name = false → (f.debitBalance env name budget).1 = true →
    f.gossipFanned env shuffle name budget < budget →
    ∀ sc, (f.gossipSent env shuffle name msgId msg budget dest).disk.readSidecar f.files
      (f.sidecarPath name) = some sc →
      (f.gossipSent env shuffle name msgId msg budget dest).RentMetered env' name sc
  spent : isServerZone name = false → (f.debitBalance env name budget).1 = true →
    ∀ sc, f.disk.readSidecar f.files (f.sidecarPath name) = some sc →
      (f.gossipFanned env shuffle name budget < budget →
        ∃ sc', (f.gossipSent env shuffle name msgId msg budget dest).disk.readSidecar f.files (f.sidecarPath name) =
            some sc' ∧
          (f.rollRent env name sc).2.accounts.Took
            (f.gossipOut env env' shuffle name msgId msg budget dest).accounts (getHashPrefix sc.programPubkey)
              (if ((f.gossipSent env shuffle name msgId msg budget dest).rollRent env' name sc').1.isSome then
                (f.gossipFanned env shuffle name budget).toNat +
                  ((f.gossipSent env shuffle name msgId msg budget dest).rentDue env' sc').toNat
              else budget.toNat)) ∧
      (¬ f.gossipFanned env shuffle name budget < budget →
        (f.rollRent env name sc).2.accounts.Took
          (f.gossipOut env env' shuffle name msgId msg budget dest).accounts (getHashPrefix sc.programPubkey)
            budget.toNat)

/-- Every amount of the two calls survives its cast, in the ledger it is taken from. -/
def GossipSafe : Prop :=
  f.SourceSafe env name budget ∧
    (isServerZone name = false → (f.debitBalance env name budget).1 = true →
      f.gossipFanned env shuffle name budget < budget →
      ∀ sc, (f.gossipSent env shuffle name msgId msg budget dest).disk.readSidecar f.files
        (f.sidecarPath name) = some sc →
        (f.gossipSent env shuffle name msgId msg budget dest).accounts.CastSafe (getHashPrefix sc.programPubkey)
          ((f.gossipSent env shuffle name msgId msg budget dest).rentDue env' sc))

variable {f env env' shuffle name msgId msg budget dest}

theorem gossipOut_eq (hpos : 0 < budget) :
    f.gossipOut env env' shuffle name msgId msg budget dest =
      if (f.debitBalance env name budget).1 then
        if f.gossipFanned env shuffle name budget < budget then
          ((f.gossipSent env shuffle name msgId msg budget dest).creditBalance env' name
            (budget - f.gossipFanned env shuffle name budget)).2
        else f.gossipSent env shuffle name msgId msg budget dest
      else (f.debitBalance env name budget).2 := by
  unfold gossipOut
  simp only [if_pos hpos]
  rfl

theorem gossipSent_accounts :
    (f.gossipSent env shuffle name msgId msg budget dest).accounts = (f.debitBalance env name budget).2.accounts :=
  CesGossip.dispatchGossipFanout_accounts _ _ _ _ _ _

theorem gossipMetered_iff (hpos : 0 < budget) :
    f.GossipMetered env env' shuffle name msgId msg budget dest ↔
      f.GossipSafe env env' shuffle name msgId msg budget dest := by
  constructor
  · intro h
    refine ⟨(f.sourceMetered_iff env name budget).mp h.debit, fun hzone hpaid hfanned sc hread => ?_⟩
    exact (rentMetered_iff _ env' name sc).mp (h.rent hzone hpaid hfanned sc hread)
  · rintro ⟨hsource, hrent⟩
    have hdebit := (f.sourceMetered_iff env name budget).mpr hsource
    refine ⟨hdebit, fun hrefused => ?_, fun hzone => ?_, fun hzone hpaid hfanned sc hread => ?_,
      fun hzone hpaid sc hread => ?_⟩
    · rw [gossipOut_eq hpos, hrefused]
      rfl
    · have hfree : f.debitBalance env name budget = (true, f) := by
        unfold debitBalance
        rw [if_pos hzone]
      have hsent : (f.gossipSent env shuffle name msgId msg budget dest).accounts = f.accounts := by
        rw [gossipSent_accounts, hfree]
      rw [gossipOut_eq hpos, hfree, if_pos rfl]
      split_ifs
      · unfold creditBalance
        split_ifs <;> exact hsent
      · exact hsent
    · exact (rentMetered_iff _ env' name sc).mpr (hrent hzone hpaid hfanned sc hread)
    · obtain ⟨htook, hfiles, sc', hread', hkey, hhas⟩ := debitBalance_paid hdebit hzone hread hpaid
      have hsent : (f.gossipSent env shuffle name msgId msg budget dest).accounts =
          (f.debitBalance env name budget).2.accounts := gossipSent_accounts
      rw [gossipOut_eq hpos, if_pos hpaid]
      refine ⟨fun hfanned => ⟨sc', hread', ?_⟩, fun hall => ?_⟩
      · rw [if_pos hfanned]
        have hsafe := hrent hzone hpaid hfanned sc' hread'
        have hfannedNat := UInt64.lt_iff_toNat_lt.mp hfanned
        have hrefund : (budget - f.gossipFanned env shuffle name budget).toNat =
            budget.toNat - (f.gossipFanned env shuffle name budget).toNat :=
          UInt64.toNat_sub_of_le _ _ (UInt64.le_of_lt hfanned)
        have hnonzero : budget - f.gossipFanned env shuffle name budget ≠ 0 := by
          intro hzero
          rw [hzero] at hrefund
          simp at hrefund
          omega
        have hmetered := (rentMetered_iff _ env' name sc').mpr hsafe
        have hspec := (rollRent_spec (f.gossipSent env shuffle name msgId msg budget dest) env' name sc').1
        rw [← hsent] at htook
        have hfound : (f.gossipSent env shuffle name msgId msg budget dest).disk.readSidecar
            (f.gossipSent env shuffle name msgId msg budget dest).files
            ((f.gossipSent env shuffle name msgId msg budget dest).sidecarPath name) = some sc' := by
          change (f.debitBalance env name budget).2.disk.readSidecar (f.debitBalance env name budget).2.files
            (resolveSidecarPath (f.debitBalance env name budget).2.files.cesFileStoreDir name) = some sc'
          rw [hfiles]
          exact hread'
        rw [creditBalance_spec hzone hnonzero hfound hhas]
        unfold RentMetered at hmetered
        generalize f.gossipSent env shuffle name msgId msg budget dest = g at *
        rw [hkey] at hmetered hspec ⊢
        cases halive : (g.rollRent env' name sc').1.isSome with
        | true =>
          rw [if_pos rfl, if_pos rfl]
          rcases hmetered with hrolled | ⟨-, hdead⟩
          · have hboth := htook.trans hrolled
            have hnet := hboth.refund (show 0 < budget.toNat + (g.rentDue env' sc').toNat by omega)
              (show (budget - f.gossipFanned env shuffle name budget).toNat ≤ _ by omega)
            rw [hrefund] at hnet
            rw [show (f.gossipFanned env shuffle name budget).toNat + (g.rentDue env' sc').toNat =
              budget.toNat + (g.rentDue env' sc').toNat -
                (budget.toNat - (f.gossipFanned env shuffle name budget).toNat) by omega]
            exact hnet
          · rw [halive] at hdead
            exact absurd hdead (by simp)
        | false =>
          rw [if_neg (by simp), if_neg (by simp)]
          rw [halive] at hspec
          have hsame : (g.rollRent env' name sc').2.accounts = g.accounts := by
            split_ifs at hspec with hzero
            · exact absurd (congrArg Prod.fst hspec) (by simp)
            · exact (congrArg Prod.snd hspec).trans (Accounts.bill_refused (congrArg Prod.fst hspec).symm)
          rw [hsame]
          exact htook
      · rw [if_neg hall, hsent]
        exact htook

theorem SourceMetered.balance_le {amount : UInt64} (h : f.SourceMetered env name amount) (x : HashPrefix) :
    (f.debitBalance env name amount).2.accounts.balance x ≤ f.accounts.balance x := by
  cases hzone : isServerZone name with
  | true => rw [h.waived hzone]
  | false =>
    cases hread : f.disk.readSidecar f.files (f.sidecarPath name) with
    | none => rw [(h.missing hzone hread).2]
    | some sc =>
      have hrent := (h.rent hzone sc hread).balance_le x
      cases halive : (f.rollRent env name sc).1 with
      | none =>
        rw [(h.expired hzone sc hread halive).2]
        exact hrent
      | some sc' => exact le_trans ((h.bill hzone sc hread (by rw [halive]; rfl)).balance_le x) hrent

theorem GossipMetered.balance_le (h : f.GossipMetered env env' shuffle name msgId msg budget dest) (x : HashPrefix) :
    (f.gossipOut env env' shuffle name msgId msg budget dest).accounts.balance x ≤ f.accounts.balance x := by
  cases hzone : isServerZone name with
  | true => rw [h.waived hzone]
  | false =>
    cases hpaid : (f.debitBalance env name budget).1 with
    | false =>
      rw [h.refused hpaid]
      exact h.debit.balance_le x
    | true =>
      cases hread : f.disk.readSidecar f.files (f.sidecarPath name) with
      | none =>
        have hfailed := (h.debit.missing hzone hread).1
        rw [hpaid] at hfailed
        exact absurd hfailed (by simp)
      | some sc =>
        have hrent := (h.debit.rent hzone sc hread).balance_le x
        obtain ⟨hrefunded, hspent⟩ := h.spent hzone hpaid sc hread
        by_cases hfanned : f.gossipFanned env shuffle name budget < budget
        · obtain ⟨sc', -, htook⟩ := hrefunded hfanned
          exact le_trans (htook.balance_le x) hrent
        · exact le_trans ((hspent hfanned).balance_le x) hrent

/-- A gossip without a budget is free. -/
theorem gossipOut_zero : (f.gossipOut env env' shuffle name msgId msg 0 dest).accounts = f.accounts := by
  have hsent : (f.server.originateGossip shuffle msgId msg 0 dest).2.accounts = f.server.accounts :=
    CesGossip.dispatchGossipFanout_accounts _ _ _ _ _ _
  have hzero : ∀ fanned : UInt64, ¬ fanned < 0 := fun _ => UInt64.not_lt_zero
  simp only [gossipOut, if_neg (hzero _), if_true]
  exact hsent

end gossip

end FileServer

def operatorKey : Hash := ByteArr.ofList 32 (List.replicate 32 9)
def strangerKey : Hash := ByteArr.ofList 32 (List.replicate 32 3)

/-- An empty store; the operator and a stranger each hold a million. -/
def emptyStore : FileServer where
  server := .load .stock operatorKey
    (((∅ : FMap HashPrefix Account).insert (getHashPrefix operatorKey) (.ofKey operatorKey 1000000 0)).insert
      (getHashPrefix strangerKey) (.ofKey strangerKey 1000000 0)) ∅ ∅
  files :=
    { cesFileStoreDir := [ascii "d"], cesFileStoreMaxBytes := 1000000, feeFileRent := 1, feeFileWrite := 1
      feeFileRead := 1, extLocalBudget := 0
      toml := ⟨fun _ => [], fun _ => [], fun _ => none, fun _ => []⟩ }
  disk := { tree := ⟨(∅ : FMap Location (Node Content)).insert [ascii "d"] .dir⟩, kv := ∅, deleted := [] }
  dedup := []
  sourceInsufficient := false

/-! ### Every charge -/

/-- The charges that end in the signed debit: a usage report against the account of a channel, the outbound use of an
instance against its source file, a gossip budget, and the rent of a file. -/
inductive MeterEvent where
  | report (fees : NetFees) (payer : HashPrefix) (usage : CesPlexUsage)
  | source (env : CallEnv) (fees : NetFees) (name : Bytes) (usage : CesPlexUsage)
  | gossip (env env' : CallEnv) (shuffle : List GossipCand → List GossipCand) (name : Bytes) (msgId : Hash)
    (msg : Bytes) (budget : UInt64) (dest : Hash)
  | rent (env : CallEnv) (name : Bytes) (sc : Sidecar)

namespace MeterEvent

def run (f : FileServer) : MeterEvent → FileServer
  | report fees payer usage => (f.billNetUsage fees payer usage).2
  | source env fees name usage => (f.billSource env fees name usage).2
  | gossip env env' shuffle name msgId msg budget dest => f.gossipOut env env' shuffle name msgId msg budget dest
  | rent env name sc => (f.rollRent env name sc).2

/-- The charge takes exactly what is due from the payer, or fails and takes nothing. -/
def Exact (f : FileServer) : MeterEvent → Prop
  | report fees payer usage =>
    f.accounts.Metered (f.billNetUsage fees payer usage).2.accounts payer (f.server.priceNetUsage fees usage).toNat
      (f.billNetUsage fees payer usage).1
  | source env fees name usage =>
    if f.server.priceNetUsage fees usage = 0 then (f.billSource env fees name usage).2.accounts = f.accounts
    else f.SourceMetered env name (f.server.priceNetUsage fees usage)
  | gossip env env' shuffle name msgId msg budget dest =>
    if budget = 0 then (f.gossipOut env env' shuffle name msgId msg budget dest).accounts = f.accounts
    else f.GossipMetered env env' shuffle name msgId msg budget dest
  | rent env name sc => f.RentMetered env name sc

/-- Every amount of the charge is below `2 ^ 63`, or the debit is refused. -/
def Safe (f : FileServer) : MeterEvent → Prop
  | report fees payer usage => f.accounts.CastSafe payer (f.server.priceNetUsage fees usage)
  | source env fees name usage =>
    f.server.priceNetUsage fees usage = 0 ∨ f.SourceSafe env name (f.server.priceNetUsage fees usage)
  | gossip env env' shuffle name msgId msg budget dest =>
    budget = 0 ∨ f.GossipSafe env env' shuffle name msgId msg budget dest
  | rent env _ sc => f.accounts.CastSafe (getHashPrefix sc.programPubkey) (f.rentDue env sc)

theorem exact_iff (f : FileServer) (e : MeterEvent) : e.Exact f ↔ e.Safe f := by
  cases e with
  | report fees payer usage =>
    simp only [Exact, Safe, FileServer.billNetUsage]
    generalize f.server.priceNetUsage fees usage = amount
    by_cases hzero : amount = 0
    · subst hzero
      rw [if_pos rfl]
      exact ⟨fun _ => .inl (by decide), fun _ => .inl (Accounts.Took.refl _ _)⟩
    · rw [if_neg hzero]
      exact f.accounts.metered_bill_iff payer amount
  | source env fees name usage =>
    simp only [Exact, Safe, FileServer.billSource]
    by_cases hzero : f.server.priceNetUsage fees usage = 0
    · rw [if_pos hzero, if_pos hzero]
      exact ⟨fun _ => .inl hzero, fun _ => rfl⟩
    · rw [if_neg hzero, or_iff_right hzero]
      exact f.sourceMetered_iff env name _
  | gossip env env' shuffle name msgId msg budget dest =>
    simp only [Exact, Safe]
    by_cases hzero : budget = 0
    · subst hzero
      rw [if_pos rfl]
      exact ⟨fun _ => .inl rfl, fun _ => FileServer.gossipOut_zero⟩
    · rw [if_neg hzero, or_iff_right hzero]
      exact FileServer.gossipMetered_iff (UInt64.pos_iff_ne_zero.mpr hzero)
  | rent env name sc => exact f.rentMetered_iff env name sc

theorem Exact.balance_le {f : FileServer} {e : MeterEvent} (h : e.Exact f) (x : HashPrefix) :
    (e.run f).accounts.balance x ≤ f.accounts.balance x := by
  cases e with
  | report fees payer usage => exact Accounts.Metered.balance_le h x
  | source env fees name usage =>
    simp only [Exact] at h
    split_ifs at h with hzero
    · exact le_of_eq (congrArg (Accounts.balance · x) h)
    · simp only [run, FileServer.billSource]
      rw [if_neg hzero]
      exact FileServer.SourceMetered.balance_le h x
  | gossip env env' shuffle name msgId msg budget dest =>
    simp only [Exact] at h
    split_ifs at h with hzero
    · exact le_of_eq (congrArg (Accounts.balance · x) h)
    · exact FileServer.GossipMetered.balance_le h x
  | rent env name sc => exact Accounts.Metered.balance_le h x

/-- A charge is exact, and raises no balance, exactly when every amount in it survives the cast to a signed number or
its debit is refused. -/
theorem never_pays_payer_iff (f : FileServer) (e : MeterEvent) :
    (e.Exact f ∧ ∀ x, (e.run f).accounts.balance x ≤ f.accounts.balance x) ↔ e.Safe f :=
  ⟨fun h => (e.exact_iff f).mp h.1, fun h => ⟨(e.exact_iff f).mpr h, ((e.exact_iff f).mpr h).balance_le⟩⟩

/-- A channel whose price is clamped to the largest unsigned number: as a signed one it is `-1`, and the payer
gains. -/
theorem clamped_price_pays_payer :
    (let e := report ⟨2, 0, 0, 0⟩ (getHashPrefix strangerKey) ⟨0, 0, 0, 0xFFFFFFFFFFFFFFFF⟩
     emptyStore.accounts.balance (getHashPrefix strangerKey) = 1000000 ∧
       (emptyStore.billNetUsage ⟨2, 0, 0, 0⟩ (getHashPrefix strangerKey) ⟨0, 0, 0, 0xFFFFFFFFFFFFFFFF⟩).1 = true ∧
       (e.run emptyStore).accounts.balance (getHashPrefix strangerKey) = 1000001) := by
  decide +kernel

end MeterEvent

end Ces
