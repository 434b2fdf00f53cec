import Ces.File.Store

/-!
# Billing a file verb

A verb's body runs once with an injected billing policy: the network signer pays through `signerSpend`, an
in-process caller out of the program account of its own file through `debitAccount`. The two policies read
the same signed cost through different guards: `signerSpend` compares it as an unsigned number with the
balance, `debitAccount` as a signed one.

`transact` is the one shape of the ledger transactions of all verbs: an optional check of the file's balance,
the charge, and the verb's own write when the request is no replay.
-/

namespace Ces

open Ces.Lib Ces.Lib.Posix

/-- The server with its file store. `sourceInsufficient` is the flag the in-process policy raises. -/
structure FileServer where
  server : CesServer
  files : FileConfig
  disk : Disk
  dedup : List UInt64
  sourceInsufficient : Bool

inductive L2Billing where
  | signer (signer : Hash) (reqNonce : UInt32) (sigHash : UInt64) (errFee : Int)
  | source (sourceProg : Hash) (metered : Bool)
  | free

structure L2ChargeResult where
  rc : Rc
  duplicate : Bool
  deriving DecidableEq

/-- The account that pays. -/
def L2Billing.payer : L2Billing → Option HashPrefix
  | .signer key _ _ _ => some (getHashPrefix key)
  | .source prog metered => if metered then some (getHashPrefix prog) else none
  | .free => none

namespace FileServer

variable (f : FileServer)

def accounts : Accounts := f.server.accounts

def setAccounts (a : Accounts) : FileServer := { f with server := { f.server with accounts := a } }

@[simp] theorem accounts_setAccounts (a : Accounts) : (f.setAccounts a).accounts = a := rfl

def balance (key : Hash) : Int := f.accounts.balance (getHashPrefix key)

/-- `signerBilling`, `sourceBilling` and `noBilling`. -/
def charge (bill : L2Billing) (cost : Int) : L2ChargeResult × FileServer :=
  match bill with
  | .signer key reqNonce sigHash errFee =>
    if reqNonce = Accounts.nonceless ∧ sigHash ∈ f.dedup then (⟨.ok, true⟩, f)
    else
      match f.accounts.signerSpend key (asUInt64 cost) reqNonce errFee with
      | (.ok, a) =>
        (⟨.ok, false⟩,
          { f.setAccounts a with dedup := if reqNonce = Accounts.nonceless then sigHash :: f.dedup else f.dedup })
      | (rc, a) => (⟨rc, false⟩, f.setAccounts a)
  | .source prog metered =>
    if !metered then (⟨.ok, false⟩, f)
    else
      match f.accounts.debitAccount prog (asUInt64 cost) with
      | (true, a) => (⟨.ok, false⟩, f.setAccounts a)
      | (false, a) => (⟨.insufficientBalance, false⟩, { f.setAccounts a with sourceInsufficient := true })
  | .free => (⟨.ok, false⟩, f)

/-- The transaction of a verb: `admits` is checked before any fee, `commit` runs when the charge went through and
the request is no replay. -/
def transact (bill : L2Billing) (admits : Accounts → Bool) (cost : Int) (commit : Accounts → Accounts) :
    L2ChargeResult × FileServer :=
  if !admits f.accounts then (⟨.insufficientBalance, false⟩, f)
  else
    match f.charge bill cost with
    | (⟨.ok, false⟩, f') => (⟨.ok, false⟩, f'.setAccounts (commit f'.accounts))
    | other => other

/-! ### Rent -/

/-- `_l2DebitProgramAccountSync` of a file's account. The amount goes through a signed cast. -/
def debitProgramAccountSync (sc : Sidecar) (amount : UInt64) : Bool × FileServer :=
  match f.accounts.debitProgramAccount sc.programPubkey (asInt64 amount) with
  | ((ok, _), a) => (ok, f.setAccounts a)

/-- Roll the rent forward to now, or delete the file that cannot pay it. -/
def chargeRentOrDelete (env : CallEnv) (cPath sPath : List Bytes) (sc : Sidecar) : Option Sidecar × FileServer :=
  if isServerZone sc.name then (some sc, f)
  else if sc.type = .kv then (some sc, f)
  else
    let owed := computeOwedRent sc.size f.files.feeFileRent sc.lastRentUs env.now
    if owed = 0 then (some sc, f)
    else
      match f.debitProgramAccountSync sc owed with
      | (true, f') => (some { sc with lastRentUs := env.now }, f')
      | (false, f') => (none, { f' with disk := f'.disk.expire f.files cPath sPath sc })

end FileServer

end Ces
