import Mathlib.Algebra.Order.BigOperators.Group.Finset
import Ces.Ledger.Authority

/-!
# Redelivered requests

A signed request with a nonce goes through only when its nonce is the next one of the account, and its debit moves the
account's nonce up. So it takes effect once as long as the account lasts; when it is emptied, the record is erased with
its nonce, and a request of its first life goes through in its second (`Touch.Spares` says what must not happen).
A delivery that does not take effect is not free: it costs the error fee, each time.
-/

namespace Ces

open Ces.Lib CesServer

/-! ### The nonce of an account -/

/-- The account is there, with at least the given nonce. -/
def Cells.NonceFrom (id : HashPrefix) (n : Nat) (c : Cells) : Prop :=
  ∃ acc, c.accounts.lookup id = some acc ∧ n ≤ acc.nonce.toNat

/-- The write does not end the life of the account: debits and error fees leave something, the nonce does not wrap, and
the record is neither replaced nor made to count the days of a payment. -/
def Touch.Spares (id : HashPrefix) (t : Touch) (c : Cells) : Prop :=
  match t with
  | .debit x total _ | .debitRaw x total => x = id → ∀ acc ∈ c.accounts.lookup id,
      0 < int64 (acc.getBalance - asInt64 total) ∧ acc.nonce ≠ 0xFFFFFFFF
  | .fine x errFee => x = id → ∀ acc ∈ c.accounts.lookup id,
      acc.getBalance < 0 ∨ 0 < int64 (acc.getBalance - errFee)
  | .settle x _ | .age x | .expire x _ => x ≠ id
  | .create _ key _ _ | .vmCreate key _ => getHashPrefix key ≠ id
  | _ => True

namespace Cells

variable {c : Cells} {id x : HashPrefix} {n : Nat}

theorem NonceFrom.mapAccount_of_ne (h : c.NonceFrom id n) (hne : x ≠ id) (f : Account → Option Account) :
    (c.mapAccount x f).NonceFrom id n := by
  obtain ⟨acc, hacc, hn⟩ := h
  exact ⟨acc, (lookup_mapAccount _ _ _).trans ((if_neg hne.symm).trans hacc), hn⟩

/-- A change of an account that does not lower its nonce. -/
theorem NonceFrom.mapAccount (h : c.NonceFrom id n) {f : Account → Option Account}
    (hf : x = id → ∀ acc ∈ c.accounts.lookup id, ∃ acc', f acc = some acc' ∧ acc.nonce.toNat ≤ acc'.nonce.toNat) :
    (c.mapAccount x f).NonceFrom id n := by
  by_cases hne : x = id
  · obtain ⟨acc, hacc, hn⟩ := h
    obtain ⟨acc', hacc', hle⟩ := hf hne acc hacc
    refine ⟨acc', ?_, hn.trans hle⟩
    rw [lookup_mapAccount, if_pos hne.symm, hne, hacc]
    exact hacc'
  · exact h.mapAccount_of_ne hne f

theorem NonceFrom.putAccount (h : c.NonceFrom id n) (hne : x ≠ id) (acc : Account) :
    (c.putAccount x acc).NonceFrom id n := by
  obtain ⟨old, hold, hn⟩ := h
  refine ⟨old, ?_, hn⟩
  unfold Cells.putAccount
  rw [FMap.lookup_insert_eq, if_neg hne.symm]
  exact hold

end Cells

namespace Touch

variable {c : Cells} {id : HashPrefix} {n : Nat}

theorem nonce_stamp (r : Option Receipt) (acc : Account) : (stamp r acc).nonce = acc.nonce := by
  cases r <;> rfl

/-- A debit that leaves something moves the nonce up by one. -/
theorem debited_spared {total : UInt64} {receipt : Option Receipt} {acc : Account}
    (hleft : 0 < int64 (acc.getBalance - asInt64 total)) (hnonce : acc.nonce ≠ 0xFFFFFFFF) :
    ∃ acc', debited total receipt acc = some acc' ∧ acc'.nonce.toNat = acc.nonce.toNat + 1 := by
  unfold debited
  dsimp only
  rw [if_neg (not_le.mpr hleft)]
  refine ⟨_, rfl, ?_⟩
  rw [nonce_stamp, UInt32.toNat_add]
  have hne : acc.nonce.toNat ≠ 0xFFFFFFFF := fun h => hnonce (UInt32.toNat_inj.mp h)
  have hlt := acc.nonce.toNat_lt
  exact Nat.mod_eq_of_lt (by change acc.nonce.toNat + 1 < 2 ^ 32; omega)

theorem nonceFrom_debited {total : UInt64} {receipt : Option Receipt} {x : HashPrefix} (h : c.NonceFrom id n)
    (hspares : x = id → ∀ acc ∈ c.accounts.lookup id,
      0 < int64 (acc.getBalance - asInt64 total) ∧ acc.nonce ≠ 0xFFFFFFFF) :
    (c.mapAccount x (debited total receipt)).NonceFrom id n := by
  refine h.mapAccount fun hx acc hacc => ?_
  obtain ⟨hleft, hnonce⟩ := hspares hx acc hacc
  obtain ⟨acc', hacc', hup⟩ := debited_spared hleft hnonce
  exact ⟨acc', hacc', by omega⟩

/-- Writes that spare an account do not lower its nonce. -/
theorem nonceFrom_act (t : Touch) (hspares : t.Spares id c) (h : c.NonceFrom id n) : (t.act c).NonceFrom id n := by
  cases t with
  | debit x total receipt => exact nonceFrom_debited h hspares
  | debitRaw x total => exact nonceFrom_debited h hspares
  | fine x errFee =>
    refine h.mapAccount fun hx acc hacc => ?_
    unfold fined
    dsimp only
    by_cases hneg : acc.getBalance < 0
    · rw [if_pos hneg]
      exact ⟨acc, rfl, le_rfl⟩
    · rw [if_neg hneg, if_neg (not_le.mpr ((hspares hx acc hacc).resolve_left hneg))]
      exact ⟨_, rfl, le_rfl⟩
  | settle x amount => exact h.mapAccount_of_ne hspares _
  | age x => exact h.mapAccount_of_ne hspares _
  | expire x fee => exact h.mapAccount_of_ne hspares _
  | create source key balance nonce => exact h.putAccount hspares _
  | vmCreate key amount => exact h.putAccount hspares _
  | credit source x amount => exact h.mapAccount fun _ acc _ => ⟨_, rfl, le_rfl⟩
  | vmDebit x amount => exact h.mapAccount fun _ acc _ => ⟨_, rfl, le_rfl⟩
  | vmCredit x amount => exact h.mapAccount fun _ acc _ => ⟨_, rfl, le_rfl⟩
  | rent x fee => exact h.mapAccount fun _ acc _ => ⟨_, rfl, le_rfl⟩
  | reset x target => exact h.mapAccount fun _ acc _ => ⟨_, rfl, le_rfl⟩
  | createAsset counted key asset => exact h
  | writeAsset writer key asset => exact h
  | dropAsset key => exact h
  | generator al => exact h
  | createAlias k al =>
    have hlinked : (c.mapAccount al.owner fun acc => some { acc with aliasId := k }).NonceFrom id n :=
      h.mapAccount fun _ acc _ => ⟨_, rfl, le_rfl⟩
    exact hlinked
  | patchAlias principal k al => exact h
  | dropAlias holder k =>
    have hunlinked : (c.mapAccount holder (unlinked k)).NonceFrom id n := by
      refine h.mapAccount fun _ acc _ => ⟨_, rfl, ?_⟩
      split_ifs <;> exact le_rfl
    exact hunlinked

/-- The account's own debit moves its nonce up. -/
theorem nonceFrom_debit {total : UInt64} {receipt : Option Receipt}
    (hspares : (Touch.debit id total receipt).Spares id c)
    (h : c.NonceFrom id n) : ((Touch.debit id total receipt).act c).NonceFrom id (n + 1) := by
  obtain ⟨acc, hacc, hn⟩ := h
  obtain ⟨hleft, hnonce⟩ := hspares rfl acc hacc
  obtain ⟨acc', hacc', hup⟩ := @debited_spared total receipt acc hleft hnonce
  refine ⟨acc', ?_, by omega⟩
  show (c.mapAccount id (debited total receipt)).accounts.lookup id = some acc'
  rw [Cells.lookup_mapAccount, if_pos rfl, hacc]
  exact hacc'

/-- Writes that spare an account keep its nonce, and move it up when one of them is its own debit. -/
theorem nonceFrom_foldl (ts : List Touch) (hspares : TouchesMeet (Spares id) c ts) (h : c.NonceFrom id n) :
    (ts.foldl (fun c t => t.act c) c).NonceFrom id n ∧
      ((∃ total receipt, Touch.debit id total receipt ∈ ts) →
        (ts.foldl (fun c t => t.act c) c).NonceFrom id (n + 1)) := by
  induction ts generalizing c n with
  | nil => exact ⟨h, fun ⟨_, _, hmem⟩ => absurd hmem List.not_mem_nil⟩
  | cons t ts ih =>
    have hkept := ih hspares.2 (nonceFrom_act t hspares.1 h)
    refine ⟨hkept.1, fun ⟨total, receipt, hmem⟩ => ?_⟩
    rcases List.mem_cons.mp hmem with rfl | hlater
    · exact (ih hspares.2 (nonceFrom_debit hspares.1 h)).1
    · exact hkept.2 ⟨total, receipt, hlater⟩

end Touch

/-! ### What a request does -/

/-- A request with a nonce, judged on the cells `c`: nothing, the error fee, or its own writes with a debit, once its
nonce is found to be the next one. -/
inductive Charged (id : HashPrefix) (nonce : UInt32) (c : Cells) (ts : List Touch) : Prop where
  | free (h : ts = [])
  | fined (errFee : Int) (h : ts = [.fine id errFee])
  | paid (acc : Account) (hacc : c.accounts.lookup id = some acc)
      (hnonce : nonce = 0 ∨ nonce = Accounts.nonceless ∨ nonce = acc.nonce + 1)
      (hdebit : ∃ total receipt, Touch.debit id total receipt ∈ ts)

theorem Accounts.validateSpend_nonce {a : Accounts} {id : HashPrefix} {amount fee : UInt64} {nonce : UInt32}
    {errFee : Int} (h : (a.validateSpend id amount fee nonce errFee).1 = .ok) :
    ∃ acc, a.find id = some acc ∧ (nonce = 0 ∨ nonce = nonceless ∨ nonce = acc.nonce + 1) := by
  unfold validateSpend at h
  cases hfind : a.find id with
  | none => simp [hfind] at h
  | some acc =>
    rw [hfind] at h
    dsimp only at h
    split_ifs at h with hwide hpoor hnonce
    refine ⟨acc, rfl, ?_⟩
    by_contra hnone
    rw [not_or, not_or] at hnone
    exact hnonce hnone

namespace Charged

variable {s : CesServer} {id : HashPrefix} {nonce : UInt32} {amount fee cost : UInt64} {errFee : Int}

/-- What follows a validated spend: nothing, the error fee, or a debit. -/
theorem spend {next : List Touch}
    (hnext : next = [] ∨ next = [.fine id errFee] ∨ ∃ total receipt, Touch.debit id total receipt ∈ next) :
    Charged id nonce s.cells (s.spendTouches id amount fee nonce errFee next) := by
  unfold spendTouches
  split_ifs with hok
  · obtain ⟨acc, hacc, hnonce⟩ := Accounts.validateSpend_nonce hok
    rcases hnext with hnil | hfine | hdebit
    · exact .free hnil
    · exact .fined errFee hfine
    · exact .paid acc hacc hnonce hdebit
  · exact .fined errFee rfl

theorem paidOp (outcome : Outcome) (writes : List Touch) :
    Charged id nonce s.cells (s.paidTouches id cost nonce errFee outcome writes) := by
  refine spend ?_
  cases outcome with
  | refused rc => exact .inl rfl
  | charged rc => exact .inr (.inl rfl)
  | accepted t => exact .inr (.inr ⟨cost, none, by simp⟩)

end Charged

namespace TransferRequest

variable (exec : CesServer → VmRunRequest → VmProgram) (s : CesServer) (r : TransferRequest)

/-- The writes of the gates, before the request is judged. -/
def before : List Touch := if r.mode = .safe then gateTouches exec s r else []

/-- The state the request is judged in. -/
def judged : CesServer := if r.mode = .safe then (transferGates exec s r).2 else s

/-- The writes of the transfer itself. -/
def own : List Touch :=
  if r.mode = .safe then
    if !(transferGates exec s r).1 then [.fine r.originId (s.errorFee r.errFee)]
    else r.moveTouches (transferGates exec s r).2
  else r.moveTouches s

/-- The writes of the watches. -/
def after : List Touch :=
  if r.mode = .safe ∧ (transferGates exec s r).1 ∧ (r.move (transferGates exec s r).2).1 = .ok then
    watchTouches exec (r.move (transferGates exec s r).2).2 r
  else []

variable {exec s r}

theorem transferTouches_eq : transferTouches exec s r = r.before exec s ++ (r.own exec s ++ r.after exec s) := by
  unfold transferTouches before own after
  by_cases hsafe : r.mode = .safe
  · cases hgated : (transferGates exec s r).1 with
    | false => simp [hsafe, hgated]
    | true =>
      by_cases hok : (r.move (transferGates exec s r).2).1 = .ok
      · simp [hsafe, hgated, hok]
      · simp [hsafe, hgated, hok]
  · simp [hsafe]

theorem touched_before (reg : Regime) : Touched reg s.cells (r.before exec s) (r.judged exec s).cells := by
  unfold before judged
  split_ifs
  · exact touched_gates reg
  · exact .nil _

/-- The transfer itself: nothing, the error fee, or its debit. -/
theorem charged_move (s : CesServer) : Charged r.originId r.providedNonce s.cells (r.moveTouches s) := by
  refine .spend ?_
  cases s.accounts.find r.destId with
  | none =>
    dsimp only
    split_ifs
    · exact .inr (.inl rfl)
    · exact .inl rfl
    · split
      · exact .inr (.inl rfl)
      · exact .inr (.inr ⟨_, _, List.mem_cons_of_mem _ List.mem_cons_self⟩)
  | some dest =>
    dsimp only
    split_ifs
    · exact .inr (.inl rfl)
    · split
      · exact .inr (.inl rfl)
      · exact .inr (.inr ⟨_, _, List.mem_cons_of_mem _ List.mem_cons_self⟩)

/-- A transfer that succeeds makes its debit. -/
theorem debit_of_move_ok (h : (r.move s).1 = .ok) :
    ∃ total receipt, Touch.debit r.originId total receipt ∈ r.moveTouches s := by
  unfold move spend spendOr at h
  unfold moveTouches spendTouches
  dsimp only at h ⊢
  rcases hspend : s.accounts.validateSpend r.originId r.amount (r.flatFee s) r.providedNonce (s.errorFee r.errFee) with
    ⟨rc, accounts⟩
  rw [hspend] at h
  cases rc with
  | ok =>
    rw [if_pos rfl]
    dsimp only at h
    cases hdest : s.accounts.find r.destId with
    | none =>
      rw [hdest] at h
      dsimp only at h ⊢
      split_ifs at h ⊢
      · cases h
      · cases hopen : s.accounts.openTarget (s.accounts.balance r.originId) r.destId r.newAccount r.amount
            (r.amount + r.flatFee s) (r.creationCost s) with
        | error rc =>
          rw [hopen] at h
          exact absurd h (Accounts.openTarget_error hopen)
        | ok opened => exact ⟨_, _, List.mem_cons_of_mem _ List.mem_cons_self⟩
    | some dest =>
      rw [hdest] at h
      dsimp only at h ⊢
      by_cases hpayment : r.mode = .payment
      · rw [if_pos hpayment] at h
        cases h
      by_cases hkey : dest.getKey r.destId ≠ r.destKey
      · rw [if_neg hpayment, if_pos hkey] at h
        cases h
      rw [if_neg hpayment, if_neg hkey] at h
      rw [if_neg (not_or.mpr ⟨hpayment, hkey⟩)]
      cases hpaid : s.accounts.payInto r.destId dest r.amount with
      | error rc =>
        rw [hpaid] at h
        exact absurd h (Accounts.payInto_error hpaid)
      | ok a => exact ⟨_, _, List.mem_cons_of_mem _ List.mem_cons_self⟩
  | _ => cases h

theorem charged_own : Charged r.originId r.providedNonce (r.judged exec s).cells (r.own exec s) := by
  unfold own judged
  split_ifs
  · exact .fined _ rfl
  · exact charged_move _
  · exact charged_move _

theorem debit_of_transfer_ok (h : (transfer exec s r).rcode = .ok) :
    ∃ total receipt, Touch.debit r.originId total receipt ∈ r.own exec s := by
  unfold transfer at h
  unfold own
  dsimp only at h
  split_ifs at h ⊢
  all_goals exact debit_of_move_ok h

theorem after_of_no_debit (h : ¬∃ total receipt, Touch.debit r.originId total receipt ∈ r.own exec s) :
    r.after exec s = [] := by
  unfold after
  refine if_neg fun ⟨hsafe, hgated, hok⟩ => h ?_
  unfold own
  rw [if_pos hsafe, if_neg (by simp [hgated])]
  exact debit_of_move_ok hok

end TransferRequest

/-- The items of a bulk transfer: nothing, the error fee, or a debit by the first of them. -/
theorem BulkState.itemsTouches_cases (s : CesServer) (origin : HashPrefix) (txFee creationCost : UInt64) (errFee : Int)
    (items : List BulkTransferItem) :
    let ts := itemsTouches origin txFee creationCost errFee ⟨s, true⟩ items
    ts = [] ∨ ts = [.fine origin errFee] ∨ ∃ total receipt, Touch.debit origin total receipt ∈ ts := by
  intro ts
  cases items with
  | nil => exact .inl rfl
  | cons it rest =>
    unfold ts itemsTouches
    unfold itemTouches item fineTouches debitTouches
    dsimp only
    rw [if_pos rfl]
    cases s.accounts.find (getHashPrefix it.destKey) with
    | none =>
      dsimp only
      by_cases hfull : s.cfg.maxAcc ≤ s.accounts.store.size
      · rw [if_pos hfull, if_pos hfull]
        exact .inl rfl
      rw [if_neg hfull, if_neg hfull]
      cases s.accounts.openTarget (balance ⟨s, true⟩ origin) (getHashPrefix it.destKey)
          (.ofKey it.destKey (asInt64 it.amount) 0) it.amount (it.amount + txFee) creationCost with
      | error rc => exact .inr (.inl rfl)
      | ok opened => exact .inr (.inr ⟨_, _, List.mem_append_left _ (List.mem_cons_of_mem _ List.mem_cons_self)⟩)
    | some dest =>
      dsimp only
      by_cases hkey : dest.getKey (getHashPrefix it.destKey) ≠ it.destKey
      · rw [if_pos (.inl hkey), if_pos hkey]
        exact .inr (.inl rfl)
      by_cases hpoor : balance ⟨s, true⟩ origin < asInt64 (it.amount + txFee)
      · rw [if_pos (.inr hpoor), if_neg hkey, if_pos hpoor]
        exact .inr (.inl rfl)
      rw [if_neg (not_or.mpr ⟨hkey, hpoor⟩), if_neg hkey, if_neg hpoor]
      cases s.accounts.payInto (getHashPrefix it.destKey) dest it.amount with
      | error rc => exact .inr (.inl rfl)
      | ok a => exact .inr (.inr ⟨_, _, List.mem_append_left _ (List.mem_cons_of_mem _ List.mem_cons_self)⟩)

/-! ### Deliveries -/

/-- What happens to the server: the operations on the ledger, and the paid queries. -/
inductive UdpEvent where
  | server (op : ServerOp)
  | query (originKey : Hash) (fee : UInt64) (providedNonce : UInt32) (errFee : Int) (found : Bool)

/-- The account and the nonce of a signed request. -/
def LedgerOp.request : LedgerOp → Option (HashPrefix × UInt32)
  | .transfer r => some (r.originId, r.providedNonce)
  | .bulkTransfer originKey _ providedNonce _ _ _ => some (getHashPrefix originKey, providedNonce)
  | .crossTransfer r => some (getHashPrefix r.originKey, r.providedNonce)
  | .createAsset originKey _ _ _ _ providedNonce _ _ => some (getHashPrefix originKey, providedNonce)
  | .createAssetRange originKey _ _ _ _ providedNonce _ _ => some (getHashPrefix originKey, providedNonce)
  | .updateAsset originKey _ _ _ _ providedNonce _ _ => some (getHashPrefix originKey, providedNonce)
  | .updateAssetMeta originKey _ _ _ providedNonce _ _ => some (getHashPrefix originKey, providedNonce)
  | .updateAssetFast originKey _ _ providedNonce _ _ => some (getHashPrefix originKey, providedNonce)
  | .fundAsset originKey _ _ providedNonce _ _ _ => some (getHashPrefix originKey, providedNonce)
  | .setAssetOwnerPays originKey _ _ providedNonce _ _ => some (getHashPrefix originKey, providedNonce)
  | .giveAsset originKey _ _ providedNonce _ _ => some (getHashPrefix originKey, providedNonce)
  | .buyAsset originKey _ _ providedNonce _ _ => some (getHashPrefix originKey, providedNonce)
  | .setAlias originKey _ _ _ providedNonce _ _ => some (getHashPrefix originKey, providedNonce)
  | .deleteAlias originKey providedNonce _ => some (getHashPrefix originKey, providedNonce)
  | .registerKeyName originKey _ providedNonce _ => some (getHashPrefix originKey, providedNonce)
  | .clearKeyName originKey providedNonce _ => some (getHashPrefix originKey, providedNonce)
  | .run _ r => some (r.origin, r.effectiveNonce)
  | _ => none

namespace UdpEvent

def request : UdpEvent → Option (HashPrefix × UInt32)
  | .server (.ledger op) => op.request
  | .server (.openTransfer r) => some (r.originId, r.providedNonce)
  | .server _ => none
  | .query originKey _ providedNonce _ _ => some (getHashPrefix originKey, providedNonce)

section

variable (exec : CesServer → VmRunRequest → VmProgram) (s : CesServer)

def apply : UdpEvent → CesServer
  | .server op => op.apply exec s
  | .query originKey fee providedNonce errFee found => (queryOp s originKey fee providedNonce errFee found).2

def touches : UdpEvent → List Touch
  | .server op => op.touches exec s
  | .query originKey fee providedNonce errFee found =>
    s.paidTouches (getHashPrefix originKey) fee providedNonce (s.errorFee errFee)
      (if found then .accepted s else .charged .assetNotFound) []

def regime : UdpEvent → Regime
  | .server op => op.regime s
  | .query .. => s.regime

/-- The writes before the request is judged: those of the gates of a transfer. -/
def before : UdpEvent → List Touch
  | .server (.ledger (.transfer r)) | .server (.openTransfer r) => r.before exec s
  | _ => []

/-- The state in which the request is judged. -/
def judged : UdpEvent → CesServer
  | .server (.ledger (.transfer r)) | .server (.openTransfer r) => r.judged exec s
  | _ => s

/-- The writes of the request itself. -/
def own : UdpEvent → List Touch
  | .server (.ledger (.transfer r)) | .server (.openTransfer r) => r.own exec s
  | e => e.touches exec s

/-- The writes of the watches of a transfer. -/
def after : UdpEvent → List Touch
  | .server (.ledger (.transfer r)) => r.after exec s
  | .server (.openTransfer r) =>
    r.after exec s ++
      if (transfer exec s r).rcode = .ok ∧ s.hookFreeGrant ≤ r.amount then
        hookTouches exec (transfer exec s r).server r.destKey false invokeHookSettleIn r.originKey r.amount
      else []
  | _ => []

/-- The request is accepted: it makes a debit on its account. -/
def TakesEffect (id : HashPrefix) (e : UdpEvent) : Prop := ∃ total receipt, Touch.debit id total receipt ∈ e.own exec s

end

variable {exec : CesServer → VmRunRequest → VmProgram} {s : CesServer} {id : HashPrefix} {nonce : UInt32}

theorem touches_eq (e : UdpEvent) : e.touches exec s = e.before exec s ++ (e.own exec s ++ e.after exec s) := by
  unfold before own after
  split
  · exact TransferRequest.transferTouches_eq
  next r =>
    have htransfer : transferTouches exec s r = _ := TransferRequest.transferTouches_eq
    show openTransferTouches exec s r = _
    unfold openTransferTouches
    dsimp only
    rw [htransfer]
    simp only [List.append_assoc]
  · simp

theorem touched_apply (e : UdpEvent) : Touched (e.regime s) s.cells (e.touches exec s) (e.apply exec s).cells := by
  cases e with
  | server op => exact op.touched_apply s
  | query originKey fee providedNonce errFee found =>
    refine touched_paidOp_of_same fun t ht => ?_
    split_ifs at ht
    cases ht
    exact ⟨.nil _, rfl⟩

theorem touched_before (e : UdpEvent) (reg : Regime) :
    Touched reg s.cells (e.before exec s) (e.judged exec s).cells := by
  unfold before judged
  split
  · exact TransferRequest.touched_before reg
  · exact TransferRequest.touched_before reg
  · exact .nil _

theorem charged_createAssetRange (originKey : Hash) (ownerId : HashPrefix) (firstKey : Hash) (count : UInt32)
    (days : UInt16) (rentFee errFee : Int) :
    Charged (getHashPrefix originKey) nonce s.cells
      (createAssetRangeTouches s originKey nonce ownerId firstKey count days rentFee errFee) := by
  unfold createAssetRangeTouches
  dsimp only
  by_cases hnone : s.accounts.find (getHashPrefix originKey) = none
  · rw [if_pos hnone]
    exact .free rfl
  rw [if_neg hnone]
  by_cases hbad : count = 0 ∨ cesvmMaxAssetRange < count.toNat ∨ firstKey = ByteArr.zero 32
  · rw [if_pos hbad]
    exact .free rfl
  rw [if_neg hbad]
  exact .paidOp _ _

theorem charged_buyAsset (originKey assetId : Hash) (priceLimit : UInt64) (buyFee errFee : Int) :
    Charged (getHashPrefix originKey) nonce s.cells
      (buyAssetTouches s originKey assetId nonce priceLimit buyFee errFee) := by
  unfold buyAssetTouches
  dsimp only
  by_cases hnone : s.accounts.find (getHashPrefix originKey) = none
  · rw [if_pos hnone]
    exact .free rfl
  rw [if_neg hnone]
  cases s.assets.lookup assetId with
  | none => exact .fined _ rfl
  | some asset =>
    dsimp only
    split_ifs
    · exact .fined _ rfl
    · refine .spend ?_
      split_ifs
      · exact .inr (.inl rfl)
      · exact .inr (.inr ⟨_, _, List.mem_cons_self⟩)

theorem charged_setAlias (originKey : Hash) (aliasId : UInt32) (offset : UInt16) (bytes : Bytes) (fee errFee : Int) :
    Charged (getHashPrefix originKey) nonce s.cells
      (setAliasTouches s originKey nonce aliasId offset bytes fee errFee) := by
  unfold setAliasTouches
  dsimp only
  cases s.accounts.find (getHashPrefix originKey) with
  | none => exact .free rfl
  | some acc =>
    dsimp only
    split_ifs
    · exact .free rfl
    · split
      · exact .free rfl
      next create targetId old htarget =>
        by_cases hhook : (!VmHost.hookTargetOk s (Alias.ofImage (old.image.patch offset.toNat bytes))
            (getHashPrefix originKey)) = true
        · rw [if_pos hhook]
          exact .free rfl
        · rw [if_neg hhook]
          exact .paidOp _ _

theorem charged_ledger {op : LedgerOp} (hreq : op.request = some (id, nonce)) (htransfer : ∀ r, op ≠ .transfer r) :
    Charged id nonce s.cells (op.touches exec s) := by
  cases op with
  | transfer r => exact absurd rfl (htransfer r)
  | bulkTransfer =>
    cases hreq
    exact .spend (BulkState.itemsTouches_cases s _ _ _ _ _)
  | crossTransfer r =>
    cases hreq
    refine .spend ?_
    cases s.findPeer r.destServer with
    | none => exact .inr (.inl rfl)
    | some peer =>
      dsimp only
      cases s.settlementLoad r.destServer peer.ckey with
      | none => exact .inr (.inl rfl)
      | some load =>
        dsimp only
        split_ifs
        · exact .inr (.inl rfl)
        · exact .inr (.inr ⟨_, _, List.mem_cons_self⟩)
  | createAsset originKey ownerId assetId content balance providedNonce rentFee errFee =>
    cases hreq
    show Charged _ _ _ (createAssetTouches s originKey assetId _ _ _ _ _ _)
    unfold createAssetTouches
    dsimp only
    by_cases hzero : assetId = ByteArr.zero 32
    · rw [if_pos hzero]
      exact .free rfl
    rw [if_neg hzero]
    exact .paidOp _ _
  | createAssetRange => cases hreq; exact charged_createAssetRange _ _ _ _ _ _ _
  | updateAsset => cases hreq; exact .paidOp _ _
  | updateAssetMeta => cases hreq; exact .paidOp _ _
  | updateAssetFast => cases hreq; exact .paidOp _ _
  | fundAsset => cases hreq; exact .paidOp _ _
  | setAssetOwnerPays => cases hreq; exact .paidOp _ _
  | giveAsset => cases hreq; exact .paidOp _ _
  | buyAsset => cases hreq; exact charged_buyAsset _ _ _ _ _
  | setAlias => cases hreq; exact charged_setAlias _ _ _ _ _ _
  | deleteAlias => cases hreq; exact .paidOp _ _
  | registerKeyName => cases hreq; exact .paidOp _ _
  | clearKeyName => cases hreq; exact .paidOp _ _
  | run now r =>
    cases hreq
    exact .spend (.inr (.inr ⟨_, _, List.mem_cons_self⟩))
  | _ => cases hreq

theorem charged_own (e : UdpEvent) (hreq : e.request = some (id, nonce)) :
    Charged id nonce (e.judged exec s).cells (e.own exec s) := by
  unfold own judged
  split
  · cases hreq
    exact TransferRequest.charged_own
  · cases hreq
    exact TransferRequest.charged_own
  next htransfer hopen =>
    cases e with
    | server op =>
      cases op with
      | ledger op => exact charged_ledger hreq fun r hr => htransfer r (hr ▸ rfl)
      | openTransfer r => exact absurd rfl (hopen r)
      | _ => cases hreq
    | query =>
      cases hreq
      exact .paidOp _ _

/-- Nothing follows a request that does not take effect. -/
theorem after_of_refused (e : UdpEvent) (hreq : e.request = some (id, nonce)) (h : ¬e.TakesEffect exec s id) :
    e.after exec s = [] := by
  unfold TakesEffect own at h
  unfold after
  split at h
  next r =>
    cases hreq
    exact TransferRequest.after_of_no_debit h
  next r =>
    cases hreq
    show r.after exec s ++ _ = []
    rw [TransferRequest.after_of_no_debit h, if_neg fun hok => h (TransferRequest.debit_of_transfer_ok hok.1)]
    rfl
  · rfl

/-- A request that does not take effect costs at most an error fee, gates apart. -/
theorem touches_of_refused (e : UdpEvent) (hreq : e.request = some (id, nonce)) (h : ¬e.TakesEffect exec s id) :
    e.touches exec s = e.before exec s ∨ ∃ errFee, e.touches exec s = e.before exec s ++ [.fine id errFee] := by
  rw [touches_eq, after_of_refused e hreq h, List.append_nil]
  rcases e.charged_own hreq with hnil | ⟨errFee, hfine⟩ | ⟨acc, hacc, hnonce, hdebit⟩
  · rw [hnil, List.append_nil]
    exact .inl rfl
  · rw [hfine]
    exact .inr ⟨errFee, rfl⟩
  · exact absurd hdebit h

/-- A request that takes effect finds the nonce before its own, and leaves at least its own. -/
theorem nonce_of_effect (e : UdpEvent) (hreq : e.request = some (id, nonce)) (hzero : nonce ≠ 0)
    (hnonceless : nonce ≠ Accounts.nonceless) (heffect : e.TakesEffect exec s id)
    (hspared : TouchesMeet (Touch.Spares id) s.cells (e.touches exec s)) :
    (∀ n, s.cells.NonceFrom id n → n < nonce.toNat) ∧ (e.apply exec s).cells.NonceFrom id nonce.toNat := by
  have hjudged : (e.judged exec s).cells = (e.before exec s).foldl (fun c t => t.act c) s.cells :=
    (e.touched_before s.regime).eq_foldl
  have hend : (e.apply exec s).cells = (e.touches exec s).foldl (fun c t => t.act c) s.cells := e.touched_apply.eq_foldl
  rw [touches_eq] at hspared hend
  obtain ⟨hbefore, hrest⟩ := (Meets.append_iff _ _ _).mp hspared
  rw [← hjudged] at hrest
  rw [List.foldl_append, ← hjudged] at hend
  rcases e.charged_own hreq with hnil | ⟨errFee, hfine⟩ | ⟨acc, hacc, hnonce, hdebit⟩
  · obtain ⟨total, receipt, hmem⟩ := heffect
    rw [hnil] at hmem
    exact absurd hmem List.not_mem_nil
  · obtain ⟨total, receipt, hmem⟩ := heffect
    rw [hfine, List.mem_singleton] at hmem
    cases hmem
  have hnext : nonce = acc.nonce + 1 := (hnonce.resolve_left hzero).resolve_left hnonceless
  have hsucc : nonce.toNat = acc.nonce.toNat + 1 := by
    have hlt := acc.nonce.toNat_lt
    have hwrap : nonce.toNat = (acc.nonce.toNat + 1) % 2 ^ 32 := by rw [hnext, UInt32.toNat_add]; rfl
    have hpos : nonce.toNat ≠ 0 := fun h => hzero (UInt32.toNat_inj.mp h)
    omega
  constructor
  · intro n hn
    obtain ⟨acc', hacc', hle⟩ := (Touch.nonceFrom_foldl _ hbefore hn).1
    rw [← hjudged, hacc] at hacc'
    cases hacc'
    omega
  · rw [hend, hsucc]
    obtain ⟨total, receipt, hmem⟩ := hdebit
    exact (Touch.nonceFrom_foldl _ hrest ⟨acc, hacc, le_rfl⟩).2
      ⟨total, receipt, List.mem_append_left _ hmem⟩

/-- Every write of the event spares the account. -/
def Spares (exec : CesServer → VmRunRequest → VmProgram) (id : HashPrefix) (e : UdpEvent) (s : CesServer) : Prop :=
  TouchesMeet (Touch.Spares id) s.cells (e.touches exec s)

theorem nonceFrom_apply (e : UdpEvent) (hspared : e.Spares exec id s) {n : Nat} (h : s.cells.NonceFrom id n) :
    (e.apply exec s).cells.NonceFrom id n := by
  have hend : (e.apply exec s).cells = _ := e.touched_apply.eq_foldl
  rw [hend]
  exact (Touch.nonceFrom_foldl _ hspared h).1

end UdpEvent

section

variable (exec : CesServer → VmRunRequest → VmProgram)

def runUdp (s : CesServer) (events : List UdpEvent) : CesServer := events.foldl (fun s e => e.apply exec s) s

variable {exec} {s : CesServer} {id : HashPrefix}

theorem nonceFrom_runUdp {events : List UdpEvent} {n : Nat}
    (hspared : Meets (fun (e : UdpEvent) s => e.apply exec s) (UdpEvent.Spares exec id) s events)
    (h : s.cells.NonceFrom id n) : (runUdp exec s events).cells.NonceFrom id n := by
  induction events generalizing s with
  | nil => exact h
  | cons e events ih => exact ih hspared.2 (e.nonceFrom_apply hspared.1 h)

end

/-- Once a request with a nonce has taken effect, no request of the same account with the same nonce takes effect,
whatever happens in between, as long as the account lasts. -/
theorem request_takes_effect_once (exec : CesServer → VmRunRequest → VmProgram) (s : CesServer) (id : HashPrefix)
    (nonce : UInt32) (hzero : nonce ≠ 0) (hnonceless : nonce ≠ Accounts.nonceless) (first again : UdpEvent)
    (hfirst : first.request = some (id, nonce)) (hagain : again.request = some (id, nonce)) (between : List UdpEvent)
    (heffect : first.TakesEffect exec s id)
    (hspared : Meets (fun (e : UdpEvent) s => e.apply exec s) (UdpEvent.Spares exec id) s
      ((first :: between) ++ [again])) :
    ¬again.TakesEffect exec (runUdp exec s (first :: between)) id := by
  intro htwice
  obtain ⟨hbetween, hlast, -⟩ := (Meets.append_iff s (first :: between) [again]).mp hspared
  obtain ⟨-, hraised⟩ := first.nonce_of_effect hfirst hzero hnonceless heffect hbetween.1
  have hkept := nonceFrom_runUdp hbetween.2 hraised
  have hbelow := (again.nonce_of_effect hagain hzero hnonceless htwice hlast).1 nonce.toNat hkept
  exact lt_irrefl _ hbelow

instance (id : HashPrefix) (c : Cells) : ∀ t : Touch, Decidable (t.Spares id c)
  | .debit x total _ | .debitRaw x total => inferInstanceAs (Decidable (x = id → ∀ acc ∈ c.accounts.lookup id,
      0 < int64 (acc.getBalance - asInt64 total) ∧ acc.nonce ≠ 0xFFFFFFFF))
  | .fine x errFee => inferInstanceAs (Decidable (x = id → ∀ acc ∈ c.accounts.lookup id,
      acc.getBalance < 0 ∨ 0 < int64 (acc.getBalance - errFee)))
  | .settle x _ | .age x | .expire x _ => inferInstanceAs (Decidable (x ≠ id))
  | .create _ key _ _ | .vmCreate key _ => inferInstanceAs (Decidable (getHashPrefix key ≠ id))
  | .credit _ _ _ | .vmDebit _ _ | .vmCredit _ _ | .rent _ _ | .reset _ _ | .createAsset _ _ _ | .writeAsset _ _ _
  | .dropAsset _ | .generator _ | .createAlias _ _ | .patchAlias _ _ _ | .dropAlias _ _ =>
    inferInstanceAs (Decidable True)

instance (exec : CesServer → VmRunRequest → VmProgram) (id : HashPrefix) (e : UdpEvent) (s : CesServer) :
    Decidable (e.Spares exec id s) :=
  inferInstanceAs (Decidable (Meets Touch.act (Touch.Spares id) s.cells (e.touches exec s)))

def Touch.isDebit (id : HashPrefix) : Touch → Bool
  | .debit x _ _ => x == id
  | _ => false

theorem Touch.isDebit_iff {id : HashPrefix} {t : Touch} :
    t.isDebit id = true ↔ ∃ total receipt, Touch.debit id total receipt = t := by
  constructor
  · intro h
    cases t with
    | debit x total receipt =>
      obtain rfl := eq_of_beq h
      exact ⟨total, receipt, rfl⟩
    | _ => cases h
  · rintro ⟨total, receipt, rfl⟩
    exact beq_self_eq_true id

instance (exec : CesServer → VmRunRequest → VmProgram) (id : HashPrefix) (e : UdpEvent) (s : CesServer) :
    Decidable (e.TakesEffect exec s id) :=
  decidable_of_iff ((e.own exec s).any (·.isDebit id)) (by
    rw [List.any_eq_true]
    constructor
    · rintro ⟨t, hmem, ht⟩
      obtain ⟨total, receipt, rfl⟩ := Touch.isDebit_iff.mp ht
      exact ⟨total, receipt, hmem⟩
    · rintro ⟨total, receipt, hmem⟩
      exact ⟨_, hmem, Touch.isDebit_iff.mpr ⟨total, receipt, rfl⟩⟩)

/-- A transfer to the receiver, with nonce one. -/
def firstTransfer (amount : UInt64) : UdpEvent :=
  .server (.ledger (.transfer ⟨senderKey, receiverKey, amount, .safe, 0, 1, -1, -1, -1, 0⟩))

/-- A sender with a million and a receiver with ten million. -/
def unequalServer : CesServer :=
  .load .stock (ByteArr.zero 32)
    (((∅ : FMap HashPrefix Account).insert (getHashPrefix senderKey) (.ofKey senderKey 1000000 0)).insert
      (getHashPrefix receiverKey) (.ofKey receiverKey 10000000 0)) ∅ ∅

/-- The receiver pays the sender, who has an account again. -/
def refunding : UdpEvent :=
  .server (.openTransfer ⟨receiverKey, senderKey, 1500000, .openDest, 0, 1, -1, -1, -1, 0⟩)

/-- The request takes all the sender has. Once the sender is funded again, it takes effect again. -/
theorem emptied_account_replayed :
    let id := getHashPrefix senderKey
    let emptied := runUdp haltExec unequalServer [firstTransfer 968000]
    let funded := runUdp haltExec unequalServer [firstTransfer 968000, refunding]
    (firstTransfer 968000).TakesEffect haltExec unequalServer id ∧ emptied.accounts.find id = none ∧
      (firstTransfer 968000).TakesEffect haltExec funded id ∧
      funded.accounts.balance id = 1500000 ∧
      (runUdp haltExec funded [firstTransfer 968000]).accounts.balance id = 500000 := by
  decide +kernel

/-- A second delivery to an account that lasts has no effect. -/
theorem request_takes_effect_once_resent :
    ¬(firstTransfer 10).TakesEffect haltExec (runUdp haltExec twoAccountServer [firstTransfer 10])
      (getHashPrefix senderKey) :=
  request_takes_effect_once haltExec twoAccountServer (getHashPrefix senderKey) 1 (by decide) (by decide)
    (firstTransfer 10) (firstTransfer 10) rfl rfl [] (by decide +kernel) (by decide +kernel)

/-! ### What deliveries cost -/

/-- What an event takes off an account. -/
def UdpEvent.loss (exec : CesServer → VmRunRequest → VmProgram) (id : HashPrefix) (s : CesServer) (e : UdpEvent) :
    Int :=
  s.cells.balance id - (e.apply exec s).cells.balance id

/-- The event is the delivery of a request of the account. -/
def UdpEvent.Of (id : HashPrefix) (e : UdpEvent) : Prop := ∃ nonce, e.request = some (id, nonce)

instance (id : HashPrefix) (e : UdpEvent) : Decidable (e.Of id) :=
  decidable_of_iff (e.request.any (·.1 == id)) (by
    unfold UdpEvent.Of
    cases e.request with
    | none => simp
    | some request => simp [Prod.ext_iff])

/-- What the deliveries of the account's requests take off it. -/
def totalLoss (exec : CesServer → VmRunRequest → VmProgram) (id : HashPrefix) : CesServer → List UdpEvent → Int
  | _, [] => 0
  | s, e :: events => (if e.Of id then e.loss exec id s else 0) + totalLoss exec id (e.apply exec s) events

/-- How many deliveries there are. -/
def deliveries (id : HashPrefix) (events : List UdpEvent) : Nat := events.countP fun e => e.Of id

/-- A step of a history in which the account lasts, its requests carry nonces from `nonces`, the gates that a request of
the account fires leave it what it has, error fees are at most `fee`, and a request that takes effect costs at most
`cost` of its nonce. -/
structure UdpEvent.Priced (exec : CesServer → VmRunRequest → VmProgram) (id : HashPrefix) (nonces : Finset UInt32)
    (cost : UInt32 → Int) (fee : Int) (e : UdpEvent) (s : CesServer) : Prop where
  spares : e.Spares exec id s
  mem : ∀ nonce, e.request = some (id, nonce) → nonce ∈ nonces
  gates : e.Of id → s.cells.balance id ≤ (e.judged exec s).cells.balance id
  fines : ∀ errFee, Touch.fine id errFee ∈ e.touches exec s → 0 ≤ errFee ∧ errFee ≤ fee
  costs : ∀ nonce, e.request = some (id, nonce) → e.TakesEffect exec s id → e.loss exec id s ≤ cost nonce

section

variable {exec : CesServer → VmRunRequest → VmProgram} {s : CesServer} {id : HashPrefix}

theorem Cells.Holds.le_balance {c : Cells} {b : Int} (h : c.Holds id b) : b ≤ c.balance id := by
  obtain ⟨acc, hacc, hb⟩ := h
  unfold Cells.balance
  rw [hacc]
  exact hb

/-- An error fee takes no more than itself. -/
theorem balance_fined {c : Cells} {b errFee : Int} (h : c.Holds id b) (hfee : 0 ≤ errFee) (hsmall : errFee < 2 ^ 62) :
    b - errFee ≤ ((Touch.fine id errFee).act c).balance id := by
  obtain ⟨acc, hacc, hb⟩ := h
  have hupper := acc.getBalance_upper
  unfold balanceMax at hupper
  have hbal : ((Touch.fine id errFee).act c).balance id = (Touch.fined errFee acc).elim 0 Account.getBalance := by
    show (c.mapAccount id (Touch.fined errFee)).balance id = _
    unfold Cells.balance
    rw [Cells.lookup_mapAccount, if_pos rfl, hacc]
    rfl
  rw [hbal]
  unfold Touch.fined
  by_cases hneg : acc.getBalance < 0
  · rw [if_pos hneg]
    show b - errFee ≤ acc.getBalance
    omega
  rw [if_neg hneg]
  have hexact : int64 (acc.getBalance - errFee) = acc.getBalance - errFee := int64_of_range (by omega) (by omega)
  rw [hexact]
  by_cases hgone : acc.getBalance - errFee ≤ 0
  · rw [if_pos hgone]
    show b - errFee ≤ 0
    omega
  · rw [if_neg hgone]
    show b - errFee ≤ wrap48 (acc.getBalance - errFee)
    rw [wrap48_of_range (by unfold balanceMin; omega) (by unfold balanceMax; omega)]
    omega

/-- A delivery that does not take effect costs at most the error fee. -/
theorem loss_of_refused (e : UdpEvent) {nonce : UInt32} (hreq : e.request = some (id, nonce))
    (hrefused : ¬e.TakesEffect exec s id) (hspares : e.Spares exec id s)
    (hgates : s.cells.balance id ≤ (e.judged exec s).cells.balance id) {fee : Int} (hfee : 0 ≤ fee)
    (hsmall : fee < 2 ^ 62)
    (hfines : ∀ errFee, Touch.fine id errFee ∈ e.touches exec s → 0 ≤ errFee ∧ errFee ≤ fee) {acc : Account}
    (hacc : s.cells.accounts.lookup id = some acc) : e.loss exec id s ≤ fee := by
  have hstart : s.cells.balance id = acc.getBalance := by
    unfold Cells.balance
    rw [hacc]
    rfl
  have hjudged : (e.judged exec s).cells = (e.before exec s).foldl (fun c t => t.act c) s.cells :=
    (e.touched_before s.regime).eq_foldl
  have hend : (e.apply exec s).cells = (e.touches exec s).foldl (fun c t => t.act c) s.cells := e.touched_apply.eq_foldl
  have hheld : (e.judged exec s).cells.Holds id acc.getBalance := by
    -- the gates spare the account, like every write of the event
    have hbefore : TouchesMeet (Touch.Spares id) s.cells (e.before exec s) := by
      unfold UdpEvent.Spares at hspares
      rw [e.touches_eq] at hspares
      exact ((Meets.append_iff _ _ _).mp hspares).1
    obtain ⟨acc', hacc', -⟩ := (Touch.nonceFrom_foldl _ hbefore ⟨acc, hacc, Nat.zero_le _⟩).1
    rw [← hjudged] at hacc'
    refine ⟨acc', hacc', ?_⟩
    rw [hstart] at hgates
    unfold Cells.balance at hgates
    rw [hacc'] at hgates
    exact hgates
  unfold UdpEvent.loss
  rw [hstart]
  rcases e.touches_of_refused hreq hrefused with hsame | ⟨errFee, hfine⟩
  · rw [hsame, ← hjudged] at hend
    rw [hend]
    have hle := hheld.le_balance
    omega
  · obtain ⟨hlow, hhigh⟩ := hfines errFee (by rw [hfine]; simp)
    rw [hfine, List.foldl_append, ← hjudged] at hend
    rw [hend, List.foldl_cons, List.foldl_nil]
    have hle := balance_fined hheld hlow (by omega)
    omega

variable {nonces : Finset UInt32} {cost : UInt32 → Int} {fee : Int}

/-- The requests that can still take effect cost no more once one of them has. -/
theorem sum_open_le (hcost : ∀ nonce, 0 ≤ cost nonce) {n : Nat} {nonce : UInt32} (hmem : nonce ∈ nonces)
    (hopen : n < nonce.toNat) :
    cost nonce + ∑ k ∈ nonces.filter (nonce.toNat < ·.toNat), cost k ≤ ∑ k ∈ nonces.filter (n < ·.toNat), cost k := by
  have hfresh : nonce ∉ nonces.filter (nonce.toNat < ·.toNat) := by simp
  rw [← Finset.sum_insert hfresh]
  refine Finset.sum_le_sum_of_subset_of_nonneg (fun k hk => ?_) fun k _ _ => hcost k
  rcases Finset.mem_insert.mp hk with rfl | hk
  · exact Finset.mem_filter.mpr ⟨hmem, hopen⟩
  · obtain ⟨hk, hlater⟩ := Finset.mem_filter.mp hk
    exact Finset.mem_filter.mpr ⟨hk, hopen.trans hlater⟩

theorem totalLoss_le (hzero : 0 ∉ nonces) (hnonceless : Accounts.nonceless ∉ nonces)
    (hcost : ∀ nonce, 0 ≤ cost nonce) (hfee : 0 ≤ fee) (hsmall : fee < 2 ^ 62) {n : Nat} (hacc : s.cells.NonceFrom id n)
    {events : List UdpEvent}
    (hpriced : Meets (fun (e : UdpEvent) s => e.apply exec s) (UdpEvent.Priced exec id nonces cost fee) s events) :
    totalLoss exec id s events ≤ ∑ k ∈ nonces.filter (n < ·.toNat), cost k + fee * deliveries id events := by
  induction events generalizing s n with
  | nil =>
    have hsum : 0 ≤ ∑ k ∈ nonces.filter (n < ·.toNat), cost k := Finset.sum_nonneg fun k _ => hcost k
    simpa [totalLoss, deliveries] using hsum
  | cons e events ih =>
    obtain ⟨hstep, hrest⟩ := hpriced
    have hkept := ih (e.nonceFrom_apply hstep.spares hacc) hrest
    unfold totalLoss
    by_cases hof : e.Of id
    · have hcount : deliveries id (e :: events) = deliveries id events + 1 := by simp [deliveries, hof]
      have hmul : fee * ((deliveries id events + 1 : Nat) : Int) = fee * deliveries id events + fee := by
        push_cast
        ring
      rw [if_pos hof, hcount, hmul]
      obtain ⟨nonce, hreq⟩ := hof
      by_cases heffect : e.TakesEffect exec s id
      · -- the nonce is used up: whatever comes later has a later one
        have hmem := hstep.mem nonce hreq
        obtain ⟨hbelow, hraised⟩ := e.nonce_of_effect hreq (fun h => hzero (h ▸ hmem)) (fun h => hnonceless (h ▸ hmem))
          heffect hstep.spares
        have hlater := ih hraised hrest
        have hcosts := hstep.costs nonce hreq heffect
        have hsum := sum_open_le hcost hmem (hbelow n hacc)
        omega
      · obtain ⟨acc, hfound, -⟩ := hacc
        have hloss := loss_of_refused e hreq heffect hstep.spares (hstep.gates ⟨nonce, hreq⟩) hfee hsmall
          hstep.fines hfound
        omega
    · have hcount : deliveries id (e :: events) = deliveries id events := by simp [deliveries, hof]
      rw [if_neg hof, hcount]
      omega

end

/-- The error fees an event charges the account. -/
def Touch.fineOf (id : HashPrefix) : Touch → Option Int
  | .fine x errFee => if x = id then some errFee else none
  | _ => none

end Ces
