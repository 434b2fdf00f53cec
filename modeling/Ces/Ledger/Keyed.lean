import Ces.Lib.Layout
import Ces.Ledger.Transfer

/-!
# Accounts under full keys

The store is indexed by the first eight bytes of a key, so that the cell of a key may hold the account of another key
with the same beginning. `keyed` reads the balance of the full key. A request without fees that fails leaves every
such balance as it was.
-/

namespace Ces

open Ces.Lib

namespace Account

theorem getKey_ofKey (key : Hash) (balance : Int) (nonce : UInt32) :
    (ofKey key balance nonce).getKey (getHashPrefix key) = key := by
  apply ByteArr.ext
  have hbegin : (getHashPrefix key).bytes = key.bytes.take 8 := ByteArr.bytes_slice key (by decide)
  have htail : (getHashTail key).bytes = (key.bytes.drop 8).take 24 := ByteArr.bytes_slice key (by decide)
  have hall : (key.bytes.drop 8).take 24 = key.bytes.drop 8 := by
    refine List.take_of_length_le ?_
    rw [List.length_drop, key.size_eq]
  change (ByteArr.ofList 32 ((getHashPrefix key).bytes ++ (getHashTail key).bytes)).bytes = key.bytes
  rw [hbegin, htail, hall, List.take_append_drop]
  exact ByteArr.ofList_bytes key.size_eq

theorem getKey_setBalance (acc : Account) (b : Int) (id : HashPrefix) : (acc.setBalance b).getKey id = acc.getKey id :=
  rfl

theorem getKey_setNonce (acc : Account) (n : UInt32) (id : HashPrefix) :
    { acc with nonce := n }.getKey id = acc.getKey id := rfl

end Account

namespace Accounts

/-- The balance of a full key. -/
def keyed (a : Accounts) (key : Hash) : Int :=
  (a.find (getHashPrefix key)).elim 0 fun acc =>
    if acc.getKey (getHashPrefix key) = key then acc.getBalance else 0

variable {a a' : Accounts} {key : Hash}

theorem keyed_congr (h : a'.find (getHashPrefix key) = a.find (getHashPrefix key)) : a'.keyed key = a.keyed key := by
  unfold keyed
  rw [h]

theorem keyed_of_none (h : a.find (getHashPrefix key) = none) : a.keyed key = 0 := by
  unfold keyed
  rw [h]
  rfl

theorem keyed_of_own {acc : Account} (h : a.find (getHashPrefix key) = some acc)
    (hkey : acc.getKey (getHashPrefix key) = key) : a.keyed key = acc.getBalance := by
  unfold keyed
  rw [h]
  exact if_pos hkey

theorem keyed_of_other {acc : Account} (h : a.find (getHashPrefix key) = some acc)
    (hkey : acc.getKey (getHashPrefix key) ≠ key) : a.keyed key = 0 := by
  unfold keyed
  rw [h]
  exact if_neg hkey

/-- The keyed balance when a cell keeps its key and its balance. -/
theorem keyed_replace {acc acc' : Account} (h : a.find (getHashPrefix key) = some acc)
    (h' : a'.find (getHashPrefix key) = some acc')
    (hkey : acc'.getKey (getHashPrefix key) = acc.getKey (getHashPrefix key))
    (hbalance : acc'.getBalance = acc.getBalance) : a'.keyed key = a.keyed key := by
  unfold keyed
  rw [h, h']
  change (if _ then _ else _) = if _ then _ else _
  rw [hkey, hbalance]

/-- A fine of nothing takes nothing, though it erases an account at zero. -/
theorem keyed_chargeError_zero (a : Accounts) (id : HashPrefix) (key : Hash) :
    (a.chargeError id 0).keyed key = a.keyed key := by
  by_cases hid : getHashPrefix key = id
  · subst hid
    unfold chargeError
    cases hfind : a.find (getHashPrefix key) with
    | none => rfl
    | some acc =>
      dsimp only
      have hlow := acc.getBalance_lower
      have hhigh := acc.getBalance_upper
      have hsame : int64 (acc.getBalance - 0) = acc.getBalance := by
        rw [sub_zero]
        unfold balanceMin at hlow
        unfold balanceMax at hhigh
        exact int64_of_range (by omega) (by omega)
      rw [hsame]
      split_ifs with hneg hgone
      · rfl
      · have hzero : acc.getBalance = 0 := by omega
        have hafter : (a.drop (getHashPrefix key) (-max 0 acc.getBalance)).find (getHashPrefix key) = none := by
          rw [find_drop, if_pos rfl]
        rw [keyed_of_none hafter]
        by_cases hkey : acc.getKey (getHashPrefix key) = key
        · rw [keyed_of_own hfind hkey, hzero]
        · rw [keyed_of_other hfind hkey]
      · refine keyed_replace hfind ((find_put ..).trans (if_pos rfl)) (acc.getKey_setBalance _ _) ?_
        rw [Account.getBalance_setBalance]
        exact wrap48_of_range hlow hhigh
  · refine keyed_congr ?_
    unfold chargeError
    cases hfind : a.find id with
    | none => rfl
    | some acc =>
      dsimp only
      split_ifs
      · rfl
      · rw [find_drop, if_neg hid]
      · rw [find_put, if_neg hid]

/-! ### Frames -/

theorem find_chargeError_of_ne {id x : HashPrefix} (hx : x ≠ id) (errFee : Int) :
    (a.chargeError id errFee).find x = a.find x := by
  unfold chargeError
  cases hfind : a.find id with
  | none => rfl
  | some acc =>
    dsimp only
    split_ifs
    · rfl
    · rw [find_drop, if_neg hx]
    · rw [find_put, if_neg hx]

theorem find_debitStamped_of_ne {id x : HashPrefix} (hx : x ≠ id) (stamp : Account → Account) (total : UInt64) :
    (a.debitStamped id stamp total).find x = a.find x := by
  unfold debitStamped
  cases hfind : a.find id with
  | none => rfl
  | some acc =>
    dsimp only
    split_ifs
    · rw [find_drop, if_neg hx]
    · rw [find_put, if_neg hx]

theorem find_credit_of_ne {id x : HashPrefix} (hx : x ≠ id) (amount : UInt64) :
    (a.credit id amount).find x = a.find x := by
  cases hfind : a.find id with
  | none => rw [credit_of_none hfind]
  | some acc => rw [credit_eq hfind, find_put, if_neg hx]

theorem find_settlePayment_of_ne {id x : HashPrefix} (hx : x ≠ id) (amount : UInt64) :
    (a.settlePayment id amount).find x = a.find x := by
  unfold settlePayment
  cases hfind : a.find id with
  | none => rfl
  | some acc => rw [find_put, if_neg hx]

theorem find_payInto_of_ne {id x : HashPrefix} {dest : Account} {amount : UInt64} (hx : x ≠ id)
    (h : a.payInto id dest amount = .ok a') : a'.find x = a.find x := by
  rcases payInto_cases h with ⟨-, -, rfl⟩ | ⟨-, -, rfl⟩
  · exact find_settlePayment_of_ne hx amount
  · exact find_credit_of_ne hx amount

end Accounts

/-- A transfer writes the two accounts it names. -/
theorem TransferRequest.find_move_of_ne {r : TransferRequest} {s : CesServer} {x : HashPrefix}
    (horigin : x ≠ r.originId) (hdest : x ≠ r.destId) : (r.move s).2.accounts.find x = s.accounts.find x := by
  have hrefused : ∀ errFee, (s.chargeError r.originId errFee).accounts.find x = s.accounts.find x :=
    fun errFee => Accounts.find_chargeError_of_ne horigin errFee
  unfold move
  refine CesServer.spend_rule (P := fun t => t.accounts.find x = s.accounts.find x) rfl (hrefused _) fun _ => ?_
  cases hfind : s.accounts.find r.destId with
  | none =>
    dsimp only
    split_ifs
    · exact hrefused _
    · rfl
    · cases hopen : s.accounts.openTarget (s.accounts.balance r.originId) r.destId r.newAccount r.amount
          (r.amount + r.flatFee s) (r.creationCost s) with
      | error rc => exact hrefused _
      | ok paid =>
        obtain ⟨total, a⟩ := paid
        obtain ⟨-, -, -, rfl⟩ := Accounts.openTarget_cases hopen
        refine (Accounts.find_debitStamped_of_ne horigin _ _).trans ?_
        exact (Accounts.find_put ..).trans (if_neg hdest)
  | some dest =>
    dsimp only
    split_ifs
    · exact hrefused _
    · exact hrefused _
    · cases hpay : s.accounts.payInto r.destId dest r.amount with
      | error rc => exact hrefused _
      | ok a => exact (Accounts.find_debitStamped_of_ne horigin _ _).trans (Accounts.find_payInto_of_ne hdest hpay)

/-! ### Two keys of one cell -/

def victimKey : Hash := ByteArr.ofList 32 [1, 2, 3, 4, 5, 6, 7, 8, 9]

def collidingKey : Hash := ByteArr.ofList 32 [1, 2, 3, 4, 5, 6, 7, 8, 10]

end Ces
