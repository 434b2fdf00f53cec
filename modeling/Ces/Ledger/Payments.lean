import Ces.Ledger.History

/-!
# Pending payments

A negative balance marks a payment that waits for its amount. The transfers and the work reward look at the sign
before they credit; the other writers do not. `payment_kept` says that the sign is lost in no other way: in a history
whose generic writes spare the pending accounts, a payment of `a` stays at `-a` until a transfer of exactly `a`
settles it or the daily pass finds its days used up.
-/

namespace Ces

open Ces.Lib CesServer

/-- A payment of `a` is pending under `id`. -/
def Cells.PendingAt (c : Cells) (id : HashPrefix) (a : Int) : Prop :=
  ∃ acc, c.accounts.lookup id = some acc ∧ acc.getBalance = -a

namespace Touch

/-- The writes that do not look at the sign go to an account that is no pending payment. -/
def SparesPayments (t : Touch) (c : Cells) : Prop :=
  match t with
  | .debit id _ _ | .debitRaw id _ | .credit _ id _ | .vmDebit id _ | .vmCredit id _ | .reset id _ =>
    0 ≤ c.balance id
  | .create _ key _ _ => 0 ≤ c.balance (getHashPrefix key)
  | _ => True

instance (t : Touch) (c : Cells) : Decidable (t.SparesPayments c) :=
  match t with
  | .debit id _ _ | .debitRaw id _ | .credit _ id _ | .vmDebit id _ | .vmCredit id _ | .reset id _ =>
    inferInstanceAs (Decidable (0 ≤ c.balance id))
  | .create _ key _ _ => inferInstanceAs (Decidable (0 ≤ c.balance (getHashPrefix key)))
  | .fine .. | .settle .. | .vmCreate .. | .age .. | .rent .. | .expire .. | .createAsset .. | .writeAsset .. |
    .dropAsset .. | .generator .. | .createAlias .. | .patchAlias .. | .dropAlias .. => .isTrue trivial

/-- The two ends of a pending payment. -/
def EndsPayment (id : HashPrefix) (a : Int) (t : Touch) (c : Cells) : Prop :=
  (∃ amount, t = .settle id amount ∧ (amount.toNat : Int) = a ∧ (t.act c).balance id = a) ∨
    ∃ fee, t = .expire id fee

end Touch

namespace Cells

variable {c : Cells} {id x : HashPrefix} {a : Int}

theorem balance_of_lookup {acc : Account} (h : c.accounts.lookup id = some acc) : c.balance id = acc.getBalance := by
  unfold balance
  rw [h]
  rfl

theorem PendingAt.ne (h : c.PendingAt id a) (hpos : 0 < a) (hspared : 0 ≤ c.balance x) : id ≠ x := by
  rintro rfl
  obtain ⟨acc, hacc, hbal⟩ := h
  rw [balance_of_lookup hacc] at hspared
  omega

theorem PendingAt.mapAccount_of_ne (h : c.PendingAt id a) (hne : id ≠ x) (f : Account → Option Account) :
    (c.mapAccount x f).PendingAt id a := by
  obtain ⟨acc, hacc, hbal⟩ := h
  exact ⟨acc, (lookup_mapAccount _ _ _).trans ((if_neg hne).trans hacc), hbal⟩

/-- A change that leaves the balance of a pending account alone. -/
theorem PendingAt.mapAccount (h : c.PendingAt id a) {f : Account → Option Account}
    (hf : ∀ acc, c.accounts.lookup x = some acc → acc.getBalance < 0 →
      ∃ acc', f acc = some acc' ∧ acc'.getBalance = acc.getBalance) (hpos : 0 < a) :
    (c.mapAccount x f).PendingAt id a := by
  by_cases hne : id = x
  · subst hne
    obtain ⟨acc, hacc, hbal⟩ := h
    obtain ⟨acc', hf', hsame⟩ := hf acc hacc (by omega)
    refine ⟨acc', ?_, hsame.trans hbal⟩
    rw [lookup_mapAccount, if_pos rfl, hacc]
    exact hf'
  · exact h.mapAccount_of_ne hne f

theorem PendingAt.putAccount_of_ne (h : c.PendingAt id a) (hne : id ≠ x) (acc : Account) :
    (c.putAccount x acc).PendingAt id a := by
  obtain ⟨old, hold, hbal⟩ := h
  exact ⟨old, (Finmap.lookup_insert_of_ne _ hne).trans hold, hbal⟩

end Cells

namespace Touch

theorem getBalance_settled (amount : UInt64) (acc : Account) :
    (settled amount acc).getBalance = wrap48 (asInt64 amount) := by
  unfold settled
  rw [Account.getBalance_setNonce, Account.getBalance_setBalance]

theorem getBalance_unlinked {aliasId : UInt32} {acc acc' : Account} (h : unlinked aliasId acc = some acc') :
    acc'.getBalance = acc.getBalance := by
  unfold unlinked at h
  split_ifs at h <;> (cases h; rfl)

/-- A settlement turns the payment into a balance. -/
theorem balance_settle {c : Cells} {id : HashPrefix} {amount : UInt64} {acc : Account}
    (hacc : c.accounts.lookup id = some acc) (hmax : (amount.toNat : Int) ≤ balanceMax) :
    ((Touch.settle id amount).act c).balance id = amount.toNat := by
  have hafter : ((Touch.settle id amount).act c).accounts.lookup id = some (settled amount acc) := by
    refine (Cells.lookup_mapAccount _ _ _).trans ((if_pos rfl).trans ?_)
    rw [hacc]
    rfl
  have hsmall : amount.toNat < 2 ^ 63 := by
    unfold balanceMax at hmax
    omega
  rw [Cells.balance_of_lookup hafter, getBalance_settled, asInt64_of_lt hsmall]
  exact wrap48_of_range (by unfold balanceMin; omega) hmax

end Touch

/-- A touch that spares the payments leaves a pending payment as it is, or ends it. -/
theorem Touch.pending_act {reg : Regime} {id : HashPrefix} {a : Int} (hpos : 0 < a) (hmax : a ≤ balanceMax) (t : Touch)
    (c : Cells) (hcan : t.Can reg c) (hspares : t.SparesPayments c) (h : c.PendingAt id a) :
    (t.act c).PendingAt id a ∨ t.EndsPayment id a c ∧ ((∃ fee, t = .expire id fee) → reg.daily = true) := by
  cases t with
  | debit x total receipt => exact .inl (h.mapAccount_of_ne (h.ne hpos hspares) _)
  | debitRaw x total => exact .inl (h.mapAccount_of_ne (h.ne hpos hspares) _)
  | fine x errFee =>
    refine .inl (h.mapAccount (fun acc _ hneg => ⟨acc, ?_, rfl⟩) hpos)
    unfold fined
    rw [if_pos hneg]
  | settle x amount =>
    by_cases hx : id = x
    · subst hx
      obtain ⟨acc, hacc, hbal⟩ := h
      obtain ⟨acc', hacc', howed, -⟩ := hcan
      rw [hacc] at hacc'
      cases hacc'
      have hamount : (amount.toNat : Int) = a := by omega
      refine .inr ⟨.inl ⟨amount, rfl, hamount, ?_⟩, fun ⟨_, hexpire⟩ => by cases hexpire⟩
      rw [balance_settle hacc (by omega)]
      exact hamount
    · exact .inl (h.mapAccount_of_ne hx _)
  | credit source x amount => exact .inl (h.mapAccount_of_ne (h.ne hpos hspares) _)
  | create source key balance nonce => exact .inl (h.putAccount_of_ne (h.ne hpos hspares) _)
  | vmDebit x amount => exact .inl (h.mapAccount_of_ne (h.ne hpos hspares) _)
  | vmCredit x amount => exact .inl (h.mapAccount_of_ne (h.ne hpos hspares) _)
  | vmCreate key amount =>
    have hne : id ≠ getHashPrefix key := by
      rintro rfl
      obtain ⟨acc, hacc, -⟩ := h
      have hfree : c.accounts.lookup (getHashPrefix key) = none := hcan
      rw [hfree] at hacc
      cases hacc
    exact .inl (h.putAccount_of_ne hne _)
  | age x => exact .inl (h.mapAccount (fun acc _ _ => ⟨_, rfl, rfl⟩) hpos)
  | rent x fee =>
    -- a rent is paid out of a balance above the fee
    obtain ⟨-, hfee, acc, hacc, hpays⟩ := hcan
    refine .inl (h.mapAccount_of_ne (h.ne hpos ?_) _)
    rw [asInt64_of_lt (by omega)] at hpays
    rw [Cells.balance_of_lookup hacc]
    omega
  | expire x fee =>
    by_cases hx : id = x
    · subst hx
      exact .inr ⟨.inr ⟨fee, rfl⟩, fun _ => hcan.1⟩
    · exact .inl (h.mapAccount_of_ne hx _)
  | reset x target => exact .inl (h.mapAccount_of_ne (h.ne hpos hspares) _)
  | createAlias aliasId al => exact .inl (h.mapAccount (fun acc _ _ => ⟨_, rfl, rfl⟩) hpos)
  | dropAlias holder aliasId =>
    exact .inl (h.mapAccount (fun acc _ _ => ⟨_, rfl, getBalance_unlinked rfl⟩) hpos)
  | _ => exact .inl h

/-! ### Histories -/

/-- The payment of `a` under `id` ends in this operation: a transfer of `a` settles it, or the daily pass expires
it. -/
def ServerOp.EndsPayment (exec : CesServer → VmRunRequest → VmProgram) (s : CesServer) (op : ServerOp)
    (id : HashPrefix) (a : Int) : Prop :=
  ∃ before t after m, op.touches exec s = before ++ t :: after ∧ Touched (op.regime s) s.cells before m ∧
    m.PendingAt id a ∧ t.EndsPayment id a m ∧ ((∃ fee, t = .expire id fee) → ∃ order, op = .ledger (.daily order))

theorem ServerOp.daily_of_regime {s : CesServer} {op : ServerOp} (h : (op.regime s).daily = true) :
    ∃ order, op = .ledger (.daily order) := by
  cases op with
  | ledger lop =>
    cases lop with
    | daily order => exact ⟨order, rfl⟩
    | _ => cases h
  | _ => cases h

section

variable (exec : CesServer → VmRunRequest → VmProgram) (s : CesServer) {id : HashPrefix} {a : Int}

theorem ServerOp.pending_apply (hpos : 0 < a) (hmax : a ≤ balanceMax) (op : ServerOp)
    (hspares : TouchesMeet Touch.SparesPayments s.cells (op.touches exec s)) (h : s.cells.PendingAt id a) :
    (op.apply exec s).cells.PendingAt id a ∨ op.EndsPayment exec s id a := by
  rcases Runs.keeps_until (Touch.pending_act hpos hmax) (op.touched_apply s) hspares h with
    hkept | ⟨before, t, after, m, hsplit, hruns, hm, hends, hexpire⟩
  · exact .inl hkept
  · exact .inr ⟨before, t, after, m, hsplit, hruns, hm, hends, fun hfee => daily_of_regime (hexpire hfee)⟩

/-- In a history whose generic writes spare the pending accounts, a payment of `a` stays at `-a` until it is settled
by exactly `a` or expires. -/
theorem payment_kept (ops : List ServerOp) (hpos : 0 < a) (hmax : a ≤ balanceMax) (h : s.cells.PendingAt id a)
    (hspares : RunMeets exec Touch.SparesPayments s ops) :
    (runServer exec s ops).cells.PendingAt id a ∨
      ∃ before op after, ops = before ++ op :: after ∧ (runServer exec s before).cells.PendingAt id a ∧
        op.EndsPayment exec (runServer exec s before) id a := by
  induction ops generalizing s with
  | nil => exact .inl h
  | cons op ops ih =>
    rcases op.pending_apply exec s hpos hmax hspares.1 h with hkept | hends
    · rcases ih _ hkept hspares.2 with hend | ⟨before, op', after, rfl, hbefore, hends⟩
      · exact .inl hend
      · exact .inr ⟨op :: before, op', after, rfl, hbefore, hends⟩
    · exact .inr ⟨[], op, ops, rfl, h, hends⟩

end

/-! ### A payment that a program changes -/

theorem payment_kept_one_day :
    let exec : CesServer → VmRunRequest → VmProgram := fun _ _ => .done ⟨.ok, 0, []⟩
    let ops := [ServerOp.ledger (.daily ⟨[getHashPrefix payeeKey], [], [], [], []⟩)]
    (runServer exec (payServer (-100)) ops).cells.PendingAt (getHashPrefix payeeKey) 100 ∨
      ∃ before op after, ops = before ++ op :: after ∧
        (runServer exec (payServer (-100)) before).cells.PendingAt (getHashPrefix payeeKey) 100 ∧
        op.EndsPayment exec (runServer exec (payServer (-100)) before) (getHashPrefix payeeKey) 100 := by
  intro exec ops
  refine payment_kept exec (payServer (-100)) ops (by decide) (by decide)
    ⟨.ofKey payeeKey (-100) 5, by decide +kernel, by decide⟩ ?_
  decide +kernel

/-- Part of the amount comes in, and the payment asks for the rest. -/
theorem program_pays_part_of_payment :
    let s := runServer bytecode (payServer (-100)) [.ledger (.run 0 (programRequest 1 200000 payeeKey.bytes))]
    (payServer (-100)).accounts.balance (getHashPrefix payeeKey) = -100 ∧
      s.accounts.balance (getHashPrefix payeeKey) = -60 := by
  decide +kernel

end Ces
