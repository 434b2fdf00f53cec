import Mathlib.Data.List.Perm.Subperm
import Ces.Ledger.Mesh
import Ces.Ledger.Moves

/-!
# The parties of a gossip

A first gossip debits its sender; a sink then credits the destination, and a fan-out credits each peer when it
acknowledges its leg. Together the credits are at most the debit. Each one goes to the cell of an eight-byte prefix and
takes the cell over when another key is stored there: `gossip_parties_iff` says that only the parties change exactly
when every cell so credited was free for it.
-/

namespace Ces

open Ces.Lib

theorem Account.getHashPrefix_getKey (acc : Account) (id : HashPrefix) : getHashPrefix (acc.getKey id) = id := by
  apply ByteArr.ext
  have hall : (ByteArr.ofList 32 (id.bytes ++ acc.keyTail.bytes)).bytes = id.bytes ++ acc.keyTail.bytes := by
    refine ByteArr.ofList_bytes ?_
    rw [List.length_append, id.size_eq, acc.keyTail.size_eq]
  have hbegin : (getHashPrefix (acc.getKey id)).bytes = (acc.getKey id).bytes.take 8 :=
    ByteArr.bytes_slice _ (by decide)
  have htake : (id.bytes ++ acc.keyTail.bytes).take id.bytes.length = id.bytes := List.take_left
  rw [id.size_eq] at htake
  rw [hbegin]
  exact (congrArg (List.take 8) hall).trans htake

namespace Accounts

variable {a a' : Accounts} {key other : Hash}

/-! ### The account of a full key -/

def own (a : Accounts) (key : Hash) : Option Account :=
  (a.find (getHashPrefix key)).filter fun acc => acc.getKey (getHashPrefix key) = key

theorem own_congr (h : a'.find (getHashPrefix key) = a.find (getHashPrefix key)) : a'.own key = a.own key := by
  unfold own
  rw [h]

theorem own_of_none (h : a.find (getHashPrefix key) = none) : a.own key = none := by
  unfold own
  rw [h]
  rfl

theorem own_of_own {acc : Account} (h : a.find (getHashPrefix key) = some acc)
    (hkey : acc.getKey (getHashPrefix key) = key) : a.own key = some acc := by
  unfold own
  rw [h, Option.filter_some, if_pos (by simpa using hkey)]

theorem own_of_other {acc : Account} (h : a.find (getHashPrefix key) = some acc)
    (hkey : acc.getKey (getHashPrefix key) ≠ key) : a.own key = none := by
  unfold own
  rw [h, Option.filter_some, if_neg (by simpa using hkey)]

/-! ### One payer -/

/-- `a'` is `a` after the account of `key` paid, and is gone if it paid all it had. -/
structure Charged (a a' : Accounts) (key : Hash) (paid : Nat) : Prop where
  credits : a'.credits = a.credits - paid
  frame : ∀ x, x ≠ getHashPrefix key → a'.find x = a.find x
  cell : (paid = 0 ∧ a'.find (getHashPrefix key) = a.find (getHashPrefix key)) ∨
    ∃ acc, a.find (getHashPrefix key) = some acc ∧ acc.getKey (getHashPrefix key) = key ∧
      ((acc.getBalance = paid ∧ a'.find (getHashPrefix key) = none) ∨
        ∃ acc', a'.find (getHashPrefix key) = some acc' ∧ acc'.getKey (getHashPrefix key) = key ∧
          acc'.getBalance = acc.getBalance - paid)

theorem Charged.refl (a : Accounts) (key : Hash) : a.Charged a key 0 :=
  ⟨by omega, fun _ _ => rfl, .inl ⟨rfl, rfl⟩⟩

theorem charged_debit {acc : Account} {total : UInt64} (hfind : a.find (getHashPrefix key) = some acc)
    (hkey : acc.getKey (getHashPrefix key) = key) (hcovered : (total.toNat : Int) ≤ acc.getBalance) :
    a.Charged (a.debit (getHashPrefix key) total) key total.toNat := by
  have hupper := acc.getBalance_upper
  unfold balanceMax at hupper
  have hbalance := balance_of_find hfind
  have htook : a.Took (a.debit (getHashPrefix key) total) (getHashPrefix key) total.toNat :=
    took_debit (by omega) (by omega)
  have hafter := htook.balance (getHashPrefix key)
  rw [if_pos rfl, hbalance] at hafter
  refine ⟨htook.credits, fun x hx => find_debitStamped_of_ne hx _ _, .inr ⟨acc, hfind, hkey, ?_⟩⟩
  have hcell := find_debit hfind total (getHashPrefix key)
  rw [if_pos rfl] at hcell
  split_ifs at hcell with hgone
  · rw [balance_of_none hcell] at hafter
    exact .inl ⟨by omega, hcell⟩
  · rw [balance_of_find hcell] at hafter
    exact .inr ⟨_, hcell, hkey, hafter⟩

namespace Charged

variable {paid : Nat} (h : a.Charged a' key paid)
include h

theorem keyed : a'.keyed key = a.keyed key - paid := by
  obtain ⟨hzero, hsame⟩ | ⟨acc, hfind, hkey, ⟨hall, hgone⟩ | ⟨acc', hfind', hkey', hless⟩⟩ := h.cell
  · rw [keyed_congr hsame, hzero]
    simp
  · rw [keyed_of_own hfind hkey, keyed_of_none hgone, hall]
    simp
  · rw [keyed_of_own hfind hkey, keyed_of_own hfind' hkey', hless]

/-- A payer that is not there pays nothing. -/
theorem paid_of_absent (habsent : a.own key = none) : paid = 0 := by
  obtain ⟨hzero, -⟩ | ⟨acc, hfind, hkey, -⟩ := h.cell
  · exact hzero
  · rw [own_of_own hfind hkey] at habsent
    cases habsent

theorem own_of_ne (hne : other ≠ key) : a'.own other = a.own other := by
  by_cases hcell : getHashPrefix other = getHashPrefix key
  · obtain ⟨-, hsame⟩ | ⟨acc, hfind, hkey, hafter⟩ := h.cell
    · exact own_congr (by rw [hcell, hsame])
    · rw [← hcell] at hfind hkey hafter
      rw [own_of_other hfind fun heq => hne (heq.symm.trans hkey)]
      obtain ⟨-, hgone⟩ | ⟨acc', hfind', hkey', -⟩ := hafter
      · exact own_of_none hgone
      · exact own_of_other hfind' fun heq => hne (heq.symm.trans hkey')
  · exact own_congr (h.frame _ hcell)

end Charged

/-! ### Keyed credits -/

theorem find_creditKeyed_of_ne {x : HashPrefix} (hx : x ≠ getHashPrefix key) (amount : UInt64) :
    (a.creditKeyed key amount).find x = a.find x := by
  have hcreated : ∀ acc, (a.createAccount (getHashPrefix key) acc).find x = a.find x := fun acc =>
    (find_put ..).trans (if_neg hx)
  unfold creditKeyed
  cases a.find (getHashPrefix key) with
  | none => exact hcreated _
  | some acc =>
    dsimp only
    split_ifs
    · exact find_credit_of_ne hx amount
    · exact hcreated _

/-- Whatever was in the cell, the key is there afterwards. -/
theorem holds_creditKeyed (a : Accounts) (key : Hash) (amount : UInt64) :
    ∃ acc, (a.creditKeyed key amount).find (getHashPrefix key) = some acc ∧ acc.getKey (getHashPrefix key) = key := by
  have hcreated : ∃ acc,
      (a.createAccount (getHashPrefix key) (.ofKey key (asInt64 amount) 0)).find (getHashPrefix key) = some acc ∧
        acc.getKey (getHashPrefix key) = key :=
    ⟨_, (find_put ..).trans (if_pos rfl), Account.getKey_ofKey _ _ _⟩
  unfold creditKeyed
  cases hfind : a.find (getHashPrefix key) with
  | none => exact hcreated
  | some acc =>
    dsimp only
    split_ifs with hkey
    · rw [credit_eq hfind]
      exact ⟨_, (find_put ..).trans (if_pos rfl), hkey⟩
    · exact hcreated

theorem credits_creditKeyed_le (a : Accounts) (key : Hash) (amount : UInt64)
    (hcap : (amount.toNat : Int) ≤ balanceMax) :
    (a.creditKeyed key amount).credits ≤ a.credits + amount.toNat := by
  have hcreated : (a.createAccount (getHashPrefix key) (.ofKey key (asInt64 amount) 0)).credits ≤
      a.credits + amount.toNat := by
    have hsmall : amount.toNat < 2 ^ 63 := by
      unfold balanceMax at hcap
      omega
    unfold createAccount
    rw [credits_put, Account.getBalance_ofKey, asInt64_of_lt hsmall,
      wrap48_of_range (by unfold balanceMin; omega) hcap]
    omega
  unfold creditKeyed
  cases hfind : a.find (getHashPrefix key) with
  | none => exact hcreated
  | some acc =>
    dsimp only
    split_ifs
    · rw [credits_credit, balance_credit hfind, if_pos rfl]
      omega
    · exact hcreated

theorem keyed_upper (a : Accounts) (key : Hash) : a.keyed key ≤ balanceMax := by
  have hzero : (0 : Int) ≤ balanceMax := by decide
  unfold keyed
  cases a.find (getHashPrefix key) with
  | none => exact hzero
  | some acc =>
    change (if _ then _ else _) ≤ _
    split_ifs
    · exact acc.getBalance_upper
    · exact hzero

/-- A credit shows, unless the account is full. -/
theorem keyed_creditKeyed_gt (a : Accounts) (key : Hash) {amount : UInt64} (hpos : 0 < amount.toNat)
    (hcap : (amount.toNat : Int) ≤ balanceMax)
    (hroom : a.keyed key < balanceMax) : a.keyed key < (a.creditKeyed key amount).keyed key := by
  have hcreated : 0 < (a.createAccount (getHashPrefix key) (.ofKey key (asInt64 amount) 0)).keyed key := by
    have hsmall : amount.toNat < 2 ^ 63 := by
      unfold balanceMax at hcap
      omega
    rw [createAccount, keyed_of_own ((find_put ..).trans (if_pos rfl)) (Account.getKey_ofKey _ _ _),
      Account.getBalance_ofKey, asInt64_of_lt hsmall, wrap48_of_range (by unfold balanceMin; omega) hcap]
    omega
  unfold creditKeyed
  cases hfind : a.find (getHashPrefix key) with
  | none =>
    rw [keyed_of_none hfind]
    exact hcreated
  | some acc =>
    dsimp only
    split_ifs with hkey
    · have hkey' : (acc.setBalance (min balanceMax (acc.getBalance + amount.toNat))).getKey (getHashPrefix key) = key :=
        hkey
      rw [keyed_of_own hfind hkey] at hroom ⊢
      rw [credit_eq hfind, keyed_of_own ((find_put ..).trans (if_pos rfl)) hkey', Account.getBalance_setBalance,
        wrap48_credit]
      omega
    · rw [keyed_of_other hfind hkey]
      exact hcreated

/-- Credits to keys, one after the other. -/
def creditAll (a : Accounts) (grants : List (Hash × UInt64)) : Accounts :=
  grants.foldl (fun a g => a.creditKeyed g.1 g.2) a

variable {grants : List (Hash × UInt64)} {x : HashPrefix}

theorem find_creditAll (h : ∀ g ∈ grants, x ≠ getHashPrefix g.1) : (a.creditAll grants).find x = a.find x := by
  unfold creditAll
  induction grants generalizing a with
  | nil => rfl
  | cons g grants ih =>
    rw [List.forall_mem_cons] at h
    rw [List.foldl_cons, ih h.2, find_creditKeyed_of_ne h.1]

/-- A credited cell holds one of the keys credited to it. -/
theorem holds_creditAll (h : ∃ g ∈ grants, getHashPrefix g.1 = x) :
    ∃ g ∈ grants, ∃ acc, (a.creditAll grants).find x = some acc ∧ acc.getKey x = g.1 := by
  induction grants generalizing a with
  | nil => simp at h
  | cons g grants ih =>
    by_cases hlater : ∃ g' ∈ grants, getHashPrefix g'.1 = x
    · obtain ⟨g', hmem, hholds⟩ := ih (a := a.creditKeyed g.1 g.2) hlater
      exact ⟨g', List.mem_cons_of_mem _ hmem, hholds⟩
    · -- the last credit to the cell is this one
      push Not at hlater
      obtain ⟨g', hmem, hcell⟩ := h
      obtain rfl | hmem := List.mem_cons.mp hmem
      · obtain ⟨acc, hfind, hkey⟩ := holds_creditKeyed a g'.1 g'.2
        rw [hcell] at hfind hkey
        refine ⟨g', List.mem_cons_self, acc, ?_, hkey⟩
        exact (find_creditAll fun g hg => (hlater g hg).symm).trans hfind
      · exact absurd hcell (hlater g' hmem)

theorem credits_creditAll_le (a : Accounts) (h : ∀ g ∈ grants, (g.2.toNat : Int) ≤ balanceMax) :
    (a.creditAll grants).credits ≤ a.credits + ((grants.map fun g => g.2.toNat).sum : Nat) := by
  unfold creditAll
  induction grants generalizing a with
  | nil => simp
  | cons g grants ih =>
    rw [List.forall_mem_cons] at h
    have hhead := credits_creditKeyed_le a g.1 g.2 h.1
    have hrest := ih (a.creditKeyed g.1 g.2) h.2
    rw [List.foldl_cons, List.map_cons, List.sum_cons]
    omega

/-! ### Only the parties change -/

/-- The cell of `key` is free, or held by a receiver, or by the payer down to its last credit. -/
def Spares (a : Accounts) (payer : Hash) (paid : Nat) (receivers : List Hash) (key : Hash) : Prop :=
  ∀ acc, a.find (getHashPrefix key) = some acc →
    acc.getKey (getHashPrefix key) ∈ receivers ∨ acc.getKey (getHashPrefix key) = payer ∧ acc.getBalance = paid

section parties

variable {payer : Hash} {paid : Nat} {receivers : List Hash}

/-- A key outside the receivers is not in a cell that was credited. -/
theorem absent_of_credited (hgrants : ∀ g ∈ grants, g.1 ∈ receivers) (hkey : key ∉ receivers)
    (hcell : ∃ g ∈ grants, getHashPrefix g.1 = getHashPrefix key) :
    ∃ acc, (a.creditAll grants).find (getHashPrefix key) = some acc ∧ acc.getKey (getHashPrefix key) ≠ key := by
  obtain ⟨g, hg, acc, hfind, hholds⟩ := holds_creditAll (a := a) hcell
  exact ⟨acc, hfind, fun heq => hkey (heq ▸ hholds ▸ hgrants g hg)⟩

theorem parties_iff (h : a.Charged a' payer paid) (hgrants : ∀ g ∈ grants, g.1 ∈ receivers)
    (hpayer : payer ∉ receivers) :
    ((a'.creditAll grants).keyed payer = a.keyed payer - paid ∧
        ∀ key, key ≠ payer → key ∉ receivers → (a'.creditAll grants).own key = a.own key) ↔
      ∀ g ∈ grants, a.Spares payer paid receivers g.1 := by
  constructor
  · rintro ⟨hloss, hothers⟩ g hg acc hfind
    generalize hkey : acc.getKey (getHashPrefix g.1) = key
    have hcell : getHashPrefix g.1 = getHashPrefix key := by rw [← hkey, acc.getHashPrefix_getKey]
    rw [hcell] at hfind hkey
    by_contra hnot
    rw [not_or] at hnot
    obtain ⟨acc', hfind', hother⟩ := absent_of_credited (a := a') hgrants hnot.1 ⟨g, hg, hcell⟩
    by_cases hp : key = payer
    · subst hp
      rw [keyed_of_other hfind' hother, keyed_of_own hfind hkey] at hloss
      exact hnot.2 ⟨rfl, by omega⟩
    · have hown := hothers key hp hnot.1
      rw [own_of_other hfind' hother, own_of_own hfind hkey] at hown
      cases hown
  · intro hspares
    refine ⟨?_, fun key hp hreceiver => ?_⟩
    · by_cases hcell : ∃ g ∈ grants, getHashPrefix g.1 = getHashPrefix payer
      · obtain ⟨acc', hfind', hother⟩ := absent_of_credited (a := a') hgrants hpayer hcell
        rw [keyed_of_other hfind' hother]
        obtain ⟨g, hg, hcell⟩ := hcell
        cases hfind : a.find (getHashPrefix payer) with
        | none => rw [keyed_of_none hfind, h.paid_of_absent (own_of_none hfind)]; rfl
        | some acc =>
          have hspared := hspares g hg acc (hcell ▸ hfind)
          rw [hcell] at hspared
          obtain hmem | ⟨hkey, hall⟩ := hspared
          · have hkey : acc.getKey (getHashPrefix payer) ≠ payer := fun heq => hpayer (heq ▸ hmem)
            rw [keyed_of_other hfind hkey, h.paid_of_absent (own_of_other hfind hkey)]
            rfl
          · rw [keyed_of_own hfind hkey, hall, sub_self]
      · push Not at hcell
        rw [keyed_congr (find_creditAll fun g hg => (hcell g hg).symm), h.keyed]
    · by_cases hcell : ∃ g ∈ grants, getHashPrefix g.1 = getHashPrefix key
      · obtain ⟨acc', hfind', hother⟩ := absent_of_credited (a := a') hgrants hreceiver hcell
        rw [own_of_other hfind' hother]
        obtain ⟨g, hg, hcell⟩ := hcell
        cases hfind : a.find (getHashPrefix key) with
        | none => exact (own_of_none hfind).symm
        | some acc =>
          refine (own_of_other hfind fun hkey => ?_).symm
          have hspared := hspares g hg acc (hcell ▸ hfind)
          rw [hcell, hkey] at hspared
          exact hspared.elim hreceiver fun hpaid => hp hpaid.1
      · push Not at hcell
        rw [own_congr (find_creditAll fun g hg => (hcell g hg).symm), h.own_of_ne hp]

end parties

end Accounts

/-! ### The legs of a plan -/

namespace CesServer

variable {s : CesServer} {shuffle : List GossipCand → List GossipCand} {budget : UInt64} {excludeKey : Hash}

theorem key_of_mem_gossipCands {c : GossipCand} (h : c ∈ s.gossipCands excludeKey) : c.key ≠ excludeKey := by
  unfold gossipCands at h
  obtain ⟨p, -, hp⟩ := List.mem_filterMap.mp h
  split_ifs at hp with hskip
  cases hp
  intro heq
  exact hskip (by simp [show p.ckey = excludeKey from heq])

/-- No leg goes back to where the gossip came from. -/
theorem key_of_mem_legs (hshuffle : ∀ cands, (shuffle cands).Perm cands) {leg : GossipLeg}
    (h : leg ∈ (s.computeGossipFanout shuffle budget excludeKey).legs) : leg.key ≠ excludeKey := by
  unfold computeGossipFanout at h
  obtain ⟨⟨c, alloc⟩, hmem, hleg⟩ := List.mem_filterMap.mp h
  have hchosen := (List.of_mem_zip hmem).1
  have hcand : c ∈ s.gossipCands excludeKey := by
    split_ifs at hchosen
    · exact (hshuffle _).mem_iff.mp (List.mem_of_mem_take hchosen)
    · exact hchosen
  dsimp only at hleg
  split_ifs at hleg
  cases hleg
  exact key_of_mem_gossipCands hcand

/-- Legs made from allocations, none larger than its allocation. -/
theorem alloc_legs_le (chosen : List GossipCand) (allocs : List Nat) {make : GossipCand × Nat → Option GossipLeg}
    (hmake : ∀ p leg, make p = some leg → leg.alloc.toNat ≤ p.2) :
    (((chosen.zip allocs).filterMap make).map fun leg => leg.alloc.toNat).sum ≤ allocs.sum := by
  induction chosen generalizing allocs with
  | nil => simp
  | cons c chosen ih =>
    cases allocs with
    | nil => simp
    | cons alloc allocs =>
      have hrest := ih allocs
      rw [List.zip_cons_cons, List.filterMap_cons, List.sum_cons]
      cases hleg : make (c, alloc) with
      | none =>
        dsimp only
        omega
      | some leg =>
        have hle := hmake _ _ hleg
        dsimp only at hle ⊢
        rw [List.map_cons, List.sum_cons]
        omega

/-- The legs share what is fanned out. -/
theorem sum_legs_le : ((s.computeGossipFanout shuffle budget excludeKey).legs.map fun leg => leg.alloc.toNat).sum ≤
    (s.computeGossipFanout shuffle budget excludeKey).fanned.toNat := by
  unfold computeGossipFanout
  dsimp only
  generalize (if 0 < s.cfg.gossipFanoutDegree ∧ s.cfg.gossipFanoutDegree < (s.gossipCands excludeKey).length then
    (shuffle (s.gossipCands excludeKey)).take s.cfg.gossipFanoutDegree else s.gossipCands excludeKey) = chosen
  have hle := sum_splitCapped_le budget.toNat (chosen.map fun c => c.cap.toNat)
  have hlt := budget.toNat_lt
  rw [UInt64.toNat_ofNat_of_lt' (by simp only [UInt64.size]; omega)]
  refine alloc_legs_le chosen _ fun p leg hleg => ?_
  split_ifs at hleg
  cases hleg
  exact Nat.mod_le _ _

end CesServer

/-! ### A gossip and its acknowledgements -/

/-- What a peer reports about its leg. -/
structure GossipAck where
  leg : GossipLeg
  rc : Rc
  paid : UInt64

/-- The credit a report is worth. -/
def GossipAck.grant (ack : GossipAck) : Option (Hash × UInt64) :=
  if ack.rc ≠ .ok ∨ ack.paid = 0 then none
  else some (ack.leg.key, Accounts.capAmount (min ack.paid ack.leg.alloc))

/-- The callbacks, in the order they fire. -/
def ackGossipLegs (s : CesServer) (acks : List GossipAck) : CesServer :=
  acks.foldl (fun t ack => ackGossipLeg t ack.leg.key ack.leg.alloc ack.rc ack.paid) s

theorem accounts_ackGossipLegs (s : CesServer) (acks : List GossipAck) :
    (ackGossipLegs s acks).accounts = s.accounts.creditAll (acks.filterMap GossipAck.grant) := by
  unfold ackGossipLegs Accounts.creditAll
  induction acks generalizing s with
  | nil => rfl
  | cons ack acks ih =>
    rw [List.foldl_cons, ih, List.filterMap_cons]
    unfold ackGossipLeg GossipAck.grant
    split_ifs
    · rfl
    · rfl

theorem toNat_capAmount_le (amount : UInt64) :
    (Accounts.capAmount amount).toNat ≤ amount.toNat ∧ ((Accounts.capAmount amount).toNat : Int) ≤ balanceMax := by
  have hmax : (asUInt64 balanceMax).toNat = balanceMax := by decide
  unfold Accounts.capAmount
  rw [toNat_min_uint64]
  omega

theorem sum_grants_le (acks : List GossipAck) :
    ((acks.filterMap GossipAck.grant).map fun g => g.2.toNat).sum ≤ (acks.map fun ack => ack.leg.alloc.toNat).sum := by
  induction acks with
  | nil => simp
  | cons ack acks ih =>
    rw [List.filterMap_cons, List.map_cons, List.sum_cons]
    unfold GossipAck.grant at ih ⊢
    split_ifs
    · dsimp only
      omega
    · have hcap := (toNat_capAmount_le (min ack.paid ack.leg.alloc)).1
      rw [toNat_min_uint64] at hcap
      dsimp only
      rw [List.map_cons, List.sum_cons]
      dsimp only
      omega

namespace CesGossip

variable (req : CesGossip) (s : CesServer) (shuffle : List GossipCand → List GossipCand)

/-- The plan that is dispatched: none at a sink. -/
def plan : FanoutPlan :=
  if s.isSink req.dest then ⟨[], 0⟩
  else s.computeGossipFanout shuffle (req.collectable s - req.skim s) req.originId

/-- What the sender is to lose. -/
def loss : Nat :=
  if s.isSink req.dest then (req.collectable s).toNat else (req.skim s).toNat + (req.plan s shuffle).fanned.toNat

/-- Who may be credited. -/
def receivers : List Hash :=
  if s.isSink req.dest then [req.dest] else (req.plan s shuffle).legs.map (·.key)

/-- What a sink hands to its destination. -/
def sinkGrant : List (Hash × UInt64) :=
  let delivered := Accounts.capAmount (req.collectable s - req.skim s)
  if 0 < req.collectable s ∧ req.dest ≠ s.serverKey ∧ 0 < delivered then [(req.dest, delivered)] else []

/-- The gossip mints nothing, its sender loses what it is to lose, and nobody but the parties is touched. -/
structure TouchesParties (t : CesServer) : Prop where
  credits : t.accounts.credits ≤ s.accounts.credits
  sender : t.accounts.keyed req.originId = s.accounts.keyed req.originId - req.loss s shuffle
  others : ∀ key, key ≠ req.originId → key ∉ req.receivers s shuffle → t.accounts.own key = s.accounts.own key

/-- Every cell that is credited is free for it, and a sink that takes something is not its own sender. -/
def CellsFree (acks : List GossipAck) : Prop :=
  (s.isSink req.dest = true → 0 < req.collectable s → req.dest ≠ s.serverKey →
      0 < Accounts.capAmount (req.collectable s - req.skim s) →
    req.dest ≠ req.originId ∧
      s.accounts.Spares req.originId (req.loss s shuffle) (req.receivers s shuffle) req.dest) ∧
  ∀ ack ∈ acks, ack.rc = .ok → ack.paid ≠ 0 →
    s.accounts.Spares req.originId (req.loss s shuffle) (req.receivers s shuffle) ack.leg.key

variable {req s shuffle}

variable (req s) in
theorem sinkGrant_cases : req.sinkGrant s = [] ∨
    0 < req.collectable s ∧ req.dest ≠ s.serverKey ∧ 0 < Accounts.capAmount (req.collectable s - req.skim s) ∧
      req.sinkGrant s = [(req.dest, Accounts.capAmount (req.collectable s - req.skim s))] := by
  unfold sinkGrant
  dsimp only
  split_ifs with hgrant
  · exact .inr ⟨hgrant.1, hgrant.2.1, hgrant.2.2, rfl⟩
  · exact .inl rfl

theorem accounts_sink (hpos : 0 < req.collectable s) (addr : SockAddr) :
    (req.sink s addr).accounts = (s.accounts.debit req.senderPfx (req.collectable s)).creditAll (req.sinkGrant s) := by
  unfold sink
  dsimp only
  rw [if_pos hpos]
  change req.sinkAccounts s = _
  unfold sinkAccounts sinkGrant
  dsimp only
  by_cases hgrant : req.dest ≠ s.serverKey ∧ 0 < Accounts.capAmount (req.collectable s - req.skim s)
  · rw [if_pos hgrant, if_pos ⟨hpos, hgrant⟩]
    rfl
  · rw [if_neg hgrant, if_neg fun h => hgrant h.2]
    rfl

variable (req s shuffle) in
theorem loss_le : req.loss s shuffle ≤ (req.collectable s).toNat := by
  unfold loss plan
  split_ifs
  · exact le_rfl
  · exact (toNat_charge req s shuffle).2

/-- The accounts after the handler: the sender is charged and a sink has its share. -/
theorem accounts_handleGossip (hfirst : s.gossipSeen.lookup req.mid = none)
    (shuffle : List GossipCand → List GossipCand) (addr : SockAddr) :
    ∃ charged, s.accounts.Charged charged req.originId (req.loss s shuffle) ∧
      (handleGossip s shuffle req addr).accounts =
        if s.isSink req.dest then charged.creditAll (req.sinkGrant s) else charged := by
  by_cases hnothing : req.collectable s = 0
  · have hloss : req.loss s shuffle = 0 := by
      have hle := loss_le req s shuffle
      rw [hnothing] at hle
      exact Nat.le_zero.mp hle
    have hgrant : req.sinkGrant s = [] := by
      obtain hnone | ⟨hpos, -⟩ := sinkGrant_cases req s
      · exact hnone
      · rw [hnothing] at hpos
        exact absurd hpos (by decide)
    refine ⟨s.accounts, hloss ▸ .refl _ _, ?_⟩
    rw [accounts_handleGossip_of_nothing hnothing, hgrant]
    split_ifs <;> rfl
  · have hpos : 0 < (req.collectable s).toNat := Nat.pos_of_ne_zero fun hzero => hnothing (UInt64.toNat_inj.mp hzero)
    obtain ⟨acc, hfind, hkey, hcovered⟩ := collectable_covered hpos
    unfold handleGossip
    rw [hfirst]
    dsimp only
    by_cases hsink : s.isSink req.dest = true
    · simp only [if_pos hsink]
      refine ⟨_, ?_, accounts_sink (UInt64.lt_iff_toNat_lt.mpr hpos) addr⟩
      unfold loss
      rw [if_pos hsink]
      exact Accounts.charged_debit hfind hkey hcovered
    · simp only [if_neg hsink]
      obtain ⟨hcharge, hle⟩ := toNat_charge req s shuffle
      refine ⟨s.accounts.debit req.senderPfx (req.skim s +
        (s.computeGossipFanout shuffle (req.collectable s - req.skim s) req.originId).fanned), ?_, ?_⟩
      · unfold loss plan
        rw [if_neg hsink, if_neg hsink, ← hcharge]
        exact Accounts.charged_debit hfind hkey (by omega)
      · unfold broadcast
        rw [if_neg hnothing]
        exact dispatchGossipFanout_accounts _ _ _ _ _ _

variable (req s) in
theorem sum_sinkGrant_le : ((req.sinkGrant s).map fun g => g.2.toNat).sum ≤ (req.collectable s).toNat := by
  obtain hnone | ⟨-, -, -, hgrant⟩ := sinkGrant_cases req s
  · rw [hnone]
    exact Nat.zero_le _
  · have hcap := (toNat_capAmount_le (req.collectable s - req.skim s)).1
    have hskim : (req.skim s).toNat ≤ (req.collectable s).toNat := skim_le
    rw [UInt64.toNat_sub_of_le _ _ (UInt64.le_iff_toNat_le.mpr hskim)] at hcap
    rw [hgrant, List.map_singleton, List.sum_singleton]
    exact hcap.trans (Nat.sub_le _ _)

/-- The sink's half: whether its one credit lands well. -/
theorem parties_sink_iff {charged : Accounts} (hsink : s.isSink req.dest = true)
    (h : s.accounts.Charged charged req.originId (req.loss s shuffle)) :
    ((charged.creditAll (req.sinkGrant s)).keyed req.originId =
          s.accounts.keyed req.originId - req.loss s shuffle ∧
        ∀ key, key ≠ req.originId → key ∉ req.receivers s shuffle →
          (charged.creditAll (req.sinkGrant s)).own key = s.accounts.own key) ↔ req.CellsFree s shuffle [] := by
  have hreceivers : req.receivers s shuffle = [req.dest] := if_pos hsink
  unfold CellsFree
  obtain hnone | ⟨hpos, hserver, hdelivered, hgrant⟩ := sinkGrant_cases req s
  · have hvacuous : ¬(0 < req.collectable s ∧ req.dest ≠ s.serverKey ∧
        0 < Accounts.capAmount (req.collectable s - req.skim s)) := by
      intro hall
      unfold sinkGrant at hnone
      rw [if_pos hall] at hnone
      cases hnone
    rw [hnone]
    refine iff_of_true ⟨h.keyed, fun key hne _ => h.own_of_ne hne⟩ ⟨fun _ hpos hserver hdelivered => ?_, by simp⟩
    exact absurd ⟨hpos, hserver, hdelivered⟩ hvacuous
  · by_cases hself : req.dest = req.originId
    · -- the sender gets its gossip back
      refine iff_of_false (fun hparties => ?_) fun hfree => (hfree.1 hsink hpos hserver hdelivered).1 hself
      have hloss : req.loss s shuffle = (req.collectable s).toNat := if_pos hsink
      have hupper := s.accounts.keyed_upper req.originId
      have hcharged := h.keyed
      rw [hgrant, hself] at hparties
      have hmore := Accounts.keyed_creditKeyed_gt charged req.originId
        (UInt64.lt_iff_toNat_lt.mp hdelivered) (toNat_capAmount_le _).2
        (by have := UInt64.lt_iff_toNat_lt.mp hpos; simp only [UInt64.toNat_zero] at this; omega)
      have hback := hparties.1
      change (charged.creditKeyed req.originId (Accounts.capAmount (req.collectable s - req.skim s))).keyed
        _ = _ at hback
      omega
    · rw [hgrant, Accounts.parties_iff h (by rw [hreceivers]; simp) (by rw [hreceivers]; simpa using Ne.symm hself)]
      constructor
      · intro hspares
        exact ⟨fun _ _ _ _ => ⟨hself, hspares _ (List.mem_singleton_self _)⟩, by simp⟩
      · rintro ⟨hfree, -⟩ g hg
        rw [List.mem_singleton.mp hg]
        exact (hfree hsink hpos hserver hdelivered).2

theorem mem_grants {acks : List GossipAck} {g : Hash × UInt64} :
    g ∈ acks.filterMap GossipAck.grant ↔
      ∃ ack ∈ acks, ack.rc = .ok ∧ ack.paid ≠ 0 ∧
        g = (ack.leg.key, Accounts.capAmount (min ack.paid ack.leg.alloc)) := by
  rw [List.mem_filterMap]
  refine exists_congr fun ack => and_congr_right fun _ => ?_
  unfold GossipAck.grant
  split_ifs with hnothing
  · refine iff_of_false (by simp) fun h => ?_
    exact hnothing.elim (fun hrc => hrc h.1) fun hpaid => h.2.1 hpaid
  · push Not at hnothing
    rw [Option.some.injEq]
    exact ⟨fun h => ⟨hnothing.1, hnothing.2, h.symm⟩, fun h => h.2.2.symm⟩

/-- The acknowledgements' half. -/
theorem parties_acks_iff {charged : Accounts} {acks : List GossipAck} (hsink : ¬s.isSink req.dest = true)
    (hshuffle : ∀ cands, (shuffle cands).Perm cands)
    (hacks : (acks.map (·.leg)).Subperm (req.plan s shuffle).legs)
    (h : s.accounts.Charged charged req.originId (req.loss s shuffle)) :
    ((charged.creditAll (acks.filterMap GossipAck.grant)).keyed req.originId =
          s.accounts.keyed req.originId - req.loss s shuffle ∧
        ∀ key, key ≠ req.originId → key ∉ req.receivers s shuffle →
          (charged.creditAll (acks.filterMap GossipAck.grant)).own key = s.accounts.own key) ↔
      req.CellsFree s shuffle acks := by
  have hreceivers : req.receivers s shuffle = (req.plan s shuffle).legs.map (·.key) := if_neg hsink
  have hplan : req.plan s shuffle = s.computeGossipFanout shuffle (req.collectable s - req.skim s) req.originId :=
    if_neg hsink
  rw [Accounts.parties_iff h]
  · unfold CellsFree
    constructor
    · intro hspares
      refine ⟨fun hyes => absurd hyes hsink, fun ack hack hrc hpaid => ?_⟩
      exact hspares _ (mem_grants.mpr ⟨ack, hack, hrc, hpaid, rfl⟩)
    · rintro ⟨-, hfree⟩ g hg
      obtain ⟨ack, hack, hrc, hpaid, rfl⟩ := mem_grants.mp hg
      exact hfree ack hack hrc hpaid
  · intro g hg
    obtain ⟨ack, hack, -, -, rfl⟩ := mem_grants.mp hg
    rw [hreceivers]
    exact List.mem_map_of_mem (hacks.subset (List.mem_map_of_mem hack))
  · rw [hreceivers, hplan, List.mem_map]
    rintro ⟨leg, hleg, hkey⟩
    exact CesServer.key_of_mem_legs hshuffle hleg hkey

/-- The peers are credited at most what was fanned out. -/
theorem sum_grants_le_loss {acks : List GossipAck} (hsink : ¬s.isSink req.dest = true)
    (hacks : (acks.map (·.leg)).Subperm (req.plan s shuffle).legs) :
    ((acks.filterMap GossipAck.grant).map fun g => g.2.toNat).sum ≤ req.loss s shuffle := by
  have hplan : req.plan s shuffle = s.computeGossipFanout shuffle (req.collectable s - req.skim s) req.originId :=
    if_neg hsink
  have hloss : req.loss s shuffle = (req.skim s).toNat + (req.plan s shuffle).fanned.toNat := if_neg hsink
  have hlegs : ((req.plan s shuffle).legs.map fun leg => leg.alloc.toNat).sum ≤ (req.plan s shuffle).fanned.toNat := by
    rw [hplan]
    exact CesServer.sum_legs_le
  have hsome : (acks.map fun ack => ack.leg.alloc.toNat).sum ≤
      ((req.plan s shuffle).legs.map fun leg => leg.alloc.toNat).sum := by
    obtain ⟨fired, hperm, hsub⟩ := hacks
    have hfired := (hperm.map fun leg => leg.alloc.toNat).sum_eq
    rw [List.map_map] at hfired
    refine hfired.symm.le.trans ?_
    exact (hsub.map _).sum_le_sum fun _ _ => Nat.zero_le _
  have hgrants := sum_grants_le acks
  omega

end CesGossip

/-- Whatever the peers report, a first gossip mints nothing, its sender loses exactly its charge and only the parties
change, exactly when every cell it credits was free for the credit. -/
theorem gossip_parties_iff {req : CesGossip} {s : CesServer} {shuffle : List GossipCand → List GossipCand}
    {acks : List GossipAck} (hfirst : s.gossipSeen.lookup req.mid = none)
    (hshuffle : ∀ cands, (shuffle cands).Perm cands)
    (hacks : (acks.map (·.leg)).Subperm (req.plan s shuffle).legs) (addr : SockAddr) :
    req.TouchesParties s shuffle (ackGossipLegs (handleGossip s shuffle req addr) acks) ↔
      req.CellsFree s shuffle acks := by
  obtain ⟨charged, hcharged, haccounts⟩ := CesGossip.accounts_handleGossip hfirst shuffle addr
  have hall := accounts_ackGossipLegs (handleGossip s shuffle req addr) acks
  rw [haccounts] at hall
  have hcredits := hcharged.credits
  by_cases hsink : s.isSink req.dest = true
  · have hnone : acks = [] := by
      unfold CesGossip.plan at hacks
      rw [if_pos hsink, List.subperm_nil, List.map_eq_nil_iff] at hacks
      exact hacks
    subst hnone
    rw [if_pos hsink] at hall
    replace hall : (ackGossipLegs (handleGossip s shuffle req addr) []).accounts =
      charged.creditAll (req.sinkGrant s) := hall
    rw [← CesGossip.parties_sink_iff hsink hcharged, ← hall]
    refine ⟨fun h => ⟨h.sender, h.others⟩, fun h => ⟨?_, h.1, h.2⟩⟩
    have hloss : req.loss s shuffle = (req.collectable s).toNat := if_pos hsink
    have hcapped : ∀ g ∈ req.sinkGrant s, (g.2.toNat : Int) ≤ balanceMax := by
      obtain hnone | ⟨-, -, -, hgrant⟩ := CesGossip.sinkGrant_cases req s
      · rw [hnone]
        simp
      · rw [hgrant]
        simpa using (toNat_capAmount_le _).2
    have hgrant := charged.credits_creditAll_le hcapped
    have hsum := CesGossip.sum_sinkGrant_le req s
    rw [hall]
    omega
  · rw [if_neg hsink] at hall
    rw [← CesGossip.parties_acks_iff hsink hshuffle hacks hcharged, ← hall]
    refine ⟨fun h => ⟨h.sender, h.others⟩, fun h => ⟨?_, h.1, h.2⟩⟩
    have hcapped : ∀ g ∈ acks.filterMap GossipAck.grant, (g.2.toNat : Int) ≤ balanceMax := by
      intro g hg
      obtain ⟨ack, -, -, -, rfl⟩ := CesGossip.mem_grants.mp hg
      exact (toNat_capAmount_le _).2
    have hgrant := charged.credits_creditAll_le hcapped
    have hsum := CesGossip.sum_grants_le_loss hsink hacks
    rw [hall]
    omega

/-! ### A peer that is credited, and a sink on another key's cell -/

def paidGossip (dest : Hash) : CesGossip := { meshPacket.req with dest := dest, budget := 900000 }

/-- One peer that can be reached, with a reserve there. -/
def peeredServer : CesServer := { mesh true with peerTable := [⟨victimKey, [1], true, 500⟩] }

def peerAcks : List GossipAck := [⟨⟨[1], victimKey, 500⟩, .ok, 300⟩]

theorem gossip_parties_of_peer :
    (paidGossip (ByteArr.zero 32)).TouchesParties peeredServer id
      (ackGossipLegs (handleGossip peeredServer id (paidGossip (ByteArr.zero 32)) []) peerAcks) := by
  have hlegs : ((paidGossip (ByteArr.zero 32)).plan peeredServer id).legs = peerAcks.map (·.leg) := by decide +kernel
  have hfree : peeredServer.accounts.find (getHashPrefix victimKey) = none := by decide +kernel
  have hbroadcast : peeredServer.isSink (paidGossip (ByteArr.zero 32)).dest = false := by decide +kernel
  have hshuffle : ∀ cands : List GossipCand, (id cands).Perm cands := fun _ => .refl _
  have hacks := List.Subperm.refl (peerAcks.map (·.leg))
  nth_rewrite 2 [← hlegs] at hacks
  refine (gossip_parties_iff (by decide +kernel) hshuffle hacks []).mpr ⟨?_, ?_⟩
  · intro hsink
    cases hbroadcast.symm.trans hsink
  · intro ack hack _ _ acc hacc
    rw [List.mem_singleton.mp hack] at hacc
    cases hfree.symm.trans hacc

/-- A sink whose key begins like that of a stored account. -/
def sinkServer : CesServer :=
  registerSinkTarget
    { mesh true with
      accounts := .load (((∅ : FMap HashPrefix Account).insert (getHashPrefix tallyKey)
        (.ofKey tallyKey 1000000 0)).insert
        (getHashPrefix victimKey) (.ofKey victimKey 700 0)) } collidingKey

/-- The other account is gone. -/
theorem gossip_replaces_account :
    ¬(paidGossip collidingKey).TouchesParties sinkServer id
      (ackGossipLegs (handleGossip sinkServer id (paidGossip collidingKey) []) []) := by
  intro h
  have hstored : (sinkServer.accounts.own victimKey).isSome = true := by decide +kernel
  rw [← h.others victimKey (by decide) (by decide +kernel)] at hstored
  have hgone : ((ackGossipLegs (handleGossip sinkServer id (paidGossip collidingKey) []) []).accounts.own
      victimKey).isSome = false := by decide +kernel
  exact Bool.false_ne_true (hgone.symm.trans hstored)

end Ces
