import Ces.Ledger.Daily

/-!
# Gossip

A gossip pays its way hop by hop: the sender authorises a budget, this server collects what the sender holds
of it, keeps a toll and either delivers the rest to the account it is addressed to (a sink) or splits it over
peers. Each peer acknowledges what it took, and its account here is credited by that much.

`splitCapped` never hands out more than the budget (`total_splitLoop`), which is why the debit of a fan-out is
covered.
-/

namespace Ces

open Ces.Lib

/-! ### The capped split -/

/-- One share of a split, active while below its cap. -/
structure SplitEntry where
  cap : Nat
  alloc : Nat
  active : Bool

/-- Hand out one share to every active entry: the entries, what remains, and whether anything was given. -/
def splitRound (share : Nat) : List SplitEntry → Nat → List SplitEntry × Nat × Bool
  | [], remaining => ([], remaining, false)
  | e :: rest, remaining =>
    if e.active then
      let give := min share (e.cap - e.alloc)
      let r := splitRound share rest (remaining - give)
      (⟨e.cap, e.alloc + give, e.alloc + give < e.cap⟩ :: r.1, r.2.1, decide (0 < give) || r.2.2)
    else
      let r := splitRound share rest remaining
      (e :: r.1, r.2)

def activeCount (es : List SplitEntry) : Nat := es.countP (·.active)

/-- Rounds until nothing is left, everyone is at the cap, or the remainder is smaller than a share each. -/
def splitLoop : Nat → List SplitEntry → Nat → List SplitEntry × Nat
  | 0, es, remaining => (es, remaining)
  | fuel + 1, es, remaining =>
    let n := activeCount es
    if remaining = 0 ∨ n = 0 ∨ remaining / n = 0 then (es, remaining)
    else
      let r := splitRound (remaining / n) es remaining
      if r.2.2 then splitLoop fuel r.1 r.2.1 else (r.1, r.2.1)

/-- The allocations and the pocketed remainder. Every round but the last fills an entry, so the fuel covers
all of them. -/
def splitCapped (budget : Nat) (caps : List Nat) : List Nat × Nat :=
  let r := splitLoop (caps.length + 2) (caps.map fun c => ⟨c, 0, 0 < c⟩) budget
  (r.1.map (·.alloc), r.2)

/-! ### Fan-out -/

structure GossipLeg where
  address : Bytes
  key : Hash
  alloc : UInt64
  deriving DecidableEq

structure FanoutPlan where
  legs : List GossipLeg
  fanned : UInt64

structure GossipCand where
  address : Bytes
  key : Hash
  cap : UInt64
  deriving DecidableEq

namespace CesServer

variable (s : CesServer)

/-- What one hop may spend at a peer: our reserve there, within the configured disturbance. -/
def gossipCap (p : PeerEntry) : UInt64 :=
  let cap := if 0 ≤ p.ourBalanceThere then asUInt64 p.ourBalanceThere else uint64Max
  if 0 < s.cfg.maxPeerReserveDisturbance ∧ s.cfg.maxPeerReserveDisturbance < cap then
    s.cfg.maxPeerReserveDisturbance
  else cap

def gossipCands (excludeKey : Hash) : List GossipCand :=
  s.peerTable.filterMap fun p =>
    if !p.reachable || p.declaredAddress.isEmpty || p.ckey == excludeKey || s.gossipCap p == 0 then none
    else some ⟨p.declaredAddress, p.ckey, s.gossipCap p⟩

/-- `shuffle` is the random order the source draws. -/
def computeGossipFanout (shuffle : List GossipCand → List GossipCand) (budget : UInt64) (excludeKey : Hash) :
    FanoutPlan :=
  let cands := s.gossipCands excludeKey
  let chosen :=
    if 0 < s.cfg.gossipFanoutDegree ∧ s.cfg.gossipFanoutDegree < cands.length then
      (shuffle cands).take s.cfg.gossipFanoutDegree
    else cands
  let allocs := (splitCapped budget.toNat (chosen.map fun c => c.cap.toNat)).1
  { legs := (chosen.zip allocs).filterMap fun (c, alloc) =>
      if alloc = 0 then none else some ⟨c.address, c.key, UInt64.ofNat alloc⟩
    fanned := UInt64.ofNat allocs.sum }

/-- Send the legs whose settlement client can be had. -/
def dispatchGossipFanout (authorId msgId dest : Hash) (msg : Bytes) (plan : FanoutPlan) : CesServer :=
  plan.legs.foldl (fun t leg =>
    match t.settlementLoad leg.address leg.key with
    | none => t
    | some _ => t.emit (.gossipLeg leg.address leg.key ⟨authorId, t.serverKey, msgId, dest, leg.alloc, msg⟩)) s

end CesServer

/-- Credit the account of exactly that key; a missing account, or one of another key under the same prefix, is
replaced. -/
def Accounts.creditKeyed (a : Accounts) (key : Hash) (amount : UInt64) : Accounts :=
  match a.find (getHashPrefix key) with
  | some acc =>
    if acc.getKey (getHashPrefix key) = key then a.credit (getHashPrefix key) amount
    else a.createAccount (getHashPrefix key) (.ofKey key (asInt64 amount) 0)
  | none => a.createAccount (getHashPrefix key) (.ofKey key (asInt64 amount) 0)

/-- Leg 1: the peer reports what it took, and is credited by at most what was authorised. -/
def ackGossipLeg (s : CesServer) (peerKey : Hash) (authorized : UInt64) (rc : Rc) (paid : UInt64) : CesServer :=
  if rc ≠ .ok ∨ paid = 0 then s
  else { s with accounts := s.accounts.creditKeyed peerKey (Accounts.capAmount (min paid authorized)) }

/-! ### An incoming gossip -/

/-- A destination with sixteen leading zero bytes is a broadcast type, not a key. -/
def gossipDestIsSinkablePubkey (dest : Hash) : Bool := (dest.bytes.take 16).any (· != 0)

namespace CesGossip

variable (req : CesGossip) (s : CesServer)

def senderPfx : HashPrefix := getHashPrefix req.originId
def mid : HashPrefix := getHashPrefix req.msgId

/-- What the sender holds, if the account is really its own. -/
def senderReserve : UInt64 :=
  match s.accounts.find req.senderPfx with
  | none => 0
  | some acc =>
    if acc.getKey req.senderPfx = req.originId ∧ 0 < acc.getBalance then asUInt64 acc.getBalance else 0

def collectable : UInt64 := min req.budget (req.senderReserve s)

/-- The toll. -/
def skim : UInt64 := min (asUInt64 (s.discountedFlatFee (-1) s.cfg.feeTx .tx)) (req.collectable s)

/-- Remember the charge and answer the sender. -/
def answer (addr : SockAddr) (rcode : Rc) (paid : UInt64) : CesServer :=
  { s with gossipSeen := s.gossipSeen.insert req.mid ⟨req.senderPfx, paid⟩ }.emit (.gossipReply addr rcode paid)

def deliverLocal : CesServer :=
  s.emit (.gossipDelivery req.authorId req.originId req.msgId req.dest req.msg)

/-- The accounts after a sink took its gossip. What is addressed to the server itself is burned. -/
def sinkAccounts : Accounts :=
  let delivered := Accounts.capAmount (req.collectable s - req.skim s)
  let debited := s.accounts.debit req.senderPfx (req.collectable s)
  if req.dest ≠ s.serverKey ∧ 0 < delivered then debited.creditKeyed req.dest delivered else debited

def sink (addr : SockAddr) : CesServer :=
  let t := if 0 < req.collectable s then { s with accounts := req.sinkAccounts s } else s
  -- the delivery is posted before the reply
  req.answer (req.deliverLocal t) addr .ok (if 0 < req.collectable s then req.skim s else 0)

def broadcast (shuffle : List GossipCand → List GossipCand) (addr : SockAddr) : CesServer :=
  if req.collectable s = 0 then req.answer s addr .insufficientBalance 0
  else
    let plan := s.computeGossipFanout shuffle (req.collectable s - req.skim s) req.originId
    let charge := req.skim s + plan.fanned
    let t := req.deliverLocal (req.answer (s.debit req.senderPfx charge) addr .ok charge)
    t.dispatchGossipFanout req.authorId req.msgId req.dest req.msg plan

end CesGossip

/-- Whether the gossip ends here. -/
def CesServer.isSink (s : CesServer) (dest : Hash) : Bool :=
  gossipDestIsSinkablePubkey dest && (s.localSinkKeys.lookup (getHashPrefix dest)).any fun e => e.1 == dest

def handleGossip (s : CesServer) (shuffle : List GossipCand → List GossipCand) (req : CesGossip)
    (addr : SockAddr) : CesServer :=
  match s.gossipSeen.lookup req.mid with
  | some seen => s.emit (.gossipReply addr .ok (if seen.sender = req.senderPfx then seen.paid else 0))
  | none => if s.isSink req.dest then req.sink s addr else req.broadcast s shuffle addr

def registerSinkTarget (s : CesServer) (pubkey : Hash) : CesServer :=
  let count := (s.localSinkKeys.lookup (getHashPrefix pubkey)).elim 0 (·.2)
  { s with localSinkKeys := s.localSinkKeys.insert (getHashPrefix pubkey) (pubkey, count + 1) }

/-! ### What a split hands out -/

def totalAlloc (es : List SplitEntry) : Nat := (es.map (·.alloc)).sum

/-- A round moves credits from the remainder to the entries, as long as there is a share for each. -/
theorem total_splitRound (share : Nat) (es : List SplitEntry) (remaining : Nat)
    (henough : share * activeCount es ≤ remaining) :
    totalAlloc (splitRound share es remaining).1 + (splitRound share es remaining).2.1 =
      totalAlloc es + remaining := by
  induction es generalizing remaining with
  | nil => rfl
  | cons e rest ih =>
    cases hactive : e.active with
    | true =>
      have hcount : activeCount (e :: rest) = activeCount rest + 1 := by simp [activeCount, hactive]
      rw [hcount, Nat.mul_add, Nat.mul_one] at henough
      have hgive : min share (e.cap - e.alloc) ≤ share := Nat.min_le_left _ _
      have hrest := ih (remaining - min share (e.cap - e.alloc)) (by omega)
      simp only [splitRound, hactive, if_true, totalAlloc, List.map_cons, List.sum_cons] at hrest ⊢
      omega
    | false =>
      have hcount : activeCount (e :: rest) = activeCount rest := by simp [activeCount, hactive]
      have hrest := ih remaining (hcount ▸ henough)
      simp only [splitRound, hactive, Bool.false_eq_true, if_false, totalAlloc, List.map_cons,
        List.sum_cons] at hrest ⊢
      omega

theorem total_splitLoop (fuel : Nat) (es : List SplitEntry) (remaining : Nat) :
    totalAlloc (splitLoop fuel es remaining).1 + (splitLoop fuel es remaining).2 = totalAlloc es + remaining := by
  induction fuel generalizing es remaining with
  | zero => rfl
  | succ fuel ih =>
    have hround := total_splitRound (remaining / activeCount es) es remaining (Nat.div_mul_le_self _ _)
    rw [splitLoop]
    dsimp only
    split_ifs
    · rfl
    · exact (ih _ _).trans hround
    · exact hround

/-- Nothing is handed out beyond the budget. -/
theorem sum_splitCapped_le (budget : Nat) (caps : List Nat) : (splitCapped budget caps).1.sum ≤ budget := by
  have htotal := total_splitLoop (caps.length + 2) (caps.map fun c => ⟨c, 0, 0 < c⟩) budget
  have hzero : totalAlloc (caps.map fun c => (⟨c, 0, 0 < c⟩ : SplitEntry)) = 0 := by
    simp [totalAlloc, Function.comp_def]
  have hsum : (splitCapped budget caps).1.sum =
      totalAlloc (splitLoop (caps.length + 2) (caps.map fun c => ⟨c, 0, 0 < c⟩) budget).1 := rfl
  omega

theorem CesServer.fanned_le (s : CesServer) (shuffle : List GossipCand → List GossipCand) (budget : UInt64)
    (excludeKey : Hash) : (s.computeGossipFanout shuffle budget excludeKey).fanned.toNat ≤ budget.toNat := by
  unfold computeGossipFanout
  dsimp only
  generalize (if 0 < s.cfg.gossipFanoutDegree ∧ s.cfg.gossipFanoutDegree < (s.gossipCands excludeKey).length then
    (shuffle (s.gossipCands excludeKey)).take s.cfg.gossipFanoutDegree else s.gossipCands excludeKey) = chosen
  have hle := sum_splitCapped_le budget.toNat (chosen.map fun c => c.cap.toNat)
  have hlt := budget.toNat_lt
  rw [UInt64.toNat_ofNat_of_lt' (by simp only [UInt64.size]; omega)]
  exact hle

/-! ### The tally -/

/-- A keyed credit keeps the tally when it lands on a non-negative account of that key, and when what it
replaces held nothing. -/
def Accounts.KeyedClean (a : Accounts) (key : Hash) : Prop :=
  ∀ acc, a.find (getHashPrefix key) = some acc →
    if acc.getKey (getHashPrefix key) = key then 0 ≤ acc.getBalance else acc.getBalance ≤ 0

theorem Accounts.tallied_creditKeyed {a : Accounts} {key : Hash} {amount : UInt64} (h : a.Tallied)
    (hclean : a.KeyedClean key) : (a.creditKeyed key amount).Tallied := by
  unfold creditKeyed
  cases hfind : a.find (getHashPrefix key) with
  | none => exact tallied_createAccount h (le_of_eq (balance_of_none hfind))
  | some acc =>
    have hbal := balance_of_find hfind
    have hcell := hclean acc hfind
    dsimp only
    split_ifs at hcell ⊢ with hkey
    · exact tallied_credit h (.inl (hbal ▸ hcell))
    · exact tallied_createAccount h (hbal ▸ hcell)

theorem tallied_ackGossipLeg {s : CesServer} {peerKey : Hash} {authorized paid : UInt64} {rc : Rc}
    (h : s.accounts.Tallied) (hclean : s.accounts.KeyedClean peerKey) :
    (ackGossipLeg s peerKey authorized rc paid).accounts.Tallied := by
  unfold ackGossipLeg
  split_ifs
  · exact h
  · exact Accounts.tallied_creditKeyed h hclean

namespace CesGossip

variable {req : CesGossip} {s : CesServer}

/-- Whatever is collected, the sender's own account holds it. -/
theorem collectable_covered (hpos : 0 < (req.collectable s).toNat) :
    ∃ acc, s.accounts.find req.senderPfx = some acc ∧ acc.getKey req.senderPfx = req.originId ∧
      ((req.collectable s).toNat : Int) ≤ acc.getBalance := by
  unfold collectable senderReserve at *
  cases hfind : s.accounts.find req.senderPfx with
  | none =>
    rw [hfind, toNat_min_uint64] at hpos
    simp at hpos
  | some acc =>
    rw [hfind, toNat_min_uint64] at hpos
    rw [toNat_min_uint64]
    have hupper := acc.getBalance_upper
    unfold balanceMax at hupper
    dsimp only at hpos ⊢
    split_ifs at hpos ⊢ with hown
    · have hcast := asUInt64_toNat_of_nonneg (le_of_lt hown.2) (by omega)
      exact ⟨acc, rfl, hown.1, by omega⟩
    · simp at hpos

theorem skim_le : (req.skim s).toNat ≤ (req.collectable s).toNat := by
  unfold skim
  rw [toNat_min_uint64]
  exact Nat.min_le_right _ _

/-- The debit of the sender leaves a clean cell clean. -/
theorem keyedClean_debit (hpos : 0 < (req.collectable s).toNat) (hclean : s.accounts.KeyedClean req.dest) :
    (s.accounts.debit req.senderPfx (req.collectable s)).KeyedClean req.dest := by
  obtain ⟨acc, hfind, hkey, hcovered⟩ := collectable_covered hpos
  have hbal := Accounts.balance_of_find hfind
  have hupper := acc.getBalance_upper
  unfold balanceMax at hupper
  have hdebit := Accounts.find_debit hfind (req.collectable s) (getHashPrefix req.dest)
  intro acc' hfind'
  by_cases hsame : getHashPrefix req.dest = req.senderPfx
  · -- the sender pays itself: the cell must be its own, so what is left is not negative
    have hcell := hclean acc (hsame ▸ hfind)
    have hown : acc.getKey (getHashPrefix req.dest) = req.dest := by
      by_contra hne
      rw [if_neg hne] at hcell
      omega
    have hnew : 0 ≤ (s.accounts.debit req.senderPfx (req.collectable s)).balance req.senderPfx :=
      Accounts.balance_debit_nonneg (by omega) (by omega)
    have hleft := Accounts.balance_of_find hfind'
    rw [hsame] at hleft
    have hkey' : acc'.getKey (getHashPrefix req.dest) = acc.getKey (getHashPrefix req.dest) := by
      rw [hdebit, if_pos hsame] at hfind'
      split_ifs at hfind'
      cases hfind'
      rfl
    rw [if_pos (hkey'.trans hown)]
    omega
  · rw [hdebit, if_neg hsame] at hfind'
    exact hclean acc' hfind'

theorem tallied_sinkAccounts (h : s.accounts.Tallied) (hpos : 0 < (req.collectable s).toNat)
    (hclean : s.accounts.KeyedClean req.dest) : (req.sinkAccounts s).Tallied := by
  obtain ⟨acc, hfind, -, hcovered⟩ := collectable_covered hpos
  have hupper := acc.getBalance_upper
  unfold balanceMax at hupper
  have hdebited : (s.accounts.debit req.senderPfx (req.collectable s)).Tallied := by
    refine Accounts.tallied_debit h (by omega) ?_
    rw [Accounts.balance_of_find hfind]
    omega
  unfold sinkAccounts
  dsimp only
  split_ifs
  · exact Accounts.tallied_creditKeyed hdebited (keyedClean_debit hpos hclean)
  · exact hdebited

theorem tallied_sink (h : s.accounts.Tallied) (hclean : s.accounts.KeyedClean req.dest) (addr : SockAddr) :
    (req.sink s addr).accounts.Tallied := by
  unfold sink
  dsimp only
  split_ifs with hpos
  · exact tallied_sinkAccounts h (UInt64.lt_iff_toNat_lt.mp hpos) hclean
  · exact h

theorem dispatchGossipFanout_accounts (t : CesServer) (authorId msgId dest : Hash) (msg : Bytes)
    (plan : FanoutPlan) : (t.dispatchGossipFanout authorId msgId dest msg plan).accounts = t.accounts := by
  unfold CesServer.dispatchGossipFanout
  refine List.foldlRecOn (motive := fun u : CesServer => u.accounts = t.accounts) plan.legs _ rfl
    fun u hu leg _ => ?_
  split
  · exact hu
  · exact hu

/-- A fan-out charges the toll and what it hands out, together no more than was collected. -/
theorem toNat_charge (req : CesGossip) (s : CesServer) (shuffle : List GossipCand → List GossipCand) :
    let fanned := (s.computeGossipFanout shuffle (req.collectable s - req.skim s) req.originId).fanned
    (req.skim s + fanned).toNat = (req.skim s).toNat + fanned.toNat ∧
      (req.skim s).toNat + fanned.toNat ≤ (req.collectable s).toNat := by
  intro fanned
  have hskim : (req.skim s).toNat ≤ (req.collectable s).toNat := skim_le
  have hfanned : fanned.toNat ≤ (req.collectable s - req.skim s).toNat := s.fanned_le ..
  rw [UInt64.toNat_sub_of_le _ _ (UInt64.le_iff_toNat_le.mpr hskim)] at hfanned
  have hlt := (req.collectable s).toNat_lt
  refine ⟨?_, by omega⟩
  rw [UInt64.toNat_add]
  exact Nat.mod_eq_of_lt (by omega)

theorem tallied_broadcast (h : s.accounts.Tallied) (shuffle : List GossipCand → List GossipCand)
    (addr : SockAddr) : (req.broadcast s shuffle addr).accounts.Tallied := by
  unfold broadcast
  split_ifs with hzero
  · exact h
  · have hpos : 0 < (req.collectable s).toNat := by
      refine Nat.pos_of_ne_zero fun hnil => hzero ?_
      exact UInt64.toNat_inj.mp hnil
    obtain ⟨acc, hfind, -, hcovered⟩ := collectable_covered hpos
    have hupper := acc.getBalance_upper
    unfold balanceMax at hupper
    dsimp only
    rw [dispatchGossipFanout_accounts]
    have hcharge := toNat_charge req s shuffle
    refine Accounts.tallied_debit h (by omega) ?_
    rw [Accounts.balance_of_find hfind]
    omega

end CesGossip

/-- The cell a sink gossip is credited to is clean. -/
def GossipClean (s : CesServer) (req : CesGossip) : Prop :=
  s.isSink req.dest = true → s.accounts.KeyedClean req.dest

theorem tallied_handleGossip {s : CesServer} {req : CesGossip} (h : s.accounts.Tallied)
    (hclean : GossipClean s req) (shuffle : List GossipCand → List GossipCand) (addr : SockAddr) :
    (handleGossip s shuffle req addr).accounts.Tallied := by
  unfold handleGossip
  cases s.gossipSeen.lookup req.mid with
  | some seen => exact h
  | none =>
    dsimp only
    split_ifs with hsink
    · exact CesGossip.tallied_sink h (hclean hsink) addr
    · exact CesGossip.tallied_broadcast h shuffle addr

end Ces
