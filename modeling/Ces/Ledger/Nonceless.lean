import Ces.Lib.RotatingSet
import Ces.Ledger.Runs

/-!
# Requests without a nonce

Open transfers and runs may be signed with `CES_NONCELESS` instead of a nonce. Such a request is accepted while its
timestamp is near the clock, and its signature is looked up in a table of two generations; it is recorded there once
its ledger event is committed.

A request is accepted up to one window after its timestamp, and a signature is kept for one to two windows after it
is recorded. A request may be up to five minutes ahead of the clock, though, so a signature can be forgotten while
its request is still fresh. `commits_le_one` says that this, and a clock that moves on inside one handler, are the
only ways to commit twice.
-/

namespace Ces

open Ces.Lib

def dedupWindowUs : UInt64 := 3600000000
def dedupFutureDriftUs : UInt64 := 300000000
def invokeHookSettleIn : UInt64 := 34

/-- The signatures seen, by their first eight bytes. -/
abbrev DedupTable := RotatingSet UInt64

namespace DedupTable

def rotateDedupLocked (d : DedupTable) (epochNow : UInt64) : DedupTable :=
  RotatingSet.rotate dedupWindowUs.toNat epochNow.toNat d

def isDuplicateDedup (d : DedupTable) (sigHash epochNow : UInt64) : Bool × DedupTable :=
  let d := rotateDedupLocked d epochNow
  (RotatingSet.contains d sigHash, d)

def recordDedup (d : DedupTable) (sigHash epochNow : UInt64) : DedupTable :=
  RotatingSet.insert (rotateDedupLocked d epochNow) sigHash

def checkAndInsertDedup (d : DedupTable) (sigHash epochNow : UInt64) : Bool × DedupTable :=
  let d := rotateDedupLocked d epochNow
  if RotatingSet.contains d sigHash then (false, d) else (true, RotatingSet.insert d sigHash)

end DedupTable

/-! ### Requests -/

inductive NoncelessBody where
  | openTransfer (destKey : Hash) (amount : UInt64)
  | run (target : RunTarget) (budget allowance : UInt64) (input : Bytes)
  deriving DecidableEq

/-- A request whose `reqNonce` is `CES_NONCELESS`, with the bytes that were signed. -/
structure NoncelessRequest where
  originKey : Hash
  serverId : HashPrefix
  time : UInt64
  body : NoncelessBody
  message : Bytes
  sig : Bytes
  deriving DecidableEq

/-- The clock as one handler reads it: for the freshness check, for the lookup, for the record. `stamp` is the time
of the receipt, in seconds. -/
structure Readings where
  fresh : UInt64
  lookup : UInt64
  record : UInt64
  stamp : UInt32

/-- The server and its table of signatures. -/
structure Node where
  server : CesServer
  dedup : DedupTable

inductive NoncelessResult where
  | proceed (nonce : UInt32)
  | stale
  | duplicate

namespace NoncelessRequest

variable (exec : CesServer → VmRunRequest → VmProgram) (q : NoncelessRequest) (c : Readings) (n : Node)

/-- The first eight bytes of the signature, in native order. -/
def sigHash : UInt64 := UInt64.ofNat (beNat (q.sig.take 8).reverse)

def origin : HashPrefix := getHashPrefix q.originKey

/-- Near enough to the clock, in 64-bit arithmetic. -/
def isFresh (now : UInt64) : Bool :=
    !(decide (now + dedupFutureDriftUs < q.time) || decide (q.time + dedupWindowUs < now))

/-- `resolveNonceless`: the server assigns the next nonce. -/
def resolveNonceless : NoncelessResult × DedupTable :=
  if !q.isFresh c.fresh then (.stale, n.dedup)
  else
    match DedupTable.isDuplicateDedup n.dedup q.sigHash c.lookup with
    | (true, d) => (.duplicate, d)
    | (false, d) => (.proceed (n.server.accounts.nonce q.origin + 1), d)

def transferRequest (destKey : Hash) (amount : UInt64) (nonce : UInt32) : TransferRequest where
  originKey := q.originKey
  destKey := destKey
  amount := amount
  mode := .openDest
  paymentDays := 0
  providedNonce := nonce
  txFee := -1
  rentFee := -1
  errFee := -1
  time := c.stamp

def runRequest (target : RunTarget) (budget allowance : UInt64) (input : Bytes) (nonce : UInt32) : RunRequest where
  originKey := q.originKey
  target := target
  budget := budget
  allowance := allowance
  input := input
  time := q.time
  reqNonce := Accounts.nonceless
  effectiveNonce := nonce

/-- The ledger event of the request: whether it was committed, and the server after it. A run commits when its gas is
debited, whatever becomes of the program. -/
def commit (nonce : UInt32) (s : CesServer) : Bool × CesServer :=
  match q.body with
  | .openTransfer destKey amount =>
    let moved := transfer exec s (q.transferRequest c destKey amount nonce)
    if moved.rcode = .ok then
      (true,
        if s.hookFreeGrant ≤ amount then
          (fireAccountHook exec moved.server destKey false invokeHookSettleIn q.originKey amount).2
        else moved.server)
    else (false, moved.server)
  | .run target budget allowance input =>
    let r := q.runRequest target budget allowance input nonce
    (decide ((s.accounts.validateSpend q.origin 0 budget nonce
        (CesServer.resolveFee (-1) (asInt64 s.cfg.feeQuery))).1 = .ok),
      (handleRun exec c.record r s).2)

/-- What the handler makes of the verdict: commit, and record the signature of what was committed. -/
def settle : NoncelessResult × DedupTable → Bool × Node
  | (.stale, d) => (false, ⟨n.server, d⟩)
  | (.duplicate, d) => (false, ⟨n.server, d⟩)
  | (.proceed nonce, d) =>
    let r := q.commit exec c nonce n.server
    (r.1, ⟨r.2, if r.1 then DedupTable.recordDedup d q.sigHash c.record else d⟩)

/-- The handlers of `CES_OPEN_TRANSFER`, `CES_RUN_ASSET` and `CES_RUN_ALIAS`. -/
def handle : Bool × Node := q.settle exec c n (q.resolveNonceless c n)

/-- `dispatchSigned`: drop what is not signed, not for this server, or of an unknown origin. -/
def dispatchSigned (addr : SockAddr) : Bool × Node :=
  if !n.server.verifySignature q.originKey q.message q.sig then (false, n)
  else if q.serverId ≠ getHashPrefix n.server.serverKey then (false, n)
  else
    let n := { n with server.presence := n.server.presence.insert q.origin addr }
    match n.server.accounts.find q.origin with
    | none => (false, n)
    | some acc => if acc.getKey q.origin ≠ q.originKey then (false, n) else q.handle exec c n

end NoncelessRequest

/-! ### Runs of the server -/

/-- What can happen to the table and the ledger. Other users of the table look up, record, or do both. -/
inductive NodeEvent where
  | request (q : NoncelessRequest) (addr : SockAddr) (c : Readings)
  | isDuplicate (sigHash now : UInt64)
  | record (sigHash now : UInt64)
  | checkAndInsert (sigHash now : UInt64)
  | ledger (change : CesServer → CesServer)

namespace NodeEvent

variable (exec : CesServer → VmRunRequest → VmProgram)

/-- The clock readings, in the order they are taken. -/
def readings : NodeEvent → List UInt64
  | request _ _ c => [c.fresh, c.lookup, c.record]
  | isDuplicate _ now | record _ now | checkAndInsert _ now => [now]
  | ledger _ => []

def step (n : Node) : NodeEvent → Node
  | request q addr c => (q.dispatchSigned exec c n addr).2
  | isDuplicate sigHash now => { n with dedup := (DedupTable.isDuplicateDedup n.dedup sigHash now).2 }
  | record sigHash now => { n with dedup := DedupTable.recordDedup n.dedup sigHash now }
  | checkAndInsert sigHash now => { n with dedup := (DedupTable.checkAndInsertDedup n.dedup sigHash now).2 }
  | ledger change => { n with server := change n.server }

/-- Whether the event commits the request `q`. -/
def commitsIn (q : NoncelessRequest) (n : Node) : NodeEvent → Bool
  | request q' addr c => decide (q' = q) && (q.dispatchSigned exec c n addr).1
  | _ => false

end NodeEvent

section runs

variable (exec : CesServer → VmRunRequest → VmProgram) (q : NoncelessRequest)

/-- How often `q` is committed. -/
def commits : Node → List NodeEvent → Nat
  | _, [] => 0
  | n, e :: es => (if e.commitsIn exec q n then 1 else 0) + commits (e.step exec n) es

/-- The lookup is made while the request is fresh, if its freshness check passed; and the generation in which the
request would be recorded was opened less than a window before its timestamp. -/
def NoncelessRequest.Timely (d : DedupTable) (c : Readings) : Prop :=
  (q.isFresh c.fresh = true → c.lookup.toNat ≤ q.time.toNat + dedupWindowUs.toNat) ∧
    q.time.toNat < (DedupTable.rotateDedupLocked (DedupTable.rotateDedupLocked d c.lookup) c.record).base +
      dedupWindowUs.toNat

/-- When the event is a reception of `q`, it is timely. -/
def NodeEvent.TimelyFor (d : DedupTable) : NodeEvent → Prop
  | .request q' _ c => q' = q → q.Timely d c
  | _ => True

/-- Every reception of `q` is timely. -/
def TimelyRun : Node → List NodeEvent → Prop
  | _, [] => True
  | n, e :: es => e.TimelyFor q n.dedup ∧ TimelyRun (e.step exec n) es

end runs

/-! ### At most once -/

namespace NoncelessRequest

variable {exec : CesServer → VmRunRequest → VmProgram} {q : NoncelessRequest} {c : Readings} {n : Node}

/-- A signature in the table is found as long as its request is accepted. -/
def Kept (q : NoncelessRequest) (d : DedupTable) : Prop :=
  RotatingSet.Covers dedupWindowUs.toNat d q.sigHash (q.time.toNat + dedupWindowUs.toNat)

theorem resolve_stale (h : q.isFresh c.fresh = false) : q.resolveNonceless c n = (.stale, n.dedup) := by
  unfold resolveNonceless
  rw [h]
  simp only [Bool.not_false, if_true]

theorem resolve_duplicate (h : q.isFresh c.fresh = true) {d : DedupTable}
    (hd : DedupTable.isDuplicateDedup n.dedup q.sigHash c.lookup = (true, d)) :
    q.resolveNonceless c n = (.duplicate, d) := by
  unfold resolveNonceless
  rw [h, hd]
  simp only [Bool.not_true, Bool.false_eq_true, if_false]

theorem resolve_proceed (h : q.isFresh c.fresh = true) {d : DedupTable}
    (hd : DedupTable.isDuplicateDedup n.dedup q.sigHash c.lookup = (false, d)) :
    q.resolveNonceless c n = (.proceed (n.server.accounts.nonce q.origin + 1), d) := by
  unfold resolveNonceless
  rw [h, hd]
  simp only [Bool.not_true, Bool.false_eq_true, if_false]

/-- What the handler does to the table, and when it commits. -/
theorem handle_cases (exec : CesServer → VmRunRequest → VmProgram) (q : NoncelessRequest) (c : Readings) (n : Node) :
    (∃ m : Node, q.handle exec c n = (false, m) ∧
      (m.dedup = n.dedup ∨ m.dedup = (DedupTable.isDuplicateDedup n.dedup q.sigHash c.lookup).2)) ∨
    ∃ s, q.isFresh c.fresh = true ∧ (DedupTable.isDuplicateDedup n.dedup q.sigHash c.lookup).1 = false ∧
      q.handle exec c n = (true, ⟨s, DedupTable.recordDedup
        (DedupTable.isDuplicateDedup n.dedup q.sigHash c.lookup).2 q.sigHash c.record⟩) := by
  have hhandle : q.handle exec c n = q.settle exec c n (q.resolveNonceless c n) := rfl
  rw [hhandle]
  cases hfresh : q.isFresh c.fresh with
  | false =>
    rw [resolve_stale hfresh]
    exact .inl ⟨n, rfl, .inl rfl⟩
  | true =>
    generalize hd : DedupTable.isDuplicateDedup n.dedup q.sigHash c.lookup = r
    obtain ⟨seen, d⟩ := r
    cases seen with
    | true =>
      rw [resolve_duplicate hfresh hd]
      exact .inl ⟨⟨n.server, d⟩, rfl, .inr rfl⟩
    | false =>
      rw [resolve_proceed hfresh hd]
      generalize n.server.accounts.nonce q.origin + 1 = nonce
      cases hcommit : (q.commit exec c nonce n.server).1 with
      | false =>
        refine .inl ⟨⟨(q.commit exec c nonce n.server).2, d⟩, ?_, .inr rfl⟩
        simp only [settle, hcommit, Bool.false_eq_true, if_false]
      | true =>
        refine .inr ⟨(q.commit exec c nonce n.server).2, rfl, rfl, ?_⟩
        simp only [settle, hcommit, if_true]

theorem dispatchSigned_cases (exec : CesServer → VmRunRequest → VmProgram) (q : NoncelessRequest) (c : Readings)
    (n : Node) (addr : SockAddr) :
    (∃ m : Node, q.dispatchSigned exec c n addr = (false, m) ∧ m.dedup = n.dedup) ∨
    ∃ m : Node, m.dedup = n.dedup ∧ q.dispatchSigned exec c n addr = q.handle exec c m := by
  unfold dispatchSigned
  split
  · exact .inl ⟨n, by simp, by simp⟩
  split
  · exact .inl ⟨n, by simp, by simp⟩
  generalize hm : { n with server.presence := n.server.presence.insert q.origin addr } = m
  have hsame : m.dedup = n.dedup := by rw [← hm]
  dsimp only
  cases m.server.accounts.find q.origin with
  | none => exact .inl ⟨m, by simp, hsame⟩
  | some acc =>
    dsimp only
    split
    · exact .inl ⟨m, by simp, hsame⟩
    · exact .inr ⟨m, hsame, by simp⟩

theorem Kept.rotate {d : DedupTable} {now : UInt64} (hk : q.Kept d) (hbase : d.base ≤ now.toNat) :
    q.Kept (DedupTable.rotateDedupLocked d now) :=
  RotatingSet.rotate_covers hbase hk

theorem Kept.record {d : DedupTable} {now : UInt64} (hk : q.Kept d) (hbase : d.base ≤ now.toNat) (sigHash : UInt64) :
    q.Kept (DedupTable.recordDedup d sigHash now) :=
  RotatingSet.insert_covers (hk.rotate hbase) sigHash

end NoncelessRequest

/-! ### What an event does to the table -/

namespace NodeEvent

open NoncelessRequest

variable {exec : CesServer → VmRunRequest → VmProgram} {q : NoncelessRequest} {n : Node}

/-- The table is left alone, rotated, or rotated and added to; a request rotates it once for the lookup and once for
the record. -/
theorem step_dedup (exec : CesServer → VmRunRequest → VmProgram) (n : Node) (e : NodeEvent)
    (horder : e.readings.Pairwise (· ≤ ·)) :
    (e.step exec n).dedup = n.dedup ∨
    ∃ t ∈ e.readings, (e.step exec n).dedup = DedupTable.rotateDedupLocked n.dedup t ∨
      ∃ k, (e.step exec n).dedup = DedupTable.recordDedup n.dedup k t ∨
        ∃ u ∈ e.readings, t ≤ u ∧
          (e.step exec n).dedup = DedupTable.recordDedup (DedupTable.rotateDedupLocked n.dedup t) k u := by
  cases e with
  | request q addr c =>
    have hle : c.lookup ≤ c.record := by
      simp only [readings, List.pairwise_cons, List.mem_cons] at horder
      exact horder.2.1 _ (.inl rfl)
    rcases q.dispatchSigned_cases exec c n addr with ⟨m, heq, hsame⟩ | ⟨m, hsame, heq⟩
    · exact .inl (by rw [step, heq]; exact hsame)
    · rcases q.handle_cases exec c m with ⟨m', heq', hdedup⟩ | ⟨s, -, -, heq'⟩
      · rw [step, heq, heq']
        rcases hdedup with hstay | hrotated
        · exact .inl (hstay.trans hsame)
        · refine .inr ⟨c.lookup, by simp [readings], .inl ?_⟩
          rw [hrotated, hsame]
          rfl
      · refine .inr ⟨c.lookup, by simp [readings], .inr ⟨q.sigHash, .inr ⟨c.record, by simp [readings], hle, ?_⟩⟩⟩
        rw [step, heq, heq', hsame]
        rfl
  | isDuplicate k now => exact .inr ⟨now, by simp [readings], .inl rfl⟩
  | record k now => exact .inr ⟨now, by simp [readings], .inr ⟨k, .inl rfl⟩⟩
  | checkAndInsert k now =>
    refine .inr ⟨now, by simp [readings], ?_⟩
    simp only [step, DedupTable.checkAndInsertDedup]
    cases RotatingSet.contains (DedupTable.rotateDedupLocked n.dedup now) k with
    | true => exact .inl (by simp)
    | false => exact .inr ⟨k, .inl (by simp [DedupTable.recordDedup])⟩
  | ledger change => exact .inl rfl

/-- The generation was opened no later than any reading still to come. -/
theorem step_base_le {e : NodeEvent} {rest : List UInt64} (horder : (e.readings ++ rest).Pairwise (· ≤ ·))
    (hbase : ∀ t ∈ e.readings ++ rest, n.dedup.base ≤ t.toNat) {v : UInt64} (hv : v ∈ rest) :
    (e.step exec n).dedup.base ≤ v.toNat := by
  obtain ⟨hinner, -, hcross⟩ := List.pairwise_append.mp horder
  have hearly : ∀ t ∈ e.readings, n.dedup.base ≤ t.toNat := fun t ht => hbase t (List.mem_append_left _ ht)
  have hlate : ∀ t ∈ e.readings, t.toNat ≤ v.toNat := fun t ht => UInt64.le_iff_toNat_le.mp (hcross t ht v hv)
  have hrotated : ∀ t ∈ e.readings, (DedupTable.rotateDedupLocked n.dedup t).base ≤ t.toNat :=
    fun t ht => RotatingSet.rotate_base_le (hearly t ht)
  rcases step_dedup exec n e hinner with hstay | ⟨t, ht, hrot | ⟨k, hrec | ⟨u, hu, hle, hboth⟩⟩⟩
  · rw [hstay]
    exact hbase v (List.mem_append_right _ hv)
  · rw [hrot]
    exact le_trans (hrotated t ht) (hlate t ht)
  · rw [hrec]
    exact le_trans (hrotated t ht) (hlate t ht)
  · rw [hboth]
    have hagain : (DedupTable.rotateDedupLocked n.dedup t).base ≤ u.toNat :=
      le_trans (hrotated t ht) (UInt64.le_iff_toNat_le.mp hle)
    exact le_trans (RotatingSet.rotate_base_le hagain) (hlate u hu)

theorem step_kept {e : NodeEvent} (horder : e.readings.Pairwise (· ≤ ·))
    (hbase : ∀ t ∈ e.readings, n.dedup.base ≤ t.toNat) (hk : q.Kept n.dedup) : q.Kept (e.step exec n).dedup := by
  rcases step_dedup exec n e horder with hstay | ⟨t, ht, hrot | ⟨k, hrec | ⟨u, hu, hle, hboth⟩⟩⟩
  · rw [hstay]
    exact hk
  · rw [hrot]
    exact hk.rotate (hbase t ht)
  · rw [hrec]
    exact hk.record (hbase t ht) k
  · rw [hboth]
    have hagain : (DedupTable.rotateDedupLocked n.dedup t).base ≤ u.toNat :=
      le_trans (RotatingSet.rotate_base_le (hbase t ht)) (UInt64.le_iff_toNat_le.mp hle)
    exact (hk.rotate (hbase t ht)).record hagain k

/-- A commit of a timely reception: the signature was not kept before, and is kept after. -/
theorem commitsIn_timely {e : NodeEvent} (hbase : ∀ t ∈ e.readings, n.dedup.base ≤ t.toNat)
    (htimely : e.TimelyFor q n.dedup) (hcommit : e.commitsIn exec q n = true) :
    ¬ q.Kept n.dedup ∧ q.Kept (e.step exec n).dedup := by
  cases e with
  | isDuplicate k now => exact absurd hcommit (by simp [commitsIn])
  | record k now => exact absurd hcommit (by simp [commitsIn])
  | checkAndInsert k now => exact absurd hcommit (by simp [commitsIn])
  | ledger change => exact absurd hcommit (by simp [commitsIn])
  | request q' addr c =>
    obtain ⟨hq, hdone⟩ : q' = q ∧ (q.dispatchSigned exec c n addr).1 = true := by
      simpa [commitsIn] using hcommit
    subst hq
    obtain ⟨hlookup, hopened⟩ := htimely rfl
    rcases q'.dispatchSigned_cases exec c n addr with ⟨m, heq, -⟩ | ⟨m, hsame, heq⟩
    · rw [heq] at hdone
      exact absurd hdone (by simp)
    rcases q'.handle_cases exec c m with ⟨m', heq', -⟩ | ⟨s, hfresh, hnew, heq'⟩
    · rw [heq, heq'] at hdone
      exact absurd hdone (by simp)
    rw [hsame] at hnew heq'
    refine ⟨fun hk => ?_, ?_⟩
    · have hfound : RotatingSet.contains (DedupTable.rotateDedupLocked n.dedup c.lookup) q'.sigHash = true :=
        RotatingSet.contains_rotate (hbase _ (by simp [readings])) hk (hlookup hfresh)
      have hlost : RotatingSet.contains (DedupTable.rotateDedupLocked n.dedup c.lookup) q'.sigHash = false := hnew
      rw [hfound] at hlost
      exact absurd hlost (by simp)
    · rw [step, heq, heq']
      refine RotatingSet.covers_insert ?_
      change q'.time.toNat + dedupWindowUs.toNat <
        (DedupTable.rotateDedupLocked (DedupTable.rotateDedupLocked n.dedup c.lookup) c.record).base +
          2 * dedupWindowUs.toNat
      omega

end NodeEvent

section atMostOnce

variable (exec : CesServer → VmRunRequest → VmProgram) (q : NoncelessRequest)

/-- The run lemma: once the signature is kept, no further commit; before, at most one. -/
theorem commits_bound (events : List NodeEvent) (n : Node)
    (horder : (events.flatMap NodeEvent.readings).Pairwise (· ≤ ·))
    (hbase : ∀ t ∈ events.flatMap NodeEvent.readings, n.dedup.base ≤ t.toNat) (htimely : TimelyRun exec q n events) :
    commits exec q n events ≤ 1 ∧ (q.Kept n.dedup → commits exec q n events = 0) := by
  induction events generalizing n with
  | nil => exact ⟨Nat.zero_le 1, fun _ => rfl⟩
  | cons e es ih =>
    rw [List.flatMap_cons] at horder hbase
    obtain ⟨hfirst, hrest⟩ := htimely
    obtain ⟨hinner, hlater, -⟩ := List.pairwise_append.mp horder
    have hearly : ∀ t ∈ e.readings, n.dedup.base ≤ t.toNat := fun t ht => hbase t (List.mem_append_left _ ht)
    obtain ⟨hle, hzero⟩ := ih (e.step exec n) hlater (fun t ht => NodeEvent.step_base_le horder hbase ht) hrest
    simp only [commits]
    cases hcommit : e.commitsIn exec q n with
    | false =>
      simp only [Bool.false_eq_true, if_false, Nat.zero_add]
      exact ⟨hle, fun hk => hzero (NodeEvent.step_kept hinner hearly hk)⟩
    | true =>
      obtain ⟨hnew, hkept⟩ := NodeEvent.commitsIn_timely hearly hfirst hcommit
      rw [if_pos rfl, hzero hkept]
      exact ⟨le_refl 1, fun hk => absurd hk hnew⟩

/-- From a fresh process on, over every non-decreasing clock: a request whose receptions are timely is committed at
most once. -/
theorem commits_le_one (events : List NodeEvent) (s : CesServer)
    (horder : (events.flatMap NodeEvent.readings).Pairwise (· ≤ ·))
    (htimely : TimelyRun exec q ⟨s, .empty⟩ events) : commits exec q ⟨s, .empty⟩ events ≤ 1 :=
  (commits_bound exec q events ⟨s, .empty⟩ horder (fun _ _ => Nat.zero_le _) htimely).1

end atMostOnce

def senderKey : Hash := ByteArr.ofList 32 (List.replicate 32 11)
def receiverKey : Hash := ByteArr.ofList 32 (List.replicate 32 12)

/-- Two accounts with a million each; every signature verifies, and no program is installed. -/
def twoAccountServer : CesServer :=
  { CesServer.load .stock (ByteArr.zero 32)
      (((∅ : FMap HashPrefix Account).insert (getHashPrefix senderKey) (.ofKey senderKey 1000000 0)).insert
        (getHashPrefix receiverKey) (.ofKey receiverKey 1000000 0)) ∅ ∅ with
    verifySignature := fun _ _ _ => true }

def haltExec (_ : CesServer) (_ : VmRunRequest) : VmProgram := .done ⟨.ok, 0, []⟩

/-- Ten credits, signed for the given time. -/
def tenCredits (time : UInt64) : NoncelessRequest where
  originKey := senderKey
  serverId := getHashPrefix (ByteArr.zero 32)
  time := time
  body := .openTransfer receiverKey 10
  message := []
  sig := [1]

def receivedAt (q : NoncelessRequest) (now : UInt64) : NodeEvent := .request q [] ⟨now, now, now, 0⟩

/-- A request of the past, received twice. -/
theorem commits_le_one_resent :
    commits haltExec (tenCredits 5) ⟨twoAccountServer, .empty⟩
      [receivedAt (tenCredits 5) 10, receivedAt (tenCredits 5) 20] ≤ 1 := by
  refine commits_le_one haltExec (tenCredits 5) _ twoAccountServer ?_ ⟨fun _ => ?_, fun _ => ?_, trivial⟩
  · decide
  · exact ⟨by decide, by decide +kernel⟩
  · exact ⟨by decide, by decide +kernel⟩

/-- The request is five minutes ahead when it is committed, at the end of a generation. Both generations have gone
when it arrives for the third time, and it is fresh for five more minutes: it pays again. -/
theorem future_request_commits_twice :
    let q := tenCredits 3900000009
    let events := [.isDuplicate 0 10, receivedAt q 3600000009, receivedAt q 3600000010, receivedAt q 7200000010]
    (events.flatMap NodeEvent.readings).Pairwise (· ≤ ·) ∧
      commits haltExec q ⟨twoAccountServer, .empty⟩ events = 2 ∧
      (events.foldl (NodeEvent.step haltExec) ⟨twoAccountServer, .empty⟩).server.accounts.balance
        (getHashPrefix receiverKey) = 1000020 := by
  decide +kernel

end Ces
