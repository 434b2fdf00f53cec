import Ces.Accounts
import Ces.KeyNames

/-!
# Server state

The part of `CesServer` that runs on the logic strand: the ledger maps, the queue of scheduled runs, the
in-flight counters, the gossip record, and what the logic strand asks of the network (presence, peers,
settlement clients). Everything the server sends or posts is recorded in `outward`, newest first.
-/

namespace Ces

open Ces.Lib

/-! ### Fees -/

inductive FeeKind where
  | tx
  | query
  | accountRent
  | assetRent
  | vmMult
  | computeSlot
  | computeCpu
  | computeRss
  | bucketByteSec
  | net
  deriving DecidableEq

structure CesConfig where
  maxAcc : Nat
  maxAsset : Nat
  maxAlias : Nat
  maxKeyName : Nat
  feeAccount : UInt64
  feeAsset : UInt64
  feeTx : UInt64
  feeQuery : UInt64
  feeVmMult : UInt64
  maxScheduledEntries : Nat
  rpcPort : UInt16
  rpcAutoPort : Bool
  rpcMaxPending : Nat
  rpcMaxRequestBytes : Nat
  l2MaxPending : Nat
  maxPeerReserveDisturbance : UInt64
  gossipFanoutDegree : Nat

/-- The defaults. -/
def CesConfig.stock : CesConfig where
  maxAcc := 16777216
  maxAsset := 16777216
  maxAlias := 16777216
  maxKeyName := 16777216
  feeAccount := 640000
  feeAsset := 2560000
  feeTx := 32000
  feeQuery := 2000
  feeVmMult := 5
  maxScheduledEntries := 1000000
  rpcPort := 0
  rpcAutoPort := false
  rpcMaxPending := 1000
  rpcMaxRequestBytes := 65536
  l2MaxPending := 4096
  maxPeerReserveDisturbance := 100000
  gossipFanoutDegree := 6

/-! ### Scheduled runs -/

/-- `seq` counts enqueues; it is a `uint64_t` in the source and never comes near its end. -/
structure ScheduleKey where
  timeUs : UInt64
  seq : Nat
  deriving DecidableEq

structure ScheduledRun where
  callerPrefix : HashPrefix
  assetId : Hash
  budget : UInt64
  allowance : UInt64
  input : Bytes
  prepaid : Bool
  aliasId : UInt32
  invokeKind : UInt64
  deriving DecidableEq

/-- The queue: no stored key carries a sequence number that was not handed out yet. -/
structure RunQueue where
  runs : FMap ScheduleKey ScheduledRun
  nextSeq : Nat
  fresh : ∀ k ∈ runs, k.seq < nextSeq

namespace RunQueue

def enqueue (q : RunQueue) (timeUs : UInt64) (run : ScheduledRun) : RunQueue where
  runs := q.runs.insert ⟨timeUs, q.nextSeq⟩ run
  nextSeq := q.nextSeq + 1
  fresh := by
    intro k hk
    rcases Finmap.mem_insert.mp hk with rfl | hk
    · exact Nat.lt_succ_self _
    · exact Nat.lt_succ_of_lt (q.fresh k hk)

def erase (q : RunQueue) (key : ScheduleKey) : RunQueue where
  runs := q.runs.erase key
  nextSeq := q.nextSeq
  fresh := fun k hk => q.fresh k (Finmap.mem_erase.mp hk).2

/-- A key that was never handed out is free. -/
theorem lookup_next (q : RunQueue) (timeUs : UInt64) : q.runs.lookup ⟨timeUs, q.nextSeq⟩ = none := by
  rw [Finmap.lookup_eq_none]
  intro hmem
  exact absurd (q.fresh _ hmem) (Nat.lt_irrefl _)

/-- Erasing the run just enqueued gives the queue back. -/
theorem erase_enqueue (q : RunQueue) (timeUs : UInt64) (run : ScheduledRun) :
    ((q.enqueue timeUs run).erase ⟨timeUs, q.nextSeq⟩).runs = q.runs := by
  have h := FMap.restore_lookup_insert q.runs ⟨timeUs, q.nextSeq⟩ run
  rwa [lookup_next] at h

end RunQueue

/-! ### Calls that leave the logic strand -/

abbrev SockAddr := Bytes

structure PendingRpc where
  host : Bytes
  port : UInt16
  fileHeadKey : Hash
  followupProgramKey : Hash
  selfAssetKey : Hash
  callerPrefix : HashPrefix
  programOwnerPrefix : HashPrefix
  followupBudget : UInt64
  followupAllowance : UInt64
  followupInputTag : UInt32
  requestBody : Bytes
  deriving DecidableEq

/-- `handler` is the registry's value for the discriminator. -/
structure PendingL2Call where
  callId : Nat
  handler : Nat
  payerKey : Hash
  value : UInt64
  blob : Bytes
  followupProgramKey : Hash
  followupBudget : UInt64
  followupAllowance : UInt64
  followupTag : UInt32
  deriving DecidableEq

/-- A gossip packet: who wrote it, who pays for this hop and up to how much. -/
structure CesGossip where
  authorId : Hash
  originId : Hash
  msgId : Hash
  dest : Hash
  budget : UInt64
  msg : Bytes
  deriving DecidableEq

inductive Outward where
  | udp (addr : Bytes) (port : UInt16) (data : Bytes)
  | clientPush (addr : SockAddr) (data : Bytes)
  | settlement (server : Bytes) (peerKey dest : Hash) (amount : UInt64)
  | l2Drain (call : PendingL2Call)
  | rpcRequest (pending : PendingRpc)
  | gossipReply (addr : SockAddr) (rcode : Rc) (paid : UInt64)
  | gossipDelivery (authorId originId msgId dest : Hash) (msg : Bytes)
  | gossipLeg (address : Bytes) (peerKey : Hash) (leg : CesGossip)
  deriving DecidableEq

/-- `ourBalanceThere` is our reserve at the peer, `-1` when unknown. -/
structure PeerEntry where
  ckey : Hash
  declaredAddress : Bytes
  reachable : Bool
  ourBalanceThere : Int
  deriving DecidableEq

/-- Who was charged for a gossip, and how much. -/
structure GossipCharge where
  sender : HashPrefix
  paid : UInt64
  deriving DecidableEq

structure CesServer where
  cfg : CesConfig
  feeMult : FeeKind → UInt16
  accounts : Accounts
  assets : FMap Hash Asset
  aliases : FMap UInt32 Alias
  keyNames : KeyNames
  scheduledRuns : RunQueue
  rpcPendingCount : Nat
  l2PendingCount : Nat
  l2NextCallId : Nat
  inHook : Bool
  serverKey : Hash
  /-- The rpc socket is up. -/
  rpcReady : Bool
  /-- Last known address of an authenticated client. -/
  presence : FMap HashPrefix SockAddr
  peerTable : List PeerEntry
  /-- Queue load of the settlement client for an address, when one can be had. -/
  settlementLoad : Bytes → Hash → Option Nat
  l2Registry : FMap UInt64 Nat
  gossipSeen : FMap HashPrefix GossipCharge
  /-- The hosted keys at which a gossip ends, each with its reference count. -/
  localSinkKeys : FMap HashPrefix (Hash × Int)
  /-- Signature check of the crypto library: key, data, signature. -/
  verifySignature : Hash → Bytes → Bytes → Bool
  outward : List Outward

namespace CesServer

/-- A server that has just loaded its stores, with no names registered. -/
def load (cfg : CesConfig) (serverKey : Hash) (accounts : FMap HashPrefix Account)
    (assets : FMap Hash Asset) (aliases : FMap UInt32 Alias) : CesServer where
  cfg := cfg
  feeMult := fun _ => 10000
  accounts := Accounts.load accounts
  assets := assets
  aliases := aliases
  keyNames := ⟨∅, ∅⟩
  scheduledRuns := ⟨∅, 0, fun _ h => absurd h Finmap.notMem_empty⟩
  rpcPendingCount := 0
  l2PendingCount := 0
  l2NextCallId := 0
  inHook := false
  serverKey := serverKey
  rpcReady := false
  presence := ∅
  peerTable := []
  settlementLoad := fun _ _ => none
  l2Registry := ∅
  gossipSeen := ∅
  localSinkKeys := Finmap.singleton (getHashPrefix serverKey) (serverKey, 1)
  verifySignature := fun _ _ _ => false
  outward := []

variable (s : CesServer)

/-- `raw * bp / 10000`, the product in 64 bits. -/
def discountFee (k : FeeKind) (raw : UInt64) : UInt64 :=
  if raw = 0 then 0 else raw * (s.feeMult k).toUInt64 / 10000

def resolveFee (passedFee defaultFee : Int) : Int := if passedFee < 0 then defaultFee else passedFee

def discountedFlatFee (passedFee : Int) (defaultFee : UInt64) (k : FeeKind) : Int :=
  asInt64 (s.discountFee k (asUInt64 (resolveFee passedFee (asInt64 defaultFee))))

/-- Dispatch one outward effect. -/
def emit (e : Outward) : CesServer := { s with outward := e :: s.outward }

/-- `send`: push to a client whose address is known. -/
def send (clientId : HashPrefix) (data : Bytes) : Bool × CesServer :=
  match s.presence.lookup clientId with
  | none => (false, s)
  | some addr => (true, s.emit (.clientPush addr data))

/-- Time zero means the next tick. -/
def tickTime (timeUs : UInt64) : UInt64 := if timeUs = 0 then 1 else timeUs

/-- `scheduleRunUndoable`: the key handed out, unless the queue is full. -/
def scheduleRunUndoable (run : ScheduledRun) (timeUs : UInt64) : Option ScheduleKey × CesServer :=
  if s.cfg.maxScheduledEntries ≤ s.scheduledRuns.runs.size then (none, s)
  else
    (some ⟨tickTime timeUs, s.scheduledRuns.nextSeq⟩,
      { s with scheduledRuns := s.scheduledRuns.enqueue (tickTime timeUs) run })

def scheduleRun (run : ScheduledRun) (timeUs : UInt64) : Rc × CesServer :=
  match s.scheduleRunUndoable run timeUs with
  | (none, s') => (.queueFull, s')
  | (some _, s') => (.ok, s')

/-- A discounted fee is a small non-negative number whatever the multiplier. -/
theorem discountFee_lt (k : FeeKind) (raw : UInt64) : (s.discountFee k raw).toNat < 2 ^ 51 := by
  unfold discountFee
  split_ifs
  · decide
  · have hprod := (raw * (s.feeMult k).toUInt64).toNat_lt
    rw [UInt64.toNat_div]
    change (raw * (s.feeMult k).toUInt64).toNat / 10000 < 2 ^ 51
    omega

theorem discountedFlatFee_eq (passedFee : Int) (defaultFee : UInt64) (k : FeeKind) :
    s.discountedFlatFee passedFee defaultFee k =
      (s.discountFee k (asUInt64 (resolveFee passedFee (asInt64 defaultFee)))).toNat :=
  asInt64_of_lt (lt_trans (s.discountFee_lt k _) (by norm_num))

end CesServer

end Ces
