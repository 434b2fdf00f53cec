import Ces.Ledger.Mint
import Ces.Server
import Mathlib.Data.List.DropRight

/-!
# The peer table

`upsertPeer` is called by `incomingProveWork`, with the credit of the proof, and by the operator and the prober,
with credit zero; it tells them apart by the credit. A credit of zero is not held to the rules for inbound work: it
may move a verified address and is admitted to a full table. `incomingProveWork` passes zero when the reward is
exactly the price of the account slot it pays for.

`griefPeer` adds up a score in 32 bits and clears a ban that is over; `banPeer` leaves such a ban as it is.
-/

namespace Ces

open Ces.Lib

/-- An entry of `peerTable_`: the fields the ledger reads, and the bookkeeping of the peer maintenance. `resolvedIP`
is the text of the address, absent while it is unspecified. -/
structure PeerRecord extends PeerEntry where
  resolvedIP : Option Bytes := none
  totalInboundPoW : UInt64 := 0
  lastInboundTime : UInt64 := 0
  lastCheckTime : UInt64 := 0
  verified : Bool := false
  outbound : Bool := false
  grief : UInt32 := 0
  bannedUntil : UInt64 := 0
  lastDecayTime : UInt64 := 0
  deriving DecidableEq

/-- `host:port`, split at the last colon; brackets around the host are dropped. -/
def splitHostPort (a : Bytes) : Option (Bytes × Bytes) :=
  let port := a.rtakeWhile (· ≠ 58)
  let host := (a.rdropWhile (· ≠ 58)).dropLast
  let bare := if 2 ≤ host.length ∧ host.head? = some 91 ∧ host.getLast? = some 93 then host.tail.dropLast else host
  if host = [] ∨ port = [] ∨ bare = [] then none else some (bare, port)

namespace PeerRecord

variable (p : PeerRecord)

def ActiveBan (now : UInt64) : Prop := p.bannedUntil ≠ 0 ∧ now < p.bannedUntil

instance (now : UInt64) : Decidable (p.ActiveBan now) := inferInstanceAs (Decidable (_ ∧ _))

/-- The address is another one, and not the resolved form of the declared one. -/
def AddrChanged (address : Bytes) : Prop :=
  p.declaredAddress ≠ address ∧
    ¬∃ ip ∈ p.resolvedIP, ∃ new ∈ splitHostPort address, ∃ old ∈ splitHostPort p.declaredAddress,
      new.1 = ip ∧ new.2 = old.2

instance (address : Bytes) : Decidable (p.AddrChanged address) := inferInstanceAs (Decidable (_ ∧ ¬_))

/-- What `upsertPeer` makes of an entry without an active ban. -/
def claim (now : UInt64) (address : Bytes) (inboundCredit : UInt64) : PeerRecord :=
  let mayWrite := address ≠ [] ∧ (inboundCredit = 0 ∨ p.verified = false)
  let moved :=
    if mayWrite ∧ p.AddrChanged address then
      { p with declaredAddress := address, verified := false, reachable := false, lastCheckTime := 0 }
    else p
  { moved with
    totalInboundPoW := moved.totalInboundPoW + inboundCredit
    lastInboundTime := if 0 < inboundCredit then now else moved.lastInboundTime }

/-- What `griefPeer` makes of an entry. -/
def grieve (threshold : UInt32) (banSecs now : UInt64) (amount : UInt32) : PeerRecord :=
  let cleared := if p.bannedUntil ≠ 0 ∧ p.bannedUntil ≤ now then { p with grief := 0, bannedUntil := 0 } else p
  let raised := { cleared with grief := cleared.grief + amount, lastDecayTime := now }
  if threshold ≠ 0 ∧ threshold ≤ raised.grief ∧ raised.bannedUntil = 0 then { raised with bannedUntil := now + banSecs }
  else raised

def ban (banSecs now : UInt64) : PeerRecord :=
  if p.bannedUntil = 0 then { p with bannedUntil := now + banSecs } else p

/-- A new entry. -/
def admitted (now : UInt64) (ckey : Hash) (address : Bytes) (inboundCredit : UInt64) : PeerRecord :=
  { ckey := ckey, declaredAddress := address, reachable := false, ourBalanceThere := -1,
    totalInboundPoW := inboundCredit, lastInboundTime := if 0 < inboundCredit then now else 0 }

end PeerRecord

abbrev PeerTable := List PeerRecord

namespace PeerTable

/-- The entry of a key. -/
def entry (table : PeerTable) (ckey : Hash) : Option PeerRecord := table.find? (·.ckey = ckey)

/-- Change the first entry of a key. -/
def change (ckey : Hash) (f : PeerRecord → PeerRecord) : PeerTable → PeerTable
  | [] => []
  | p :: rest => if p.ckey = ckey then f p :: rest else p :: change ckey f rest

/-- The weaker of the victim so far and an entry that may be evicted: neither outbound nor under an active ban. -/
def weaker (now : UInt64) (best : Option PeerRecord) (p : PeerRecord) : Option PeerRecord :=
  if p.outbound = true ∨ p.ActiveBan now then best
  else if best.all (p.totalInboundPoW < ·.totalInboundPoW) then some p
  else best

/-- The entry to evict, the one with the least inbound work. -/
def victim (now : UInt64) (table : PeerTable) : Option PeerRecord := table.foldl (weaker now) none

def upsertPeer (maxInmemPeers : Nat) (now : UInt64) (table : PeerTable) (ckey : Hash) (address : Bytes)
    (inboundCredit : UInt64) : PeerTable :=
  match table.entry ckey with
  | some p => if p.ActiveBan now then table else table.change ckey (·.claim now address inboundCredit)
  | none =>
    if 0 < inboundCredit ∧ maxInmemPeers ≤ table.length then
      match table.victim now with
      | none => table
      | some p => table.erase p ++ [.admitted now ckey address inboundCredit]
    else table ++ [.admitted now ckey address inboundCredit]

/-- The score after it is the verdict. -/
def griefPeer (threshold : UInt32) (banSecs now : UInt64) (table : PeerTable) (ckey : Hash) (amount : UInt32) :
    UInt32 × PeerTable :=
  let after := table.change ckey (·.grieve threshold banSecs now (if amount = 0 then 1 else amount))
  (((after.entry ckey).map (·.grief)).getD 0, after)

def banPeer (banSecs now : UInt64) (table : PeerTable) (ckey : Hash) : PeerTable :=
  table.change ckey (·.ban banSecs now)

end PeerTable

/-- The credit of a proof of work, when it is accepted. -/
def Accounts.powCredit (a : Accounts) (maxAcc : Nat) (feeAccount : UInt64) (ckey : Hash) (difficulty : Nat) :
    Option UInt64 :=
  if difficulty < 1 then none
  else
    match a.find (getHashPrefix ckey) with
    | none =>
      if maxAcc ≤ a.store.size ∨ powReward difficulty < feeAccount then none
      else some (capAmount (powReward difficulty - feeAccount))
    | some acc => if acc.getBalance < 0 then none else some (powReward difficulty)

/-- The credit is what the ledger pays, to a new account or to the one there is. -/
theorem Accounts.proveWork_powCredit (a : Accounts) (maxAcc : Nat) (feeAccount : UInt64) (ckey : Hash)
    (difficulty : Nat) :
    (a.powCredit maxAcc feeAccount ckey difficulty = none → a.proveWork maxAcc feeAccount ckey difficulty = a) ∧
      ∀ credit, a.powCredit maxAcc feeAccount ckey difficulty = some credit →
        a.proveWork maxAcc feeAccount ckey difficulty =
          if a.find (getHashPrefix ckey) = none then
            a.createAccount (getHashPrefix ckey) (.ofKey ckey (asInt64 credit) 0)
          else a.credit (getHashPrefix ckey) credit := by
  unfold proveWork powCredit
  dsimp only
  by_cases hfree : difficulty < 1
  · simp [hfree]
  rw [if_neg hfree, if_neg hfree]
  cases a.find (getHashPrefix ckey) with
  | none =>
    by_cases hno : maxAcc ≤ a.store.size ∨ powReward difficulty < feeAccount
    · simp [hno]
    · simp only [if_neg hno]
      simp
  | some acc =>
    by_cases hneg : acc.getBalance < 0
    · simp [hneg]
    · simp [hneg]

theorem Accounts.powReward_toNat (difficulty : Nat) :
    (powReward difficulty).toNat = 2 ^ (min difficulty maxPowDifficulty - 1) * 1000 := by
  have hpow : 2 ^ (min difficulty maxPowDifficulty - 1) ≤ 2 ^ 53 := by
    apply Nat.pow_le_pow_right (by norm_num)
    simp only [maxPowDifficulty]
    omega
  have hbase : powRewardBase.toNat = 1000 := rfl
  rw [powReward, UInt64.toNat_mul, UInt64.toNat_ofNat', hbase, Nat.mod_eq_of_lt (a := 2 ^ _) (by omega)]
  exact Nat.mod_eq_of_lt (by omega)

/-- An accepted proof has credit zero only if its reward is the price of the slot it pays for. -/
theorem Accounts.powCredit_ne_zero {a : Accounts} {maxAcc : Nat} {feeAccount : UInt64} {ckey : Hash} {difficulty : Nat}
    (hpaid : ¬(a.find (getHashPrefix ckey) = none ∧ powReward difficulty = feeAccount)) {credit : UInt64}
    (h : a.powCredit maxAcc feeAccount ckey difficulty = some credit) : 0 < credit := by
  have hreward : 0 < (powReward difficulty).toNat := by
    rw [powReward_toNat]
    positivity
  unfold powCredit at h
  by_cases hfree : difficulty < 1
  · simp [hfree] at h
  rw [if_neg hfree] at h
  cases hfind : a.find (getHashPrefix ckey) with
  | none =>
    have hne : powReward difficulty ≠ feeAccount := fun heq => hpaid ⟨hfind, heq⟩
    simp only [hfind] at h
    split_ifs at h with hno
    obtain rfl := Option.some.inj h
    push Not at hno
    have hle : feeAccount.toNat ≤ (powReward difficulty).toNat := UInt64.le_iff_toNat_le.mp (UInt64.not_lt.mp hno.2)
    have hnat : feeAccount.toNat ≠ (powReward difficulty).toNat := fun heq => hne (UInt64.toNat_inj.mp heq).symm
    have hdiff : 0 < powReward difficulty - feeAccount := by
      rw [UInt64.lt_iff_toNat_lt, UInt64.toNat_sub_of_le _ _ (UInt64.not_lt.mp hno.2)]
      simp only [UInt64.toNat_zero]
      omega
    show 0 < if powReward difficulty - feeAccount ≤ asUInt64 balanceMax then _ else _
    split_ifs
    · exact hdiff
    · decide
  | some acc =>
    simp only [hfind] at h
    split_ifs at h
    obtain rfl := Option.some.inj h
    exact UInt64.lt_iff_toNat_lt.mpr hreward

/-! ## The policy for inbound work -/

/-- What the prober and the operator set on an entry. -/
structure PeerFlags where
  reachable : Bool
  verified : Bool
  outbound : Bool
  resolvedIP : Option Bytes
  lastCheckTime : UInt64

/-- What happens to the peer table. An inbound proof of work finds some ledger and some fees; `advertised` is the
address that `appData` names, when it names one. Removals are those of the operator and of the maintenance. -/
inductive PeerOp where
  | inbound (ledger : Accounts) (maxAcc : Nat) (feeAccount : UInt64) (maxInmemPeers : Nat) (now : UInt64) (ckey : Hash)
      (difficulty : Nat) (advertised : Option Bytes)
  | upsert (maxInmemPeers : Nat) (now : UInt64) (ckey : Hash) (address : Bytes)
  | probe (ckey : Hash) (flags : PeerFlags)
  | grief (threshold : UInt32) (banSecs now : UInt64) (ckey : Hash) (amount : UInt32)
  | ban (banSecs now : UInt64) (ckey : Hash)
  | remove (keep : PeerRecord → Bool)

namespace PeerTable

/-- The part of `incomingProveWork` after the mint. -/
def incomingProveWork (ledger : Accounts) (maxAcc : Nat) (feeAccount : UInt64) (maxInmemPeers : Nat) (now : UInt64)
    (table : PeerTable) (ckey : Hash) (difficulty : Nat) (advertised : Option Bytes) : PeerTable :=
  match ledger.powCredit maxAcc feeAccount ckey difficulty, advertised with
  | some credit, some address => table.upsertPeer maxInmemPeers now ckey address credit
  | _, _ => table

def act (table : PeerTable) : PeerOp → PeerTable
  | .inbound ledger maxAcc feeAccount maxInmemPeers now ckey difficulty advertised =>
    table.incomingProveWork ledger maxAcc feeAccount maxInmemPeers now ckey difficulty advertised
  | .upsert maxInmemPeers now ckey address => table.upsertPeer maxInmemPeers now ckey address 0
  | .probe ckey flags => table.change ckey fun p =>
    { p with reachable := flags.reachable, verified := flags.verified, outbound := flags.outbound,
             resolvedIP := flags.resolvedIP, lastCheckTime := flags.lastCheckTime }
  | .grief threshold banSecs now ckey amount => (table.griefPeer threshold banSecs now ckey amount).2
  | .ban banSecs now ckey => table.banPeer banSecs now ckey
  | .remove keep => table.filter keep

variable {table : PeerTable} {ckey : Hash} {f : PeerRecord → PeerRecord} {now : UInt64}

/-- At most one entry exists per key. -/
def Keyed (table : PeerTable) : Prop := (table.map (·.ckey)).Nodup

theorem Keyed.unique (h : table.Keyed) {p q : PeerRecord} (hp : p ∈ table) (hq : q ∈ table) (hkey : p.ckey = q.ckey) :
    p = q :=
  List.inj_on_of_nodup_map h hp hq hkey

theorem entry_some {p : PeerRecord} (h : table.entry ckey = some p) : p ∈ table ∧ p.ckey = ckey :=
  ⟨List.mem_of_find?_eq_some h, by simpa using List.find?_some h⟩

theorem entry_none (h : table.entry ckey = none) : ckey ∉ table.map (·.ckey) := by
  simpa [entry] using h

theorem change_keys (hf : ∀ p, (f p).ckey = p.ckey) (table : PeerTable) :
    (table.change ckey f).map (·.ckey) = table.map (·.ckey) := by
  induction table with
  | nil => rfl
  | cons p rest ih =>
    by_cases hp : p.ckey = ckey
    · simp [change, hp, hf]
    · simp [change, hp, ih]

theorem mem_change {q : PeerRecord} (hq : q ∈ table.change ckey f) :
    q ∈ table ∨ ∃ p, table.entry ckey = some p ∧ q = f p := by
  induction table with
  | nil => simp [change] at hq
  | cons p rest ih =>
    by_cases hp : p.ckey = ckey
    · simp only [change, hp, if_true, List.mem_cons] at hq
      rcases hq with rfl | hq
      · exact .inr ⟨p, by simp [entry, hp], rfl⟩
      · exact .inl (by simp [hq])
    · simp only [change, hp, if_false, List.mem_cons] at hq
      rcases hq with rfl | hq
      · simp
      · rcases ih hq with hq | ⟨r, hr, rfl⟩
        · simp [hq]
        · exact .inr ⟨r, by simpa [entry, hp] using hr, rfl⟩

theorem mem_change_of_ne {q : PeerRecord} (hq : q ∈ table) (hkey : q.ckey ≠ ckey) : q ∈ table.change ckey f := by
  induction table with
  | nil => simp at hq
  | cons p rest ih =>
    rcases List.mem_cons.mp hq with rfl | hq
    · simp [change, hkey]
    · by_cases hp : p.ckey = ckey
      · simp [change, hp, hq]
      · simp [change, hp, ih hq]

theorem entry_change (hf : ∀ p, (f p).ckey = p.ckey) (table : PeerTable) :
    (table.change ckey f).entry ckey = (table.entry ckey).map f := by
  induction table with
  | nil => rfl
  | cons p rest ih =>
    by_cases hp : p.ckey = ckey
    · simp [change, entry, hp, hf]
    · simpa [change, entry, hp] using ih

theorem victim_spec {v : PeerRecord} (h : table.victim now = some v) :
    v ∈ table ∧ v.outbound = false ∧ ¬v.ActiveBan now := by
  -- Over the entries left: the victim was chosen before, or is one of them that may be evicted.
  have hscan : ∀ (rest : PeerTable) (best : Option PeerRecord), rest.foldl (weaker now) best = some v →
      best = some v ∨ v ∈ rest ∧ v.outbound = false ∧ ¬v.ActiveBan now := by
    intro rest
    induction rest with
    | nil => intro best hbest; exact .inl hbest
    | cons p rest ih =>
      intro best hbest
      rcases ih _ hbest with hnow | ⟨hmem, hfree⟩
      · unfold weaker at hnow
        split_ifs at hnow with hkept
        · exact .inl hnow
        · obtain rfl := Option.some.inj hnow
          push Not at hkept
          exact .inr ⟨by simp, by simpa using hkept.1, hkept.2⟩
        · exact .inl hnow
      · exact .inr ⟨by simp [hmem], hfree⟩
  rcases hscan table none h with hnone | hmem
  · simp at hnone
  · exact hmem

theorem ckey_claim (p : PeerRecord) (now : UInt64) (address : Bytes) (credit : UInt64) :
    (p.claim now address credit).ckey = p.ckey := by
  unfold PeerRecord.claim
  dsimp only
  split_ifs <;> rfl

theorem ckey_grieve (p : PeerRecord) (threshold : UInt32) (banSecs now : UInt64) (amount : UInt32) :
    (p.grieve threshold banSecs now amount).ckey = p.ckey := by
  unfold PeerRecord.grieve
  dsimp only
  split_ifs <;> rfl

theorem ckey_ban (p : PeerRecord) (banSecs now : UInt64) : (p.ban banSecs now).ckey = p.ckey := by
  unfold PeerRecord.ban
  split_ifs <;> rfl

theorem Keyed.change (h : table.Keyed) (hf : ∀ p, (f p).ckey = p.ckey) : (table.change ckey f).Keyed := by
  unfold Keyed
  rw [change_keys hf]
  exact h

theorem Keyed.add (h : table.Keyed) {p : PeerRecord} (hp : p.ckey ∉ table.map (·.ckey)) {kept : PeerTable}
    (hkept : kept.Sublist table) : Keyed (kept ++ [p]) := by
  unfold Keyed
  rw [List.map_append, List.nodup_append]
  have hsub := hkept.map (·.ckey)
  refine ⟨h.sublist hsub, by simp, ?_⟩
  intro key hkey key' hkey' heq
  rw [List.map_singleton, List.mem_singleton] at hkey'
  subst heq
  exact hp (hkey' ▸ hsub.subset hkey)

theorem Keyed.upsertPeer (h : table.Keyed) (maxInmemPeers : Nat) (now : UInt64) (ckey : Hash) (address : Bytes)
    (credit : UInt64) : (table.upsertPeer maxInmemPeers now ckey address credit).Keyed := by
  unfold PeerTable.upsertPeer
  cases hentry : table.entry ckey with
  | some p =>
    dsimp only
    split_ifs
    · exact h
    · exact h.change fun p => ckey_claim p now address credit
  | none =>
    dsimp only
    split_ifs
    · cases table.victim now with
      | none => exact h
      | some v => exact h.add (p := .admitted now ckey address credit) (entry_none hentry) List.erase_sublist
    · exact h.add (p := .admitted now ckey address credit) (entry_none hentry) (List.Sublist.refl table)

theorem Keyed.act (h : table.Keyed) (op : PeerOp) : (table.act op).Keyed := by
  cases op with
  | inbound ledger maxAcc feeAccount maxInmemPeers now ckey difficulty advertised =>
    simp only [PeerTable.act, incomingProveWork]
    split
    · exact h.upsertPeer _ _ _ _ _
    · exact h
  | upsert maxInmemPeers now ckey address => exact h.upsertPeer _ _ _ _ _
  | probe ckey flags => exact h.change fun _ => rfl
  | grief threshold banSecs now ckey amount => exact h.change fun p => ckey_grieve p _ _ _ _
  | ban banSecs now ckey => exact h.change fun p => ckey_ban p _ _
  | remove keep => exact List.Nodup.sublist (List.filter_sublist.map _) h

theorem Keyed.run (h : table.Keyed) (ops : List PeerOp) : (ops.foldl PeerTable.act table).Keyed := by
  induction ops generalizing table with
  | nil => exact h
  | cons op ops ih => exact ih (h.act op)

/-- What an inbound proof of work leaves alone. -/
structure InboundSafe (maxInmemPeers : Nat) (now : UInt64) (table after : PeerTable) : Prop where
  sticky : ∀ p ∈ table, p.verified = true → ∀ q ∈ after, q.ckey = p.ckey →
    q.declaredAddress = p.declaredAddress ∧ q.verified = true
  banned : ∀ p ∈ table, p.ActiveBan now → p ∈ after
  bounded : after.length ≤ max table.length maxInmemPeers
  pinned : ∀ p ∈ table, p.outbound = true → ∃ q ∈ after, q.ckey = p.ckey

theorem InboundSafe.refl (h : table.Keyed) (maxInmemPeers : Nat) (now : UInt64) :
    InboundSafe maxInmemPeers now table table := by
  refine ⟨?_, fun p hp _ => hp, le_max_left _ _, fun p hp _ => ⟨p, hp, rfl⟩⟩
  intro p hp hverified q hq hkey
  rw [h.unique hq hp hkey]
  exact ⟨rfl, hverified⟩

/-- Entries may go that are neither outbound nor banned, and one of a new key may come. -/
theorem InboundSafe.add (h : table.Keyed) {maxInmemPeers : Nat} {p : PeerRecord} (hp : p.ckey ∉ table.map (·.ckey))
    {kept : PeerTable} (hkept : kept.Sublist table)
    (hgone : ∀ q ∈ table, q.outbound = true ∨ q.ActiveBan now → q ∈ kept)
    (hbound : kept.length + 1 ≤ max table.length maxInmemPeers) :
    InboundSafe maxInmemPeers now table (kept ++ [p]) := by
  refine ⟨?_, ?_, by simpa using hbound, ?_⟩
  · intro r hr hverified q hq hkey
    rcases List.mem_append.mp hq with hq | hq
    · rw [h.unique (hkept.subset hq) hr hkey]
      exact ⟨rfl, hverified⟩
    · rw [List.mem_singleton.mp hq] at hkey
      exact absurd (hkey ▸ List.mem_map_of_mem hr) hp
  · intro q hq hban
    exact List.mem_append_left _ (hgone q hq (.inr hban))
  · intro q hq hout
    exact ⟨q, List.mem_append_left _ (hgone q hq (.inl hout)), rfl⟩

theorem upsertPeer_safe (h : table.Keyed) (maxInmemPeers : Nat) (now : UInt64) (ckey : Hash) (address : Bytes)
    {credit : UInt64} (hcredit : 0 < credit) :
    InboundSafe maxInmemPeers now table (table.upsertPeer maxInmemPeers now ckey address credit) := by
  unfold PeerTable.upsertPeer
  cases hentry : table.entry ckey with
  | some p =>
    obtain ⟨hp, hpkey⟩ := entry_some hentry
    dsimp only
    split_ifs with hban
    · exact .refl h _ _
    have hkeys : (table.change ckey (·.claim now address credit)).map (·.ckey) = table.map (·.ckey) :=
      change_keys (fun p => ckey_claim p now address credit) table
    refine ⟨?_, ?_, ?_, ?_⟩
    · intro r hr hverified q hq hkey
      rcases mem_change hq with hq | ⟨p', hp', rfl⟩
      · rw [h.unique hq hr hkey]
        exact ⟨rfl, hverified⟩
      · obtain rfl : p = p' := Option.some.inj (hentry.symm.trans hp')
        rw [ckey_claim] at hkey
        obtain rfl := h.unique hp hr hkey
        have hne : credit ≠ 0 := (UInt64.ne_of_lt hcredit).symm
        simp [PeerRecord.claim, hverified, hne]
    · intro r hr hactive
      apply mem_change_of_ne hr
      intro hrkey
      rw [h.unique hr hp (hrkey.trans hpkey.symm)] at hactive
      exact hban hactive
    · have hlength := congrArg List.length hkeys
      simp only [List.length_map] at hlength
      omega
    · intro r hr _
      have hmem : r.ckey ∈ (table.change ckey (·.claim now address credit)).map (·.ckey) := by
        rw [hkeys]
        exact List.mem_map_of_mem hr
      obtain ⟨q, hq, hqkey⟩ := List.mem_map.mp hmem
      exact ⟨q, hq, hqkey⟩
  | none =>
    dsimp only
    split_ifs with hfull
    · cases hvictim : table.victim now with
      | none => exact .refl h _ _
      | some v =>
        obtain ⟨hv, hvout, hvban⟩ := victim_spec hvictim
        refine .add (p := .admitted now ckey address credit) h (entry_none hentry) List.erase_sublist ?_ ?_
        · intro q hq hkept
          refine (List.mem_erase_of_ne ?_).mpr hq
          rintro rfl
          rcases hkept with hout | hban
          · simp [hvout] at hout
          · exact hvban hban
        · have hlength := List.length_erase_of_mem hv
          have hpos := List.length_pos_of_mem hv
          omega
    · refine .add (p := .admitted now ckey address credit) h (entry_none hentry) (List.Sublist.refl table)
        (fun q hq _ => hq) ?_
      push Not at hfull
      have := hfull hcredit
      omega

end PeerTable

open PeerTable

/-- In every table reached from the empty one at most one entry exists per key, and an inbound proof of work whose
reward is not exactly the price of the slot it pays for keeps verified addresses, banned and outbound entries, and
the bound on the size. -/
theorem inbound_work_policy (ops : List PeerOp) (ledger : Accounts) (maxAcc : Nat) (feeAccount : UInt64)
    (maxInmemPeers : Nat) (now : UInt64) (ckey : Hash) (difficulty : Nat) (advertised : Option Bytes)
    (hpaid : ¬(ledger.find (getHashPrefix ckey) = none ∧ Accounts.powReward difficulty = feeAccount)) :
    let table : PeerTable := ops.foldl PeerTable.act []
    let after := table.act (.inbound ledger maxAcc feeAccount maxInmemPeers now ckey difficulty advertised)
    table.Keyed ∧ after.Keyed ∧ InboundSafe maxInmemPeers now table after := by
  intro table after
  have hkeyed : table.Keyed := Keyed.run (by simp [Keyed]) ops
  refine ⟨hkeyed, hkeyed.act _, ?_⟩
  simp only [after, PeerTable.act, incomingProveWork]
  cases hcredit : ledger.powCredit maxAcc feeAccount ckey difficulty with
  | none => exact .refl hkeyed _ _
  | some credit =>
    cases advertised with
    | none => exact .refl hkeyed _ _
    | some address => exact upsertPeer_safe hkeyed _ _ _ _ (Accounts.powCredit_ne_zero hpaid hcredit)

def minerKey : Hash := ByteArr.ofList 32 [1]

/-- A peer that was added by the operator and then verified. -/
def verifiedPeer : List PeerOp := [.upsert 3 10 minerKey [97, 58, 49], .probe minerKey ⟨true, true, false, none, 5⟩]

/-- Work of difficulty one, worth 1000, advertising another address. -/
def takeover (feeAccount : UInt64) : PeerOp :=
  .inbound (.load ∅) 10 feeAccount 3 20 minerKey 1 (some [98, 58, 50])

theorem inbound_work_policy_cheap_slot :
    InboundSafe 3 20 (verifiedPeer.foldl PeerTable.act []) ((verifiedPeer.foldl PeerTable.act []).act (takeover 999)) :=
  (inbound_work_policy verifiedPeer (.load ∅) 10 999 3 20 minerKey 1 (some [98, 58, 50])
    (fun h => absurd h.2 (by decide))).2.2

/-- With a slot price of 1000 the credit is zero, and the work moves the address of a verified peer. -/
theorem slot_price_takes_over :
    (verifiedPeer.foldl PeerTable.act []).map (fun p => (p.declaredAddress, p.verified)) = [([97, 58, 49], true)] ∧
      ((verifiedPeer.foldl PeerTable.act []).act (takeover 1000)).map (fun p => (p.declaredAddress, p.verified)) =
        [([98, 58, 50], false)] := by
  decide +kernel

/-! ## Bans -/

/-- The ban is active for `banSecs` from `start` on. -/
def PeerRecord.BannedFor (banSecs start : UInt64) (p : PeerRecord) : Prop :=
  ∀ t : UInt64, start ≤ t → t.toNat < start.toNat + banSecs.toNat → p.ActiveBan t

theorem PeerRecord.bannedFor_iff {banSecs start : UInt64} {p : PeerRecord} (hsecs : banSecs ≠ 0) :
    p.BannedFor banSecs start ↔ start.toNat + banSecs.toNat ≤ p.bannedUntil.toNat := by
  have hpos : 0 < banSecs.toNat := Nat.pos_of_ne_zero fun h => hsecs (UInt64.toNat_inj.mp h)
  have huntil := p.bannedUntil.toNat_lt
  constructor
  · intro h
    -- The last second of the ban, or the last second there is.
    by_cases hfits : start.toNat + banSecs.toNat ≤ 2 ^ 64
    · have hlast : (UInt64.ofNat (start.toNat + banSecs.toNat - 1)).toNat = start.toNat + banSecs.toNat - 1 := by
        rw [UInt64.toNat_ofNat']
        exact Nat.mod_eq_of_lt (by omega)
      have hactive := h (UInt64.ofNat (start.toNat + banSecs.toNat - 1))
        (UInt64.le_iff_toNat_le.mpr (by omega)) (by omega)
      have hlt := UInt64.lt_iff_toNat_lt.mp hactive.2
      omega
    · have hlast : (UInt64.ofNat (2 ^ 64 - 1)).toNat = 2 ^ 64 - 1 := rfl
      have hstart := start.toNat_lt
      have hactive := h (UInt64.ofNat (2 ^ 64 - 1)) (UInt64.le_iff_toNat_le.mpr (by omega)) (by omega)
      have hlt := UInt64.lt_iff_toNat_lt.mp hactive.2
      omega
  · intro h t _ ht
    refine ⟨?_, UInt64.lt_iff_toNat_lt.mpr (by omega)⟩
    intro hzero
    rw [hzero, UInt64.toNat_zero] at h
    omega

/-- `banPeer` bans exactly an entry without the record of an earlier ban, unless the end of the ban overflows. -/
theorem ban_bannedFor_iff {banSecs now : UInt64} {p : PeerRecord} (hsecs : banSecs ≠ 0) (hfree : ¬p.ActiveBan now) :
    (p.ban banSecs now).BannedFor banSecs now ↔ p.bannedUntil = 0 ∧ now.toNat + banSecs.toNat < 2 ^ 64 := by
  have hpos : 0 < banSecs.toNat := Nat.pos_of_ne_zero fun h => hsecs (UInt64.toNat_inj.mp h)
  rw [PeerRecord.bannedFor_iff hsecs]
  unfold PeerRecord.ban
  by_cases hzero : p.bannedUntil = 0
  · simp only [hzero, if_true, true_and, UInt64.toNat_add]
    have hmod := Nat.mod_lt (now.toNat + banSecs.toNat) (by norm_num : 0 < 2 ^ 64)
    constructor
    · intro h
      omega
    · intro h
      rw [Nat.mod_eq_of_lt h]
  · simp only [hzero, if_false, false_and, iff_false]
    have hover : p.bannedUntil.toNat ≤ now.toNat := by
      by_contra hlt
      exact hfree ⟨hzero, UInt64.lt_iff_toNat_lt.mpr (by omega)⟩
    omega

/-- A call of `griefPeer`: when, and how much. -/
structure GriefCall where
  now : UInt64
  amount : UInt32

def GriefCall.weight (call : GriefCall) : UInt32 := if call.amount = 0 then 1 else call.amount

section grief

variable (threshold : UInt32) (banSecs : UInt64)

/-- The table after calls for one key. -/
def PeerTable.griefAll (ckey : Hash) (table : PeerTable) (calls : List GriefCall) : PeerTable :=
  calls.foldl (fun table call => (table.griefPeer threshold banSecs call.now ckey call.amount).2) table

def PeerRecord.grieveAll (p : PeerRecord) (calls : List GriefCall) : PeerRecord :=
  calls.foldl (fun p call => p.grieve threshold banSecs call.now call.weight) p

/-- Some call begins a ban: the entry is banned for `banSecs` from then on, whatever calls follow before the ban is
over. -/
def BeginsBan (entryAfter : List GriefCall → PeerRecord) (calls : List GriefCall) : Prop :=
  ∃ before call after, calls = before ++ call :: after ∧ ∀ more rest, after = more ++ rest →
    (∀ later ∈ more, later.now.toNat < call.now.toNat + banSecs.toNat) →
      (entryAfter (before ++ call :: more)).BannedFor banSecs call.now

/-- A partial sum of the weights reaches the threshold, in 32 bits. -/
def Reaches : UInt32 → List GriefCall → Prop
  | _, [] => False
  | score, call :: calls => threshold ≤ score + call.weight ∨ Reaches (score + call.weight) calls

/-- The score that counts against a peer without an active ban. -/
def PeerRecord.score (p : PeerRecord) : UInt32 := if p.bannedUntil = 0 then p.grief else 0

variable {threshold banSecs} {p : PeerRecord}

theorem grieve_free {now : UInt64} {amount : UInt32} (hthreshold : threshold ≠ 0) (hfree : ¬p.ActiveBan now) :
    (p.grieve threshold banSecs now amount).grief = p.score + amount ∧
      (p.grieve threshold banSecs now amount).bannedUntil =
        if threshold ≤ p.score + amount then now + banSecs else 0 := by
  by_cases hzero : p.bannedUntil = 0
  · by_cases hreach : threshold ≤ p.grief + amount
    · simp [PeerRecord.grieve, PeerRecord.score, hzero, hthreshold, hreach]
    · simp [PeerRecord.grieve, PeerRecord.score, hzero, hreach]
  · have hover : p.bannedUntil ≤ now := UInt64.not_lt.mp fun hlt => hfree ⟨hzero, hlt⟩
    by_cases hreach : threshold ≤ amount
    · simp [PeerRecord.grieve, PeerRecord.score, hzero, hover, hthreshold, hreach]
    · simp [PeerRecord.grieve, PeerRecord.score, hzero, hover, hreach]

theorem grieve_banned {now : UInt64} {amount : UInt32} (hban : p.ActiveBan now) :
    (p.grieve threshold banSecs now amount).bannedUntil = p.bannedUntil := by
  have hnot : ¬p.bannedUntil ≤ now := UInt64.not_le.mpr hban.2
  simp [PeerRecord.grieve, hban.1, hnot]

/-- Calls before a ban is over do not change its end. -/
theorem grieveAll_banned (calls : List GriefCall) : ∀ {p : PeerRecord}, p.bannedUntil ≠ 0 →
    (∀ call ∈ calls, call.now < p.bannedUntil) → (p.grieveAll threshold banSecs calls).bannedUntil = p.bannedUntil := by
  induction calls with
  | nil => intro p _ _; rfl
  | cons call calls ih =>
    intro p hne hbefore
    have hsame := @grieve_banned threshold banSecs p call.now call.weight ⟨hne, hbefore call (by simp)⟩
    refine (ih (by rwa [hsame]) fun later hlater => ?_).trans hsame
    rw [hsame]
    exact hbefore later (by simp [hlater])

/-- A first call that begins no ban: the others are to. -/
theorem beginsBan_cons {call : GriefCall} {calls : List GriefCall} (hsecs : banSecs ≠ 0)
    (hnone : (p.grieve threshold banSecs call.now call.weight).bannedUntil = 0) :
    BeginsBan banSecs (p.grieveAll threshold banSecs) (call :: calls) ↔
      BeginsBan banSecs ((p.grieve threshold banSecs call.now call.weight).grieveAll threshold banSecs) calls := by
  have hpos : 0 < banSecs.toNat := Nat.pos_of_ne_zero fun h => hsecs (UInt64.toNat_inj.mp h)
  constructor
  · rintro ⟨before, first, after, heq, hban⟩
    cases before with
    | nil =>
      obtain ⟨rfl, rfl⟩ := List.cons.inj heq
      have hfirst := (PeerRecord.bannedFor_iff hsecs).mp (hban [] calls rfl (by simp))
      change _ ≤ (p.grieve threshold banSecs call.now call.weight).bannedUntil.toNat at hfirst
      rw [hnone, UInt64.toNat_zero] at hfirst
      omega
    | cons c before =>
      obtain ⟨rfl, rfl⟩ := List.cons.inj heq
      exact ⟨before, first, after, rfl, hban⟩
  · rintro ⟨before, first, after, rfl, hban⟩
    exact ⟨call :: before, first, after, rfl, hban⟩

theorem beginsBan_iff (hthreshold : threshold ≠ 0) (hsecs : banSecs ≠ 0) (calls : List GriefCall)
    (hclock : ∀ call ∈ calls, call.now.toNat + banSecs.toNat < 2 ^ 64) :
    ∀ {p : PeerRecord}, (∀ call ∈ calls, ¬p.ActiveBan call.now) →
      (BeginsBan banSecs (p.grieveAll threshold banSecs) calls ↔ Reaches threshold p.score calls) := by
  have hpos : 0 < banSecs.toNat := Nat.pos_of_ne_zero fun h => hsecs (UInt64.toNat_inj.mp h)
  induction calls with
  | nil =>
    intro p _
    simp [BeginsBan, Reaches]
  | cons call calls ih =>
    intro p hfree
    obtain ⟨hgrief, huntil⟩ := @grieve_free threshold banSecs p call.now call.weight hthreshold (hfree call (by simp))
    by_cases hreach : threshold ≤ p.score + call.weight
    · simp only [Reaches, hreach, true_or, iff_true]
      rw [if_pos hreach] at huntil
      have hend : (call.now + banSecs).toNat = call.now.toNat + banSecs.toNat := by
        rw [UInt64.toNat_add]
        exact Nat.mod_eq_of_lt (hclock call (by simp))
      refine ⟨[], call, calls, rfl, ?_⟩
      intro more rest _ hmore
      have hsame : (p.grieveAll threshold banSecs (call :: more)).bannedUntil = call.now + banSecs := by
        refine (grieveAll_banned more ?_ ?_).trans huntil
        · rw [huntil]
          intro hzero
          rw [hzero, UInt64.toNat_zero] at hend
          omega
        · intro later hlater
          rw [huntil, UInt64.lt_iff_toNat_lt, hend]
          exact hmore later hlater
      rw [PeerRecord.bannedFor_iff hsecs]
      simp only [List.nil_append, hsame, hend, le_refl]
    · rw [if_neg hreach] at huntil
      have hscore : (p.grieve threshold banSecs call.now call.weight).score = p.score + call.weight := by
        rw [PeerRecord.score, if_pos huntil, hgrief]
      rw [beginsBan_cons hsecs huntil, ih (fun later hlater => hclock later (by simp [hlater])), hscore]
      · simp only [Reaches, hreach, false_or]
      · intro later _ hactive
        exact hactive.1 huntil

/-- Weights that do not overflow the score and reach the threshold together. -/
theorem reaches_of_total (calls : List GriefCall) : ∀ {score : UInt32}, score < threshold →
    score.toNat + (calls.map (·.weight.toNat)).sum < 2 ^ 32 →
    threshold.toNat ≤ score.toNat + (calls.map (·.weight.toNat)).sum → Reaches threshold score calls := by
  induction calls with
  | nil =>
    intro score hbelow _ hreach
    have := UInt32.lt_iff_toNat_lt.mp hbelow
    simp at hreach
    omega
  | cons call calls ih =>
    intro score hbelow hfits hreach
    simp only [List.map_cons, List.sum_cons] at hfits hreach
    have hadd : (score + call.weight).toNat = score.toNat + call.weight.toNat := by
      rw [UInt32.toNat_add]
      exact Nat.mod_eq_of_lt (by omega)
    by_cases hnow : threshold ≤ score + call.weight
    · exact .inl hnow
    · exact .inr (ih (UInt32.not_le.mp hnow) (by omega) (by omega))

end grief

theorem entry_griefAll {threshold : UInt32} {banSecs : UInt64} {ckey : Hash} (calls : List GriefCall) :
    ∀ {table : PeerTable} {p : PeerRecord}, table.entry ckey = some p →
      (table.griefAll threshold banSecs ckey calls).entry ckey = some (p.grieveAll threshold banSecs calls) := by
  induction calls with
  | nil => intro table p h; exact h
  | cons call calls ih =>
    intro table p h
    refine ih ((entry_change (fun p => ckey_grieve p _ _ _ _) table).trans ?_)
    rw [h]
    rfl

/-- For a peer in the table without an active ban: `banPeer` bans it for `banSecs` exactly when it has no record of
an earlier ban; calls of `griefPeer` begin such a ban exactly when a partial sum of the weights, on top of the score
there is, reaches the threshold in 32 bits. In both cases the end of the ban must not overflow. -/
theorem ban_policy_iff {threshold : UInt32} {banSecs now : UInt64} (hthreshold : threshold ≠ 0) (hsecs : banSecs ≠ 0)
    {table : PeerTable} {ckey : Hash} {p : PeerRecord} (hp : table.entry ckey = some p) (hfree : ¬p.ActiveBan now) :
    ((∃ q, (table.banPeer banSecs now ckey).entry ckey = some q ∧ q.BannedFor banSecs now) ↔
      p.bannedUntil = 0 ∧ now.toNat + banSecs.toNat < 2 ^ 64) ∧
    ∀ calls : List GriefCall, (∀ call ∈ calls, now ≤ call.now ∧ call.now.toNat + banSecs.toNat < 2 ^ 64) →
      (BeginsBan banSecs (fun made => ((table.griefAll threshold banSecs ckey made).entry ckey).getD p) calls ↔
        Reaches threshold p.score calls) := by
  constructor
  · have hentry : (table.banPeer banSecs now ckey).entry ckey = some (p.ban banSecs now) := by
      rw [PeerTable.banPeer, entry_change (fun p => ckey_ban p _ _), hp]
      rfl
    rw [← ban_bannedFor_iff hsecs hfree, hentry]
    simp
  · intro calls hcalls
    have hentry : (fun made => ((table.griefAll threshold banSecs ckey made).entry ckey).getD p) =
        p.grieveAll threshold banSecs := by
      funext made
      rw [entry_griefAll made hp]
      rfl
    rw [hentry]
    refine beginsBan_iff hthreshold hsecs calls (fun call hcall => (hcalls call hcall).2) ?_
    intro call hcall hactive
    exact hfree ⟨hactive.1, UInt64.lt_of_le_of_lt (hcalls call hcall).1 hactive.2⟩

/-- A peer, with the record of a ban or without one. -/
def knownPeer (bannedUntil : UInt64) : PeerRecord :=
  { PeerRecord.admitted 0 minerKey [97, 58, 49] 0 with bannedUntil := bannedUntil }

theorem ban_policy_known_peer :
    (∃ q, (PeerTable.banPeer 100 10 [knownPeer 0] minerKey).entry minerKey = some q ∧ q.BannedFor 100 10) ∧
      BeginsBan 100 (fun made => ((PeerTable.griefAll 3 100 minerKey [knownPeer 0] made).entry minerKey).getD
        (knownPeer 0))
        [⟨10, 2⟩, ⟨20, 0⟩] := by
  have h := ban_policy_iff (by decide : (3 : UInt32) ≠ 0) (by decide : (100 : UInt64) ≠ 0)
    (by decide : PeerTable.entry [knownPeer 0] minerKey = some (knownPeer 0))
    (by decide : ¬(knownPeer 0).ActiveBan 10)
  refine ⟨h.1.mpr (by decide), (h.2 [⟨10, 2⟩, ⟨20, 0⟩] ?_).mpr ?_⟩
  · simp only [List.mem_cons, List.not_mem_nil, or_false]
    rintro call (rfl | rfl)
    · decide
    · decide
  · exact reaches_of_total _ (by decide) (by decide) (by decide)

/-- `banPeer` does nothing to a peer whose ban is over but still recorded; and two griefs that add up to `2 ^ 32` do
not ban at a threshold below. -/
theorem ban_forgotten :
    ((PeerTable.banPeer 100 10 [knownPeer 5] minerKey).entry minerKey).map (·.bannedUntil) = some 5 ∧
      ((PeerTable.griefAll 0xC0000000 100 minerKey [knownPeer 0] [⟨10, 0x80000000⟩, ⟨10, 0x80000000⟩]).entry
        minerKey).map
        (fun p => (p.grief, p.bannedUntil)) = some (0, 0) := by
  decide +kernel

end Ces
