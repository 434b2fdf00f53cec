import Mathlib.Logic.Relation
import Ces.Vm.Run

/-!
# What a host call writes

Every host method is a sequence of primitive changes (`Write`): a cell saved and then overwritten, a
queued run, an entry of a deferred list, a grant of gas. Two methods also act outside the server, on the
spot: a push to a connected client and an accepted rpc request (`Sent`). `handle_cases` says for every call
which of these it makes; what calls and runs preserve is derived from it, one case per primitive. A call that
queues no run leaves the queue as it is (`PlainWrites`).
-/

namespace Ces

open Ces.Lib

/-- The value syscalls. -/
def HostCall.movesValue : HostCall → Bool
  | .transfer _ _ | .ownerTransfer _ _ | .deposit _ | .withdraw _ | .buyAsset _ _ | .crossTransfer _ _ _
  | .l2call _ _ _ _ _ _ => true
  | _ => false

/-- The syscall that grants gas. -/
def HostCall.refills : HostCall → Bool
  | .refillGas _ => true
  | _ => false

/-- The time a call queues a run for. -/
def HostCall.queuesFor : HostCall → Option UInt64
  | .schedule _ _ _ _ timeUs | .scheduleAlias _ _ _ _ timeUs => some timeUs
  | _ => none

namespace VmHost

/-- The primitive changes the host methods are made of. Only a value call may make those that carry the
flag `true`, and only a refill the one that carries the flag `false`. -/
inductive Write : Bool → VmHost → VmHost → Prop where
  | account {h} (id : HashPrefix) (acc : Account) : Write true h ((h.saveAccount id).setAccount id acc)
  | deferHook {h} (hooks : List DeferredHook) : Write true h { h with deferredHooks := hooks }
  | deferCrossXfer {h} (xfers : List DeferredCrossXfer) : Write true h { h with deferredCrossXfers := xfers }
  | deferL2Call {h} (calls : List PendingL2Call) : Write true h { h with newL2Calls := calls }
  | allowance {v h} (left : UInt64) : Write v h { h with allowance := left }
  | deferUdp {v h} (udp : List DeferredUdp) : Write v h { h with deferredUdp := udp }
  | refill {h} (total : UInt64) (hceiling : h.refillCeiling ≠ 0) : Write false h { h with refilledTotal := total }
  | asset {v h} (key : Hash) (asset : Asset) : Write v h ((h.saveAsset key).setAsset key asset)
  | savedAsset {v h} (key : Hash) : Write v h (h.saveAsset key)
  | patchAlias {v h} (id : UInt32) (al : Alias) :
      Write v h { h.saveAlias id with server.aliases := h.server.aliases.insert id al }
  | enqueue {v h} (run : ScheduledRun) (timeUs : UInt64) :
      Write v h { h with
        server.scheduledRuns := h.server.scheduledRuns.enqueue timeUs run
        undoLog := .schedule ⟨timeUs, h.server.scheduledRuns.nextSeq⟩ :: h.undoLog }

abbrev Writes (v : Bool) : VmHost → VmHost → Prop := Relation.ReflTransGen (Write v)

variable (h : VmHost)

/-- Writes that leave the queue alone. -/
abbrev PlainWrites (v : Bool) : VmHost → VmHost → Prop :=
  Relation.ReflTransGen fun h h' => Write v h h' ∧ h'.server.scheduledRuns = h.server.scheduledRuns

theorem PlainWrites.writes {v : Bool} {h h' : VmHost} (hw : PlainWrites v h h') : Writes v h h' := by
  induction hw with
  | refl => exact .refl
  | tail _ hstep ih => exact ih.tail hstep.1

/-- A method's tail runs on whatever host its first part left. -/
theorem plain_andThen {v : Bool} {r : Rc × VmHost} {next : VmHost → Rc × VmHost} (hr : PlainWrites v h r.2)
    (hnext : ∀ h', PlainWrites v h' (next h').2) : PlainWrites v h (andThen r next).2 := by
  obtain ⟨rc, h'⟩ := r
  by_cases hrc : rc = .ok
  · subst hrc
    exact hr.trans (hnext h')
  · rw [andThen_of_ne _ hrc]
    exact hr

/-! ### Value calls -/

theorem plain_debitAccount (id : HashPrefix) (amount : UInt64) : PlainWrites true h (h.debitAccount id amount).2 := by
  unfold debitAccount
  cases h.findAccount id with
  | none => exact .refl
  | some acc =>
    dsimp only
    split_ifs
    · exact .refl
    · exact .single ⟨.account id _, rfl⟩

theorem plain_spendAllowance (amount : UInt64) : PlainWrites true h (h.spendAllowance amount) := by
  unfold spendAllowance
  split_ifs
  · exact .refl
  · exact .single ⟨.allowance _, rfl⟩

theorem plain_debitCaller (amount : UInt64) : PlainWrites true h (h.debitCaller amount).2 := by
  unfold debitCaller
  split_ifs
  · exact .refl
  · exact .refl
  · exact plain_andThen h (h.plain_debitAccount _ _) fun h' => h'.plain_spendAllowance amount

theorem plain_debitProgramOwner (amount : UInt64) : PlainWrites true h (h.debitProgramOwner amount).2 := by
  unfold debitProgramOwner
  split_ifs
  · exact .refl
  · exact h.plain_debitAccount _ _

theorem plain_creditHook (dest : Hash) (amount : UInt64) : PlainWrites true h (h.creditHook dest amount) := by
  unfold creditHook
  split_ifs
  · exact .refl
  · cases h.findAccount (getHashPrefix dest) with
    | none => exact .refl
    | some acc =>
      dsimp only
      split_ifs
      · exact .refl
      · exact .single ⟨.deferHook _, rfl⟩

theorem plain_creditKey (dest : Hash) (amount : UInt64) : PlainWrites true h (h.creditKey dest amount) := by
  unfold creditKey
  cases h.findAccount (getHashPrefix dest) with
  | none => exact .single ⟨.account _ _, rfl⟩
  | some acc => exact .single ⟨.account _ _, rfl⟩

theorem plain_creditDest (dest : Hash) (amount : UInt64) : PlainWrites true h (h.creditDest dest amount) :=
  (h.plain_creditKey dest amount).trans (plain_creditHook _ dest amount)

theorem plain_creditExisting (id : HashPrefix) (amount : UInt64) :
    PlainWrites true h (h.creditExisting id amount).2 := by
  unfold creditExisting
  cases h.findAccount id with
  | none => exact .refl
  | some acc => exact .single ⟨.account _ _, rfl⟩

theorem plain_transfer (dest : Hash) (amount : UInt64) : PlainWrites true h (h.transfer dest amount).2 :=
  plain_andThen h .refl fun h' =>
    plain_andThen h' (h'.plain_debitCaller amount) fun h'' => h''.plain_creditDest dest amount

theorem plain_ownerTransfer (dest : Hash) (amount : UInt64) : PlainWrites true h (h.ownerTransfer dest amount).2 :=
  plain_andThen h .refl fun h' =>
    plain_andThen h' (h'.plain_debitProgramOwner amount) fun h'' => h''.plain_creditDest dest amount

theorem plain_deposit (amount : UInt64) : PlainWrites true h (h.deposit amount).2 :=
  plain_andThen h .refl fun h' =>
    plain_andThen h' (h'.plain_debitCaller amount) fun h'' => h''.plain_creditExisting _ amount

theorem plain_withdraw (amount : UInt64) : PlainWrites true h (h.withdraw amount).2 :=
  plain_andThen h .refl fun h' =>
    plain_andThen h' (h'.plain_debitProgramOwner amount) fun h'' => h''.plain_creditExisting _ amount

theorem plain_purchase (key : Hash) (asset : Asset) (price : UInt64) :
    PlainWrites true h (h.purchase key asset price).2 :=
  plain_andThen h .refl fun h' =>
    plain_andThen h' (h'.plain_debitCaller price) fun h'' =>
      (h''.plain_creditExisting asset.ownerId price).tail ⟨.asset key _, rfl⟩

theorem plain_buyAsset (key : Hash) (maxPrice : UInt64) : PlainWrites true h (h.buyAsset key maxPrice).2 := by
  unfold buyAsset
  cases h.server.assets.lookup key with
  | none => exact .refl
  | some asset =>
    dsimp only
    split_ifs
    · exact .refl
    · exact .refl
    · exact h.plain_purchase key asset _

theorem plain_crossTransfer (dest : Hash) (amount : UInt64) (server : Bytes) :
    PlainWrites true h (h.crossTransfer dest amount server).2 := by
  unfold crossTransfer
  cases h.findPeer server with
  | none => exact .refl
  | some peer =>
    dsimp only
    split_ifs
    · exact .refl
    · refine plain_andThen h .refl fun h' =>
        plain_andThen h' (h'.plain_debitCaller _) fun h'' => ?_
      exact (h''.plain_creditKey _ _).tail ⟨.deferCrossXfer _, rfl⟩

theorem plain_l2call (disc : Bytes) (value : UInt64) (blob : Bytes) (followupKey : Hash)
    (followupBudget : UInt64) (followupTag : UInt32) :
    PlainWrites true h (h.l2call disc value blob followupKey followupBudget followupTag).2 := by
  unfold l2call
  cases h.server.l2Registry.lookup (UInt64.ofNat (beNat (disc.take 8))) with
  | none => exact .refl
  | some handler =>
    dsimp only
    split_ifs
    · exact .refl
    · exact plain_andThen h (h.plain_transfer _ _) fun h' =>
        .single ⟨.deferL2Call _, rfl⟩

/-! ### Gas, asset, alias and queue calls -/

variable {v : Bool}

theorem plain_refillGas (requested : UInt64) : PlainWrites false h (h.refillGas requested).2 := by
  unfold refillGas
  split_ifs with h0
  · exact .refl
  all_goals exact .single ⟨.refill _ h0, rfl⟩

theorem plain_createAsset (key : Hash) (content : AssetData) (days : UInt16) :
    PlainWrites v h (h.createAsset key content days).2 := by
  unfold createAsset
  split_ifs
  · exact .refl
  · exact .refl
  · exact .single ⟨.asset key _, rfl⟩

theorem plain_createAssetManaged (key : Hash) (content : AssetData) (days : UInt16) :
    PlainWrites v h (h.createAssetManaged key content days).2 := by
  unfold createAssetManaged
  split_ifs
  · exact .refl
  · exact .refl
  · exact .single ⟨.savedAsset key, rfl⟩
  · exact .single ⟨.asset key _, rfl⟩

theorem plain_createAssetRange (firstKey : Hash) (n : UInt32) (days : UInt16) :
    PlainWrites v h (h.createAssetRange firstKey n days).2 := by
  unfold createAssetRange
  split_ifs
  · exact .refl
  · -- one saved and written cell per step of the fold
    suffices hfold : ∀ (cells : List Nat) (h : VmHost),
        PlainWrites v h (cells.foldl (createRangeCell firstKey n.toNat days) h) from hfold _ h
    intro cells
    induction cells with
    | nil => exact fun h => .refl
    | cons i cells ih => exact fun h => .head ⟨.asset _ _, rfl⟩ (ih _)

theorem plain_writeAsset (key : Hash) (change : Asset → Asset) : PlainWrites v h (h.writeAsset key change).2 := by
  unfold writeAsset
  cases h.server.assets.lookup key with
  | none => exact .refl
  | some asset =>
    dsimp only
    split
    · exact .single ⟨.asset key _, rfl⟩
    · exact .refl

theorem plain_fundAsset (key : Hash) (days : UInt16) : PlainWrites v h (h.fundAsset key days).2 := by
  unfold fundAsset
  cases h.server.assets.lookup key with
  | none => exact .refl
  | some asset => exact .single ⟨.asset key _, rfl⟩

theorem plain_writeAlias (id : UInt32) (offset : Nat) (src : Bytes) :
    PlainWrites v h (h.writeAlias id offset src).2 := by
  unfold writeAlias
  cases h.server.aliases.lookup id with
  | none => split_ifs <;> exact .refl
  | some al =>
    dsimp only
    split_ifs <;> first | exact .refl | exact .single ⟨.patchAlias id _, rfl⟩

theorem writes_enqueueRun (run : ScheduledRun) (timeUs : UInt64) : Writes v h (h.enqueueRun run timeUs).2 := by
  unfold enqueueRun CesServer.scheduleRunUndoable
  split_ifs
  · exact .refl
  · exact .single (.enqueue run _)

theorem writes_scheduleAlias (aliasId : UInt32) (budget allowance : UInt64) (input : Bytes)
    (timeUs : UInt64) : Writes v h (h.scheduleAlias aliasId budget allowance input timeUs).2 := by
  unfold scheduleAlias
  split_ifs
  · exact .refl
  · cases h.server.aliases.lookup aliasId with
    | none => exact .refl
    | some al =>
      dsimp only
      split_ifs
      · exact .refl
      · exact h.writes_enqueueRun _ _

theorem writes_carved (childAllowance : UInt64) {queue : VmHost → Rc × VmHost}
    (hqueue : ∀ h, Writes v h (queue h).2) : Writes v h (h.carved childAllowance queue).2 := by
  unfold carved
  split_ifs
  · exact hqueue h
  · exact .refl
  · have htaken := (hqueue { h with allowance := h.allowance - childAllowance }).head (.allowance _)
    split
    · next heq => rwa [heq] at htaken
    · next heq =>
      rw [heq] at htaken
      exact htaken.tail (.allowance _)

end VmHost

/-! ### Calls that act at once -/

/-- The conditions under which `queueRpc` posts a request. -/
structure CesServer.AcceptsRpc (s : CesServer) (p : PendingRpc) : Prop where
  ready : s.rpcReady = true
  port : s.cfg.rpcPort ≠ 0 ∨ s.cfg.rpcAutoPort = true
  host : p.host ≠ [] ∧ p.host.length ≤ 255
  destPort : p.port ≠ 0
  room : s.rpcPendingCount < s.cfg.rpcMaxPending
  file : ∃ head body, s.assets.lookup p.fileHeadKey = some head ∧
    checkAssetWriteAuth head p.callerPrefix p.programOwnerPrefix p.selfAssetKey = .ok ∧
    readFileChunkBytes s.assets p.fileHeadKey s.cfg.rpcMaxRequestBytes = .ok body

/-- A request is either refused without a trace, or counted and posted. -/
theorem CesServer.queueRpc_cases (s : CesServer) (p : PendingRpc) :
    (¬ s.AcceptsRpc p ∧ (s.queueRpc p).2 = s) ∨
      (s.AcceptsRpc p ∧ ∃ body, (s.queueRpc p).2 =
        ({ s with rpcPendingCount := s.rpcPendingCount + 1 } : CesServer).emit
          (.rpcRequest { p with requestBody := body })) := by
  unfold queueRpc
  split_ifs with hready hhost hport hroom
  · left
    refine ⟨fun h => ?_, rfl⟩
    have h1 := h.ready
    have h2 := h.port
    simp_all
  · refine .inl ⟨fun h => ?_, rfl⟩
    obtain ⟨hne, hlen⟩ := h.host
    rcases hhost with hhost | hhost
    · exact hne hhost
    · omega
  · exact .inl ⟨fun h => h.destPort hport, rfl⟩
  · exact .inl ⟨fun h => by have := h.room; omega, rfl⟩
  · cases hhead : s.assets.lookup p.fileHeadKey with
    | none =>
      refine .inl ⟨fun h => ?_, rfl⟩
      obtain ⟨head, _, hlookup, _⟩ := h.file
      rw [hhead] at hlookup
      cases hlookup
    | some head =>
      dsimp only
      split
      · rename_i hauth
        cases hbody : readFileChunkBytes s.assets p.fileHeadKey s.cfg.rpcMaxRequestBytes with
        | error rc =>
          refine .inl ⟨fun h => ?_, rfl⟩
          obtain ⟨_, body, _, _, hread⟩ := h.file
          rw [hbody] at hread
          cases hread
        | ok body =>
          refine .inr ⟨⟨?_, ?_, ?_, hport, by omega, head, body, hhead, hauth, hbody⟩, body, rfl⟩
          · simp_all
          · simp_all
            tauto
          · simp_all
      · rename_i hauth
        refine .inl ⟨fun h => ?_, rfl⟩
        obtain ⟨head', _, hlookup, hok, _⟩ := h.file
        rw [hhead, Option.some.injEq] at hlookup
        subst hlookup
        exact hauth hok

namespace VmHost

/-- The call has no effect outside the maps and the deferred lists: it pushes to no client whose address
is known and its rpc request, if it is one, is refused. -/
def Defers (c : HostCall) (h : VmHost) : Prop :=
  match c with
  | .sendClient clientId _ => h.server.presence.lookup clientId = none
  | .rpc host port fileHeadKey followupProgramKey followupBudget followupInputTag =>
    ¬ h.server.AcceptsRpc
      (h.pendingRpc host port fileHeadKey followupProgramKey followupBudget followupInputTag)
  | _ => True

/-- One effect left the server; no cell was written. -/
structure Sent (h h' : VmHost) : Prop where
  host : h' = { h with server := h'.server }
  server : ∃ e n, h'.server = { h.server with outward := e :: h.server.outward, rpcPendingCount := n }

theorem sendClient_cases (h : VmHost) (clientId : HashPrefix) (data : Bytes) :
    (h.server.presence.lookup clientId = none ∧ (h.sendClient clientId data).2 = h) ∨
      (h.server.presence.lookup clientId ≠ none ∧ Sent h (h.sendClient clientId data).2) := by
  unfold sendClient CesServer.send
  cases h.server.presence.lookup clientId with
  | none => exact .inl ⟨rfl, rfl⟩
  | some addr => exact .inr ⟨by simp, rfl, _, _, rfl⟩

theorem rpc_cases (h : VmHost) (host : Bytes) (port : UInt16) (fileHeadKey followupProgramKey : Hash)
    (followupBudget : UInt64) (followupInputTag : UInt32) :
    let p := h.pendingRpc host port fileHeadKey followupProgramKey followupBudget followupInputTag
    let r := h.rpc host port fileHeadKey followupProgramKey followupBudget followupInputTag
    (¬ h.server.AcceptsRpc p ∧ r.2 = h) ∨ (h.server.AcceptsRpc p ∧ Sent h r.2) := by
  intro p r
  rcases h.server.queueRpc_cases p with ⟨hrefused, hsame⟩ | ⟨haccepted, body, hposted⟩
  · refine .inl ⟨hrefused, ?_⟩
    change { h with server := (h.server.queueRpc p).2 } = h
    rw [hsame]
  · exact .inr ⟨haccepted, rfl, _, _, hposted⟩

/-- What a call that queues no run can do. -/
theorem handle_plain {v : Bool} (c : HostCall) (h : VmHost) (hvalue : c.movesValue = true → v = true)
    (hgas : c.refills = true → v = false) (hqueue : c.queuesFor = none) :
    (Defers c h ∧ PlainWrites v h (handle c h).2) ∨
      (¬ Defers c h ∧ c.movesValue = false ∧ Sent h (handle c h).2) := by
  cases c with
  | sendClient clientId data =>
    rcases h.sendClient_cases clientId data with ⟨hnone, hsame⟩ | ⟨hsome, hsent⟩
    · refine .inl ⟨hnone, ?_⟩
      change PlainWrites _ h (h.sendClient clientId data).2
      rw [hsame]
    · exact .inr ⟨hsome, rfl, hsent⟩
  | rpc host port fileHeadKey followupProgramKey followupBudget followupInputTag =>
    rcases h.rpc_cases host port fileHeadKey followupProgramKey followupBudget followupInputTag with
      ⟨hrefused, hsame⟩ | ⟨haccepted, hsent⟩
    · refine .inl ⟨hrefused, ?_⟩
      change PlainWrites _ h (h.rpc host port fileHeadKey followupProgramKey followupBudget followupInputTag).2
      rw [hsame]
    · exact .inr ⟨not_not_intro haccepted, rfl, hsent⟩
  | readAccount id => exact .inl ⟨trivial, .refl⟩
  | readAlias id offset len => exact .inl ⟨trivial, .refl⟩
  | readAsset key => exact .inl ⟨trivial, .refl⟩
  | verifySig data sig pubkey => exact .inl ⟨trivial, .refl⟩
  | transfer dest amount =>
    obtain rfl := hvalue rfl
    exact .inl ⟨trivial, h.plain_transfer dest amount⟩
  | ownerTransfer dest amount =>
    obtain rfl := hvalue rfl
    exact .inl ⟨trivial, h.plain_ownerTransfer dest amount⟩
  | deposit amount =>
    obtain rfl := hvalue rfl
    exact .inl ⟨trivial, h.plain_deposit amount⟩
  | withdraw amount =>
    obtain rfl := hvalue rfl
    exact .inl ⟨trivial, h.plain_withdraw amount⟩
  | buyAsset key maxPrice =>
    obtain rfl := hvalue rfl
    exact .inl ⟨trivial, h.plain_buyAsset key maxPrice⟩
  | crossTransfer dest amount server =>
    obtain rfl := hvalue rfl
    exact .inl ⟨trivial, h.plain_crossTransfer dest amount server⟩
  | l2call disc value blob followupKey followupBudget followupTag =>
    obtain rfl := hvalue rfl
    exact .inl ⟨trivial, h.plain_l2call disc value blob followupKey followupBudget followupTag⟩
  | refillGas requested =>
    obtain rfl := hgas rfl
    exact .inl ⟨trivial, h.plain_refillGas requested⟩
  | createAsset key content days => exact .inl ⟨trivial, h.plain_createAsset key content days⟩
  | createAssetManaged key content days =>
    exact .inl ⟨trivial, h.plain_createAssetManaged key content days⟩
  | createAssetRange firstKey n days => exact .inl ⟨trivial, h.plain_createAssetRange firstKey n days⟩
  | updateAsset key content => exact .inl ⟨trivial, h.plain_writeAsset key _⟩
  | updateAssetMeta key newOwner price => exact .inl ⟨trivial, h.plain_writeAsset key _⟩
  | giveAsset key newOwner => exact .inl ⟨trivial, h.plain_writeAsset key _⟩
  | fundAsset key days => exact .inl ⟨trivial, h.plain_fundAsset key days⟩
  | sendUdp addr port data => exact .inl ⟨trivial, .single ⟨.deferUdp _, rfl⟩⟩
  | allowance => exact .inl ⟨trivial, .refl⟩
  | schedule assetId budget allowance input timeUs => exact nomatch hqueue
  | scheduleAlias aliasId budget allowance input timeUs => exact nomatch hqueue
  | writeAlias id offset src => exact .inl ⟨trivial, h.plain_writeAlias id offset src⟩

/-- What one host call can do; a call that neither moves value nor refills, under either flag. -/
theorem handle_writes {v : Bool} (c : HostCall) (h : VmHost) (hvalue : c.movesValue = true → v = true)
    (hgas : c.refills = true → v = false) :
    (Defers c h ∧ Writes v h (handle c h).2) ∨
      (¬ Defers c h ∧ c.movesValue = false ∧ Sent h (handle c h).2) := by
  by_cases hqueue : c.queuesFor = none
  · exact (handle_plain c h hvalue hgas hqueue).imp_left fun hplain => ⟨hplain.1, PlainWrites.writes hplain.2⟩
  · cases c with
    | schedule assetId budget allowance input timeUs =>
      exact .inl ⟨trivial, h.writes_carved allowance fun h => h.writes_enqueueRun _ _⟩
    | scheduleAlias aliasId budget allowance input timeUs =>
      exact .inl ⟨trivial, h.writes_carved allowance fun h => h.writes_scheduleAlias _ _ _ _ _⟩
    | _ => exact absurd rfl hqueue

theorem handle_cases (c : HostCall) (h : VmHost) :
    (Defers c h ∧ Writes c.movesValue h (handle c h).2) ∨
      (¬ Defers c h ∧ c.movesValue = false ∧ Sent h (handle c h).2) := by
  refine handle_writes c h id fun hgas => ?_
  cases c with
  | refillGas requested => rfl
  | _ => exact nomatch hgas

end VmHost

end Ces
