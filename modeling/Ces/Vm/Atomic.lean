import Ces.Vm.Writes

/-!
# Undoing a run

What one host call does to the server as a whole (`Step`): it pushes undo entries that take the ledger maps
back to what they were, and outside the maps it changes nothing but what it sends at once. `handle_step`
proves it for every call, primitive by primitive, and runs inherit it.
-/

namespace Ces

open Ces.Lib

/-- The maps the undo log covers. -/
structure LedgerMaps where
  accounts : FMap HashPrefix Account
  assets : FMap Hash Asset
  aliases : FMap UInt32 Alias
  runs : FMap ScheduleKey ScheduledRun

def CesServer.maps (s : CesServer) : LedgerMaps :=
  ⟨s.accounts.store, s.assets, s.aliases, s.scheduledRuns.runs⟩

namespace LedgerMaps

def undo (e : UndoEntry) (m : LedgerMaps) : LedgerMaps :=
  match e with
  | .account key old => { m with accounts := m.accounts.restore key old }
  | .asset key old => { m with assets := m.assets.restore key old }
  | .alias key old => { m with aliases := m.aliases.restore key old }
  | .schedule key => { m with runs := m.runs.erase key }

end LedgerMaps

theorem CesServer.maps_undo (e : UndoEntry) (s : CesServer) : (s.undo e).maps = s.maps.undo e := by
  cases e <;> rfl

theorem CesServer.maps_revert (log : List UndoEntry) (s : CesServer) :
    (revert CesServer.undo log s).maps = revert LedgerMaps.undo log s.maps := by
  induction log generalizing s with
  | nil => rfl
  | cons e log ih => rw [revert_cons, revert_cons, ih, CesServer.maps_undo]

/-- Outside the maps, reverting changes nothing. -/
theorem CesServer.revert_rest (log : List UndoEntry) (s : CesServer) :
    (revert CesServer.undo log s).accounts.totalCredits = s.accounts.totalCredits ∧
      (revert CesServer.undo log s).outward = s.outward ∧
      (revert CesServer.undo log s).rpcPendingCount = s.rpcPendingCount ∧
      (revert CesServer.undo log s).l2PendingCount = s.l2PendingCount := by
  induction log generalizing s with
  | nil => exact ⟨rfl, rfl, rfl, rfl⟩
  | cons e log ih =>
    rw [revert_cons]
    obtain ⟨h1, h2, h3, h4⟩ := ih (s.undo e)
    rw [h1, h2, h3, h4]
    cases e <;> exact ⟨rfl, rfl, rfl, rfl⟩

namespace VmHost

/-- The undo entries pushed on the way from `h` to `h'` take its maps back, and everything else of the
server stays, except for what was sent at once. -/
structure Step (h h' : VmHost) : Prop where
  logged : ∃ new, h'.undoLog = new ++ h.undoLog ∧
    Undoes LedgerMaps.undo h.server.maps new h'.server.maps
  rest : h'.server = { h.server with
    accounts.store := h'.server.accounts.store
    assets := h'.server.assets
    aliases := h'.server.aliases
    scheduledRuns := h'.server.scheduledRuns
    rpcPendingCount := h'.server.rpcPendingCount
    outward := h'.server.outward }
  identity : h'.caller = h.caller ∧ h'.programOwner = h.programOwner ∧ h'.callerKey = h.callerKey ∧
    h'.selfAssetKey = h.selfAssetKey ∧ h'.refillCeiling = h.refillCeiling

/-- Nothing was sent or posted. -/
structure Silent (h h' : VmHost) : Prop where
  outward : h'.server.outward = h.server.outward
  rpcPendingCount : h'.server.rpcPendingCount = h.server.rpcPendingCount

theorem Silent.refl (h : VmHost) : Silent h h := ⟨rfl, rfl⟩

theorem Silent.trans {h h' h'' : VmHost} (h1 : Silent h h') (h2 : Silent h' h'') : Silent h h'' :=
  ⟨h2.outward.trans h1.outward, h2.rpcPendingCount.trans h1.rpcPendingCount⟩

theorem Step.refl (h : VmHost) : Step h h :=
  ⟨⟨[], rfl, .refl _ _⟩, rfl, rfl, rfl, rfl, rfl, rfl⟩

theorem Step.trans {h h' h'' : VmHost} (h1 : Step h h') (h2 : Step h' h'') : Step h h'' := by
  obtain ⟨new, hlog, hundo⟩ := h1.logged
  obtain ⟨new', hlog', hundo'⟩ := h2.logged
  obtain ⟨a1, a2, a3, a4, a5⟩ := h1.identity
  obtain ⟨b1, b2, b3, b4, b5⟩ := h2.identity
  refine ⟨⟨new' ++ new, by rw [hlog', hlog, List.append_assoc], hundo.trans hundo'⟩, ?_,
    b1.trans a1, b2.trans a2, b3.trans a3, b4.trans a4, b5.trans a5⟩
  have hrest := h2.rest
  rw [h1.rest] at hrest
  exact hrest

/-! ### Primitive changes -/

theorem Write.step {v : Bool} {h h' : VmHost} (hw : Write v h h') : Step h h' := by
  cases hw with
  | account id acc =>
    refine ⟨⟨[.account id (h.findAccount id)], rfl, ?_⟩, rfl, rfl, rfl, rfl, rfl, rfl⟩
    change LedgerMaps.mk (FMap.restore (h.server.accounts.store.insert id acc) id
      (h.server.accounts.store.lookup id)) _ _ _ = _
    rw [FMap.restore_lookup_insert]
    rfl
  | asset key asset =>
    refine ⟨⟨[.asset key (h.server.assets.lookup key)], rfl, ?_⟩, rfl, rfl, rfl, rfl, rfl, rfl⟩
    change LedgerMaps.mk _ (FMap.restore (h.server.assets.insert key asset) key
      (h.server.assets.lookup key)) _ _ = _
    rw [FMap.restore_lookup_insert]
    rfl
  | savedAsset key =>
    refine ⟨⟨[.asset key (h.server.assets.lookup key)], rfl, ?_⟩, rfl, rfl, rfl, rfl, rfl, rfl⟩
    change LedgerMaps.mk _ (h.server.assets.restore key (h.server.assets.lookup key)) _ _ = _
    rw [FMap.restore_lookup_self]
    rfl
  | patchAlias id al =>
    refine ⟨⟨[.alias id (h.server.aliases.lookup id)], rfl, ?_⟩, rfl, rfl, rfl, rfl, rfl, rfl⟩
    change LedgerMaps.mk _ _ (FMap.restore (h.server.aliases.insert id al) id
      (h.server.aliases.lookup id)) _ = _
    rw [FMap.restore_lookup_insert]
    rfl
  | enqueue run timeUs =>
    refine ⟨⟨[.schedule ⟨timeUs, h.server.scheduledRuns.nextSeq⟩], rfl, ?_⟩, rfl, rfl, rfl, rfl, rfl, rfl⟩
    change LedgerMaps.mk _ _ _ ((h.server.scheduledRuns.enqueue timeUs run).erase _).runs = _
    rw [RunQueue.erase_enqueue]
    rfl
  | allowance | deferHook | deferCrossXfer | deferL2Call | deferUdp | refill =>
    exact ⟨⟨[], rfl, .refl _ _⟩, rfl, rfl, rfl, rfl, rfl, rfl⟩

theorem Write.silent {v : Bool} {h h' : VmHost} (hw : Write v h h') : Silent h h' := by
  cases hw <;> exact ⟨rfl, rfl⟩

theorem Writes.step {v : Bool} {h h' : VmHost} (hw : Writes v h h') : Step h h' := by
  induction hw with
  | refl => exact .refl h
  | tail _ hw ih => exact ih.trans hw.step

theorem Writes.silent {v : Bool} {h h' : VmHost} (hw : Writes v h h') : Silent h h' := by
  induction hw with
  | refl => exact .refl h
  | tail _ hw ih => exact ih.trans hw.silent

theorem Sent.step {h h' : VmHost} (hs : Sent h h') : Step h h' := by
  obtain ⟨e, n, hserver⟩ := hs.server
  rw [hs.host, hserver]
  exact ⟨⟨[], rfl, .refl _ _⟩, rfl, rfl, rfl, rfl, rfl, rfl⟩

/-! ### Calls -/

theorem handle_step (c : HostCall) (h : VmHost) : Step h (handle c h).2 := by
  rcases handle_cases c h with ⟨_, hwrites⟩ | ⟨_, _, hsent⟩
  · exact hwrites.step
  · exact hsent.step

theorem handle_silent {c : HostCall} {h : VmHost} (hc : Defers c h) : Silent h (handle c h).2 := by
  rcases handle_cases c h with ⟨_, hwrites⟩ | ⟨hsends, _⟩
  · exact hwrites.silent
  · exact absurd hc hsends

theorem handle_sends {c : HostCall} {h : VmHost} (hc : ¬ Defers c h) :
    h.server.outward.length < (handle c h).2.server.outward.length := by
  rcases handle_cases c h with ⟨hdefers, _⟩ | ⟨_, _, hsent⟩
  · exact absurd hdefers hc
  · obtain ⟨e, n, hserver⟩ := hsent.server
    rw [hserver]
    exact Nat.lt_succ_self _

end VmHost

end Ces
