import Ces.File.Rules
import Mathlib.Data.Finset.Sort
import Ces.Ledger.Completion

/-!
# Paid calls to instances

`cesplexL2Call` routes a paid call to one live instance and keeps it in a table keyed by the call's id until the
instance's frames or the sweep of the supervisor settle it. The instance a call was routed to is not part of the
table, and `handleChildFrame` hands on the frames of any instance, so who settles a call depends on what the other
instances send.
-/

namespace Ces

open Ces.Lib

def ipcTagL2CallIn : UInt8 := 0x1c
def ipcTagL2CallResult : UInt8 := 0x1d
def ipcTagL2CallReply : UInt8 := 0x1f
def l2CallTimeoutUs : UInt64 := 30000000

structure Instance where
  pid : UInt64
  sourceName : Bytes
  ownerPk : Hash
  programPubkey : Hash
  programPrivkey : Hash
  upfrontDeposit : UInt64
  startedAtUs : UInt64
  deriving DecidableEq

structure L2CallRequest where
  callId : UInt64
  payer : Hash
  value : UInt64
  blob : Bytes

/-- A call that waits for its instance. `payee` is the program key of the instance. -/
structure PendingL2 where
  payee : Hash
  delivered : Bool
  deadlineUs : UInt64
  deriving DecidableEq

/-- The part of the compute handler that paid calls use. `outbox` holds the frames for the instances, oldest first. -/
structure ComputeCalls where
  instances : FMap UInt64 Instance
  pendingL2 : FMap UInt64 PendingL2
  outbox : List (UInt64 × Bytes)

/-- One use of the callback of a call. -/
structure L2Settlement where
  callId : UInt64
  report : L2CallReport

/-- A frame without its length: tag, a correlation id of zero, body. -/
def makeFrame (tag : UInt8) (body : Bytes) : Bytes := tag :: 0 :: 0 :: body

/-- The instance a call is addressed to. -/
def L2CallRequest.pid (req : L2CallRequest) : UInt64 := UInt64.ofNat (beNat (req.blob.take 8))

def L2CallRequest.frameBody (req : L2CallRequest) : Bytes :=
  let payload := req.blob.drop 8
  beBytes 8 req.callId.toNat ++ beBytes 8 req.value.toNat ++ req.payer.bytes ++ beBytes 4 payload.length ++ payload

/-- The frames of a child that speak of paid calls. -/
inductive L2Frame where
  | result (callId : UInt64) (delivered : Bool)
  | reply (callId : UInt64) (data : Bytes)
  deriving DecidableEq

def L2Frame.callId : L2Frame → UInt64
  | .result callId _ => callId
  | .reply callId _ => callId

/-- What `handleChildFrame` reads of a frame. The payload begins after tag and correlation id. -/
def parseL2Frame (body : Bytes) : Option L2Frame :=
  match body with
  | tag :: _ :: _ :: payload =>
    let callId := UInt64.ofNat (beNat (payload.take 8))
    if tag = ipcTagL2CallResult then
      match payload.drop 8 with
      | [] => none
      | status :: _ => some (.result callId (status = 0))
    else if tag = ipcTagL2CallReply then
      if payload.length < 8 then none else some (.reply callId (payload.drop 8))
    else none
  | _ => none

namespace ComputeCalls

variable (h : ComputeCalls)

def cesplexL2Call (req : L2CallRequest) (now : UInt64) : Rc × ComputeCalls :=
  if req.blob.length < 8 then (.badInput, h)
  else
    match h.instances.lookup req.pid with
    | none => (.computeInstanceNotFound, h)
    | some inst =>
      (.ok,
        { h with
          outbox := h.outbox ++ [(req.pid, makeFrame ipcTagL2CallIn req.frameBody)]
          pendingL2 := h.pendingL2.insert req.callId ⟨inst.programPubkey, false, now + l2CallTimeoutUs⟩ })

def settle (callId : UInt64) (report : L2CallReport) : List L2Settlement × ComputeCalls :=
  ([⟨callId, report⟩], { h with pendingL2 := h.pendingL2.erase callId })

/-- A delivery is noted and waits for the reply; a refusal settles the call. -/
def l2Result (callId : UInt64) (delivered : Bool) : List L2Settlement × ComputeCalls :=
  match h.pendingL2.lookup callId with
  | none => ([], h)
  | some p =>
    if delivered then ([], { h with pendingL2 := h.pendingL2.insert callId { p with delivered := true } })
    else h.settle callId ⟨.noHandler, ByteArr.zero 32, []⟩

def l2Reply (callId : UInt64) (data : Bytes) : List L2Settlement × ComputeCalls :=
  match h.pendingL2.lookup callId with
  | none => ([], h)
  | some p => h.settle callId ⟨.delivered, p.payee, data⟩

/-- The report of a call whose deadline has passed. One that was delivered keeps the payment. -/
def swept (now callId : UInt64) : Option L2Settlement :=
  match h.pendingL2.lookup callId with
  | none => none
  | some p =>
    if now < p.deadlineUs then none
    else some ⟨callId, if p.delivered then ⟨.delivered, p.payee, []⟩ else ⟨.timeout, ByteArr.zero 32, []⟩⟩

def l2SweepTimeouts (now : UInt64) : List L2Settlement × ComputeCalls :=
  ((h.pendingL2.keys.sort (· ≤ ·)).filterMap (h.swept now),
    { h with pendingL2 := h.pendingL2.filterKeys fun callId => (h.swept now callId).isNone })

/-- A frame of a child, whichever it is. -/
def handleChildFrame (body : Bytes) : List L2Settlement × ComputeCalls :=
  match parseL2Frame body with
  | none => ([], h)
  | some (.result callId delivered) => h.l2Result callId delivered
  | some (.reply callId data) => h.l2Reply callId data

end ComputeCalls

/-! ### Histories -/

/-- What reaches the handler: a call from the host, a frame of the instance `pid`, the supervisor's tick, the start and
the end of an instance. -/
inductive ComputeEvent where
  | l2Call (req : L2CallRequest) (now : UInt64)
  | frame (pid : UInt64) (body : Bytes)
  | supervisorTick (now : UInt64)
  | started (inst : Instance)
  | killed (pid : UInt64)

namespace ComputeEvent

/-- The reports an event makes, and the handler after it. -/
def act (h : ComputeCalls) : ComputeEvent → List L2Settlement × ComputeCalls
  | l2Call req now => ([], (h.cesplexL2Call req now).2)
  | frame _ body => h.handleChildFrame body
  | supervisorTick now => h.l2SweepTimeouts now
  | started inst => ([], { h with instances := h.instances.insert inst.pid inst })
  | killed pid => ([], { h with instances := h.instances.erase pid })

/-- The event leaves the call `callId` to the instance `pid`: no frame of another one names it, and the host does
not use its id again. -/
def LeavesTo (callId pid : UInt64) : ComputeEvent → Prop
  | l2Call req _ => req.callId ≠ callId
  | frame sender body => (parseL2Frame body).map (·.callId) = some callId → sender = pid
  | _ => True

instance (callId pid : UInt64) (e : ComputeEvent) : Decidable (e.LeavesTo callId pid) := by
  cases e <;> unfold LeavesTo <;> infer_instance

/-- The instance says that it took the call. -/
def TakenBy (callId pid : UInt64) (e : ComputeEvent) : Prop :=
  ∃ body, e = frame pid body ∧ parseL2Frame body = some (.result callId true)

/-- The instance says that it has no handler for the call. -/
def RefusedBy (callId pid : UInt64) (e : ComputeEvent) : Prop :=
  ∃ body, e = frame pid body ∧ parseL2Frame body = some (.result callId false)

/-- The instance replies to the call. -/
def RepliedBy (callId pid : UInt64) (e : ComputeEvent) : Prop :=
  ∃ body data, e = frame pid body ∧ parseL2Frame body = some (.reply callId data)

/-- A tick at or after the deadline. -/
def Late (deadlineUs : UInt64) (e : ComputeEvent) : Prop := ∃ now, e = supervisorTick now ∧ deadlineUs ≤ now

end ComputeEvent

namespace ComputeCalls

/-- The handler after a history. -/
def runAll (h : ComputeCalls) (events : List ComputeEvent) : ComputeCalls := events.foldl (fun h e => (e.act h).2) h

/-- The reports of a history, each with the event that made it. -/
def log : ComputeCalls → List ComputeEvent → List (ComputeEvent × L2Settlement)
  | _, [] => []
  | h, e :: events => (e.act h).1.map (e, ·) ++ log (e.act h).2 events

/-- The reports of one call. -/
def reportsOf (callId : UInt64) (h : ComputeCalls) (events : List ComputeEvent) : List (ComputeEvent × L2Settlement) :=
  (h.log events).filter fun entry => entry.2.callId = callId

end ComputeCalls

/-- Why the call `callId`, routed to the instance `pid` with key `payee`, was settled by `e`. `taken` is whether the
instance had said that it took the call. -/
def L2CallReport.SettledBy (callId pid : UInt64) (payee : Hash) (deadlineUs : UInt64) (taken : Prop) (e : ComputeEvent)
    (rep : L2CallReport) : Prop :=
  match rep.outcome with
  | .delivered => rep.payee = payee ∧ (e.RepliedBy callId pid ∨ (e.Late deadlineUs ∧ taken))
  | .noHandler => e.RefusedBy callId pid
  | .timeout => e.Late deadlineUs

namespace ComputeCalls

variable {h : ComputeCalls} {callId pid : UInt64} {p : PendingL2} {e : ComputeEvent}

/-- The reports of one event about one call. -/
def told (callId : UInt64) (reports : List L2Settlement) : List L2Settlement :=
  reports.filter fun s => s.callId = callId

theorem reportsOf_cons (callId : UInt64) (h : ComputeCalls) (e : ComputeEvent) (events : List ComputeEvent) :
    h.reportsOf callId (e :: events) =
      (told callId (e.act h).1).map (e, ·) ++ (e.act h).2.reportsOf callId events := by
  simp [reportsOf, log, told, List.filter_append, List.filter_map, Function.comp_def]

/-- Reports made for distinct ids contain one for an id once. -/
theorem told_filterMap {l : List UInt64} (hnodup : l.Nodup) {f : UInt64 → Option L2Settlement}
    (hf : ∀ id s, f id = some s → s.callId = id) (callId : UInt64) :
    told callId (l.filterMap f) = if callId ∈ l then (f callId).toList else [] := by
  induction l with
  | nil => rfl
  | cons id rest ih =>
    obtain ⟨hfresh, hrest⟩ := List.nodup_cons.mp hnodup
    specialize ih hrest
    unfold told at *
    by_cases heq : callId = id
    · subst heq
      rw [if_neg hfresh] at ih
      rw [if_pos List.mem_cons_self]
      cases hval : f callId with
      | none =>
        rw [List.filterMap_cons_none hval, ih]
        rfl
      | some s =>
        rw [List.filterMap_cons_some hval, List.filter_cons_of_pos (by simpa using hf _ s hval), ih]
        rfl
    · have hmem : callId ∈ id :: rest ↔ callId ∈ rest := by simp [heq]
      simp only [hmem]
      rw [← ih]
      cases hval : f id with
      | none => rw [List.filterMap_cons_none hval]
      | some s =>
        rw [List.filterMap_cons_some hval, List.filter_cons_of_neg]
        rw [hf id s hval]
        simpa using Ne.symm heq

theorem callId_swept {now id : UInt64} {s : L2Settlement} (hs : h.swept now id = some s) : s.callId = id := by
  unfold swept at hs
  cases hp : h.pendingL2.lookup id with
  | none => simp [hp] at hs
  | some p =>
    simp only [hp] at hs
    split_ifs at hs <;> exact (Option.some.inj hs) ▸ rfl

theorem told_sweep (h : ComputeCalls) (now callId : UInt64) :
    told callId (h.l2SweepTimeouts now).1 = (h.swept now callId).toList := by
  unfold l2SweepTimeouts
  rw [told_filterMap (Finset.sort_nodup _ _) (fun id s => callId_swept)]
  split_ifs with hmem
  · rfl
  · have hnone : h.pendingL2.lookup callId = none := by
      rw [Finset.mem_sort, Finmap.mem_keys] at hmem
      exact Finmap.lookup_eq_none.mpr hmem
    simp [swept, hnone]

/-- What an event can do to a pending call: leave it pending, perhaps noted as delivered, or report it once. -/
def Handles (callId pid : UInt64) (p : PendingL2) (e : ComputeEvent) (r : List L2Settlement × ComputeCalls) : Prop :=
  (told callId r.1 = [] ∧ ¬ e.Late p.deadlineUs ∧
    ∃ delivered, r.2.pendingL2.lookup callId = some { p with delivered := delivered } ∧
      (delivered = true → p.delivered = true ∨ e.TakenBy callId pid)) ∨
  (∃ rep, told callId r.1 = [⟨callId, rep⟩] ∧ r.2.pendingL2.lookup callId = none ∧
    rep.SettledBy callId pid p.payee p.deadlineUs (p.delivered = true) e)

theorem handles_of_same {r : List L2Settlement × ComputeCalls} (hlate : ¬ e.Late p.deadlineUs)
    (htold : told callId r.1 = []) (hlookup : r.2.pendingL2.lookup callId = some p) : Handles callId pid p e r :=
  .inl ⟨htold, hlate, p.delivered, hlookup, .inl⟩

/-- A frame about another call leaves this one alone. -/
theorem frame_other {body : Bytes} (hbody : (parseL2Frame body).map (·.callId) ≠ some callId) :
    told callId (h.handleChildFrame body).1 = [] ∧
      (h.handleChildFrame body).2.pendingL2.lookup callId = h.pendingL2.lookup callId := by
  unfold handleChildFrame
  cases hframe : parseL2Frame body with
  | none => exact ⟨rfl, rfl⟩
  | some fr =>
    rw [hframe] at hbody
    cases fr with
    | result id delivered =>
      have hne : id ≠ callId := fun heq => hbody (congrArg some heq)
      dsimp only [l2Result]
      cases h.pendingL2.lookup id with
      | none => exact ⟨rfl, rfl⟩
      | some q =>
        dsimp only
        split_ifs
        · exact ⟨rfl, Finmap.lookup_insert_of_ne _ hne.symm⟩
        · exact ⟨by simpa [settle, told] using hne, Finmap.lookup_erase_ne hne.symm⟩
    | reply id data =>
      have hne : id ≠ callId := fun heq => hbody (congrArg some heq)
      dsimp only [l2Reply]
      cases h.pendingL2.lookup id with
      | none => exact ⟨rfl, rfl⟩
      | some q => exact ⟨by simpa [settle, told] using hne, Finmap.lookup_erase_ne hne.symm⟩

theorem not_late_frame (sender : UInt64) (body : Bytes) (deadlineUs : UInt64) :
    ¬ (ComputeEvent.frame sender body).Late deadlineUs := by
  rintro ⟨now, heq, -⟩
  cases heq

/-- A frame of the instance about its call. -/
theorem handles_frame {body : Bytes} (hp : h.pendingL2.lookup callId = some p) {fr : L2Frame}
    (hframe : parseL2Frame body = some fr) (hid : fr.callId = callId) :
    Handles callId pid p (.frame pid body) (h.handleChildFrame body) := by
  unfold handleChildFrame
  rw [hframe]
  cases fr with
  | result id delivered =>
    obtain rfl : id = callId := hid
    dsimp only [l2Result]
    rw [hp]
    cases delivered with
    | true =>
      refine .inl ⟨rfl, not_late_frame _ _ _, true, Finmap.lookup_insert _, fun _ => .inr ⟨body, rfl, hframe⟩⟩
    | false =>
      refine .inr ⟨⟨.noHandler, ByteArr.zero 32, []⟩, ?_, Finmap.lookup_erase _ _, body, rfl, hframe⟩
      simp [settle, told]
  | reply id data =>
    obtain rfl : id = callId := hid
    dsimp only [l2Reply]
    rw [hp]
    refine .inr ⟨⟨.delivered, p.payee, data⟩, ?_, Finmap.lookup_erase _ _, rfl, .inl ⟨body, data, rfl, hframe⟩⟩
    simp [settle, told]

/-- The sweep reports a call when its deadline has passed. -/
theorem handles_sweep (hp : h.pendingL2.lookup callId = some p) (now : UInt64) :
    Handles callId pid p (.supervisorTick now) (h.l2SweepTimeouts now) := by
  unfold Handles
  rw [told_sweep]
  have hlookup : (h.l2SweepTimeouts now).2.pendingL2.lookup callId =
      if (h.swept now callId).isNone = true then some p else none := by
    rw [← hp]
    exact FMap.lookup_filterKeys _ _ _
  rw [hlookup]
  by_cases hearly : now < p.deadlineUs
  · have hswept : h.swept now callId = none := by
      simp only [swept, hp, if_pos hearly]
    rw [hswept]
    refine .inl ⟨rfl, ?_, p.delivered, rfl, .inl⟩
    rintro ⟨now', hnow, hlate⟩
    obtain rfl : now = now' := by simpa using hnow
    exact UInt64.not_le.mpr hearly hlate
  · have hswept : h.swept now callId = some ⟨callId,
        if p.delivered then ⟨.delivered, p.payee, []⟩ else ⟨.timeout, ByteArr.zero 32, []⟩⟩ := by
      simp only [swept, hp, if_neg hearly]
    rw [hswept]
    have hlate : (ComputeEvent.supervisorTick now).Late p.deadlineUs := ⟨now, rfl, UInt64.not_lt.mp hearly⟩
    refine .inr ⟨_, rfl, rfl, ?_⟩
    cases p.delivered with
    | true => exact ⟨rfl, .inr ⟨hlate, rfl⟩⟩
    | false => exact hlate

/-- Accepting another call leaves this one alone. -/
theorem lookup_cesplexL2Call (h : ComputeCalls) {req : L2CallRequest} (hne : req.callId ≠ callId) (now : UInt64) :
    (h.cesplexL2Call req now).2.pendingL2.lookup callId = h.pendingL2.lookup callId := by
  unfold cesplexL2Call
  split_ifs
  · rfl
  · cases h.instances.lookup req.pid with
    | none => rfl
    | some inst => exact Finmap.lookup_insert_of_ne _ hne.symm

/-- A call that is accepted is pending, for the instance it names. -/
theorem pending_of_accepted {req : L2CallRequest} {now : UInt64} (hok : (h.cesplexL2Call req now).1 = .ok) :
    ∃ inst, h.instances.lookup req.pid = some inst ∧ (h.cesplexL2Call req now).2.pendingL2.lookup req.callId =
      some ⟨inst.programPubkey, false, now + l2CallTimeoutUs⟩ := by
  unfold cesplexL2Call at *
  split_ifs at hok ⊢ with hshort
  cases hinst : h.instances.lookup req.pid with
  | none => simp [hinst] at hok
  | some inst => exact ⟨inst, rfl, Finmap.lookup_insert _⟩

/-- One event, on a call that is pending. -/
theorem handles_act (hp : h.pendingL2.lookup callId = some p) (he : e.LeavesTo callId pid) :
    Handles callId pid p e (e.act h) := by
  cases e with
  | l2Call req now =>
    refine handles_of_same ?_ rfl ((h.lookup_cesplexL2Call he now).trans hp)
    rintro ⟨now', heq, -⟩
    cases heq
  | started inst =>
    refine handles_of_same ?_ rfl hp
    rintro ⟨now', heq, -⟩
    cases heq
  | killed gone =>
    refine handles_of_same ?_ rfl hp
    rintro ⟨now', heq, -⟩
    cases heq
  | supervisorTick now => exact handles_sweep hp now
  | frame sender body =>
    by_cases hnamed : (parseL2Frame body).map (·.callId) = some callId
    · obtain ⟨fr, hframe, hid⟩ := Option.map_eq_some_iff.mp hnamed
      obtain rfl : sender = pid := he hnamed
      exact handles_frame hp hframe hid
    · obtain ⟨htold, hlookup⟩ := @frame_other h callId body hnamed
      exact handles_of_same (not_late_frame _ _ _) htold (hlookup.trans hp)

/-- One event, on a call that is not pending. -/
theorem silent_act (hnone : h.pendingL2.lookup callId = none) (he : e.LeavesTo callId pid) :
    told callId (e.act h).1 = [] ∧ (e.act h).2.pendingL2.lookup callId = none := by
  cases e with
  | l2Call req now => exact ⟨rfl, (h.lookup_cesplexL2Call he now).trans hnone⟩
  | started inst => exact ⟨rfl, hnone⟩
  | killed gone => exact ⟨rfl, hnone⟩
  | supervisorTick now =>
    have hswept : h.swept now callId = none := by
      unfold swept
      rw [hnone]
    refine ⟨?_, ?_⟩
    · exact (h.told_sweep now callId).trans (congrArg Option.toList hswept)
    · refine (FMap.lookup_filterKeys _ _ _).trans ?_
      rw [hnone]
      split_ifs <;> rfl
  | frame sender body =>
    by_cases hnamed : (parseL2Frame body).map (·.callId) = some callId
    · obtain ⟨fr, hframe, hid⟩ := Option.map_eq_some_iff.mp hnamed
      simp only [ComputeEvent.act, handleChildFrame, hframe]
      cases fr with
      | result id delivered =>
        obtain rfl : id = callId := hid
        simp [l2Result, hnone, told]
      | reply id data =>
        obtain rfl : id = callId := hid
        simp [l2Reply, hnone, told]
    · obtain ⟨htold, hlookup⟩ := @frame_other h callId body hnamed
      exact ⟨htold, hlookup.trans hnone⟩

/-- A call that is not pending stays so, without a report. -/
theorem silent_runAll {events : List ComputeEvent} (hnone : h.pendingL2.lookup callId = none)
    (hevents : ∀ e ∈ events, e.LeavesTo callId pid) :
    h.reportsOf callId events = [] ∧ (h.runAll events).pendingL2.lookup callId = none := by
  induction events generalizing h with
  | nil => exact ⟨rfl, hnone⟩
  | cons e rest ih =>
    obtain ⟨htold, hnone'⟩ := silent_act hnone (hevents e List.mem_cons_self)
    obtain ⟨hreports, hlast⟩ := ih hnone' fun e' he' => hevents e' (List.mem_cons_of_mem e he')
    refine ⟨?_, hlast⟩
    rw [reportsOf_cons, htold, hreports]
    rfl

theorem settledBy_mono {deadlineUs : UInt64} {payee : Hash} {taken taken' : Prop} {rep : L2CallReport}
    (hrep : rep.SettledBy callId pid payee deadlineUs taken e) (himp : taken → taken') :
    rep.SettledBy callId pid payee deadlineUs taken' e := by
  unfold L2CallReport.SettledBy at *
  cases hout : rep.outcome with
  | delivered =>
    rw [hout] at hrep
    exact ⟨hrep.1, hrep.2.imp_right fun hlate => ⟨hlate.1, himp hlate.2⟩⟩
  | noHandler =>
    rw [hout] at hrep
    exact hrep
  | timeout =>
    rw [hout] at hrep
    exact hrep

/-- A pending call stays pending without a report before its deadline, or it is reported once. -/
theorem pending_runAll {events : List ComputeEvent} (hp : h.pendingL2.lookup callId = some p)
    (hevents : ∀ e ∈ events, e.LeavesTo callId pid) :
    (h.reportsOf callId events = [] ∧ (h.runAll events).pendingL2.lookup callId ≠ none ∧
      ∀ e ∈ events, ¬ e.Late p.deadlineUs) ∨
    (∃ e ∈ events, ∃ rep, h.reportsOf callId events = [(e, ⟨callId, rep⟩)] ∧
      (h.runAll events).pendingL2.lookup callId = none ∧
      rep.SettledBy callId pid p.payee p.deadlineUs
        (p.delivered = true ∨ ∃ e' ∈ events, e'.TakenBy callId pid) e) := by
  induction events generalizing h p with
  | nil => exact .inl ⟨rfl, by simp [runAll, hp], by simp⟩
  | cons e rest ih =>
    have hrest : ∀ e' ∈ rest, e'.LeavesTo callId pid := fun e' he' => hevents e' (List.mem_cons_of_mem e he')
    rw [reportsOf_cons]
    rcases handles_act hp (hevents e List.mem_cons_self) with
      ⟨htold, hlate, delivered, hp', htaken⟩ | ⟨rep, htold, hnone, hrep⟩
    · rw [htold]
      rcases ih hp' hrest with ⟨hreports, hpending, hlates⟩ | ⟨e', he', rep, hreports, hnone, hrep⟩
      · refine .inl ⟨hreports, hpending, fun e' he' => ?_⟩
        rcases List.mem_cons.mp he' with rfl | he'
        · exact hlate
        · exact hlates e' he'
      · refine .inr ⟨e', List.mem_cons_of_mem e he', rep, hreports, hnone, settledBy_mono hrep ?_⟩
        rintro (hdelivered | ⟨e'', he'', htaken'⟩)
        · rcases htaken hdelivered with hbefore | hnow
          · exact .inl hbefore
          · exact .inr ⟨e, List.mem_cons_self, hnow⟩
        · exact .inr ⟨e'', List.mem_cons_of_mem e he'', htaken'⟩
    · obtain ⟨hreports, hlast⟩ := silent_runAll hnone hrest
      refine .inr ⟨e, List.mem_cons_self, rep, ?_, hlast, settledBy_mono hrep .inl⟩
      rw [htold, hreports]
      rfl

end ComputeCalls

/-- A call that was accepted for the instance `req.pid`, and any history in which frames of other instances do not name
it: it is pending without a report and no tick came at or after its deadline, or it was reported exactly once, and then
by a frame of that instance or by such a tick. A tick pays the instance only if the instance had taken the call. -/
theorem l2call_settled_by_target (h : ComputeCalls) (req : L2CallRequest) (now : UInt64) (later : List ComputeEvent)
    (hok : (h.cesplexL2Call req now).1 = .ok) (hlater : ∀ e ∈ later, e.LeavesTo req.callId req.pid) :
    let accepted := (h.cesplexL2Call req now).2
    ∃ inst, h.instances.lookup req.pid = some inst ∧
      ((accepted.reportsOf req.callId later = [] ∧ (accepted.runAll later).pendingL2.lookup req.callId ≠ none ∧
          ∀ e ∈ later, ¬ e.Late (now + l2CallTimeoutUs)) ∨
        (∃ e ∈ later, ∃ rep, accepted.reportsOf req.callId later = [(e, ⟨req.callId, rep⟩)] ∧
          (accepted.runAll later).pendingL2.lookup req.callId = none ∧
          rep.SettledBy req.callId req.pid inst.programPubkey (now + l2CallTimeoutUs)
            (∃ e' ∈ later, e'.TakenBy req.callId req.pid) e)) := by
  intro accepted
  obtain ⟨inst, hinst, hp⟩ := ComputeCalls.pending_of_accepted hok
  refine ⟨inst, hinst, ?_⟩
  rcases ComputeCalls.pending_runAll hp hlater with hpending | ⟨e, he, rep, hreports, hnone, hrep⟩
  · exact .inl hpending
  · exact .inr ⟨e, he, rep, hreports, hnone, ComputeCalls.settledBy_mono hrep fun htaken => by simpa using htaken⟩

/-! ### Another instance settles the call -/

/-- Two instances: the one with process id 1 is called, the one with process id 2 is not. -/
def twoInstances : ComputeCalls where
  instances :=
    ((∅ : FMap UInt64 Instance).insert 1 ⟨1, [], ownerKey, programKey, programKey, 0, 0⟩).insert 2
      ⟨2, [], ownerKey, ownerKey, ownerKey, 0, 0⟩
  pendingL2 := ∅
  outbox := []

/-- Call 7, for the first instance. -/
def callOfOne : L2CallRequest := ⟨7, ownerKey, 1000, [0, 0, 0, 0, 0, 0, 0, 1]⟩

def replyToSeven : Bytes := makeFrame ipcTagL2CallReply [0, 0, 0, 0, 0, 0, 0, 7]

def refusalOfSeven : Bytes := makeFrame ipcTagL2CallResult [0, 0, 0, 0, 0, 0, 0, 7, 1]

/-- The second instance has the first one paid, or the call refunded, without the first one saying anything. -/
theorem l2call_settled_by_stranger :
    let accepted := (twoInstances.cesplexL2Call callOfOne 0).2
    (twoInstances.cesplexL2Call callOfOne 0).1 = .ok ∧
      ((accepted.reportsOf 7 [.frame 2 replyToSeven]).map fun entry =>
        (entry.2.report.outcome, entry.2.report.payee)) = [(.delivered, programKey)] ∧
      ((accepted.reportsOf 7 [.frame 2 refusalOfSeven]).map fun entry => entry.2.report.outcome) = [.noHandler] := by
  decide +kernel

/-- The called instance replies: its program is paid. -/
theorem l2call_settled_by_reply :
    let accepted := (twoInstances.cesplexL2Call callOfOne 0).2
    ∃ inst, twoInstances.instances.lookup callOfOne.pid = some inst ∧
      ((accepted.reportsOf 7 [.frame 1 replyToSeven] = [] ∧
          (accepted.runAll [.frame 1 replyToSeven]).pendingL2.lookup 7 ≠ none ∧
          ∀ e ∈ [ComputeEvent.frame 1 replyToSeven], ¬ e.Late (0 + l2CallTimeoutUs)) ∨
        (∃ e ∈ [ComputeEvent.frame 1 replyToSeven], ∃ rep,
          accepted.reportsOf 7 [.frame 1 replyToSeven] = [(e, ⟨7, rep⟩)] ∧
          (accepted.runAll [.frame 1 replyToSeven]).pendingL2.lookup 7 = none ∧
          rep.SettledBy 7 callOfOne.pid inst.programPubkey (0 + l2CallTimeoutUs)
            (∃ e' ∈ [ComputeEvent.frame 1 replyToSeven], e'.TakenBy 7 callOfOne.pid) e)) :=
  l2call_settled_by_target twoInstances callOfOne 0 [.frame 1 replyToSeven] (by decide +kernel) (by decide +kernel)

end Ces
