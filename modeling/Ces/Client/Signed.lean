import Ces.Client.Settlement

/-!
# Signed calls of the client

`CesClient` sends a signed request and waits for a result of the same kind. The thread that reads the socket copies
each result of the server over the last one of its kind and counts it; the caller polls until the count has moved and
what lies there carries its nonce, or for some kinds its own account, and then reads the code and the outputs one after
the other. Nothing in a result says which request it answers, and a request that failed or carries no nonce leaves the
next one with the same identity.

`answers` records the results the server made, each with the number of the request it answers. Only `Undisturbed`, the
condition on what the network delivers, looks at that number.
-/

namespace Ces

open Ces.Lib

/-- The operations that send a request with `sendSigned` and are served by a result of their own kind. -/
inductive SignedKind where
  | transfer
  | openTransfer
  | createPayment
  | crossTransfer
  | bulkTransfer
  | runAsset
  | runAlias
  | gossip
  deriving DecidableEq

/-- What a call hands back besides its code. -/
inductive SignedOutputs where
  | balance (newOriginBal : Int)
  | bulk (newOriginBal : Int) (successfulCount : UInt8)
  | run (vmError budgetUsed : UInt64) (output : Bytes)
  | nothing
  deriving DecidableEq

def bulkCountUnknown : UInt8 := 0xff

/-- The outputs of a call that ends without a result. A run leaves those of its caller as they are, here zeros. -/
def SignedKind.unset (rc : UInt8) : SignedKind → SignedOutputs
  | transfer | openTransfer | createPayment | crossTransfer => .balance (2 ^ 63 - 1)
  | bulkTransfer => .bulk (2 ^ 63 - 1) (if rc = cesErrorTimeout then bulkCountUnknown else 0)
  | runAsset | runAlias => .run 0 0 []
  | gossip => .nothing

/-- A result of the server. The results of transfers carry no origin, those of gossip no nonce. -/
structure SignedResult where
  kind : SignedKind
  originId : HashPrefix
  reqNonce : UInt32
  rcode : UInt8
  outputs : SignedOutputs
  deriving DecidableEq

structure ClientRequest where
  id : Nat
  kind : SignedKind
  nonceless : Bool
  reqNonce : UInt32
  deriving DecidableEq

/-- The members a result is copied to, and the counter of its kind. -/
structure ResultSlot where
  gen : UInt64
  result : SignedResult

/-- Where `sendSigned` and its caller are: polling, after a poll that succeeded, after the code was read. -/
inductive CallPhase where
  | waiting (tries : Nat)
  | matched
  | coded (rc : UInt8)

structure ActiveCall where
  req : ClientRequest
  g : UInt64
  phase : CallPhase

structure ReturnedCall where
  id : Nat
  rc : UInt8
  outputs : SignedOutputs
  deriving DecidableEq

/-- The client, with the requests it sent, the results the server made for them, and what its calls returned. -/
structure CesClient where
  myId : HashPrefix
  tries : Nat
  slots : SignedKind → ResultSlot
  active : Option ActiveCall
  sent : List ClientRequest
  answers : List (Nat × SignedResult)
  returned : List ReturnedCall
  nextId : Nat

def CesClient.create (myId : HashPrefix) (tries : Nat) : CesClient :=
  ⟨myId, tries, fun kind => ⟨0, ⟨kind, ByteArr.zero 8, 0, 0, .nothing⟩⟩, none, [], [], [], 0⟩

/-- `matchFn` of the operations, on the members a result was copied to. -/
def ClientRequest.matchFn (myId : HashPrefix) (req : ClientRequest) (r : SignedResult) : Bool :=
  match req.kind with
  | .transfer | .openTransfer | .createPayment | .crossTransfer | .bulkTransfer => r.reqNonce == req.reqNonce
  | .runAsset | .runAlias =>
    if req.nonceless then r.originId == myId else r.reqNonce == req.reqNonce && r.originId == myId
  | .gossip => r.originId == myId

/-- What an honest server may answer to a request: a result of its kind, with its nonce unless the server assigned
one. -/
def ClientRequest.AnsweredBy (myId : HashPrefix) (req : ClientRequest) (r : SignedResult) : Prop :=
  r.kind = req.kind ∧ r.originId = myId ∧ (req.nonceless = false → r.reqNonce = req.reqNonce)

instance (myId : HashPrefix) (req : ClientRequest) (r : SignedResult) : Decidable (req.AnsweredBy myId r) :=
  inferInstanceAs (Decidable (_ ∧ _ ∧ _))

inductive SignedEvent where
  /-- An operation is called. There is no nonce when the ticket or the nonce could not be had. -/
  | call (kind : SignedKind) (nonceless : Bool) (reqNonce : Option UInt32)
  /-- A copy of a request reaches the server. -/
  | serve (id : Nat) (r : SignedResult)
  /-- A result the server made for a request reaches the client. -/
  | deliver (id : Nat) (r : SignedResult)
  /-- The caller polls. -/
  | poll
  /-- A wait has run out. -/
  | expire
  | interrupt
  | readCode
  | readOutputs

namespace CesClient

variable (c : CesClient)

/-- The active call returns. -/
def finish (id : Nat) (rc : UInt8) (outputs : SignedOutputs) : CesClient :=
  { c with active := none, returned := ⟨id, rc, outputs⟩ :: c.returned }

/-- `ensureServerTicket`, `getMyNonce` and the start of `sendSigned`, up to the first send. -/
def call (kind : SignedKind) (nonceless : Bool) : Option UInt32 → CesClient
  | none => { c with nextId := c.nextId + 1 }.finish c.nextId cesErrorInternal (kind.unset cesErrorInternal)
  | some reqNonce =>
    let req : ClientRequest := ⟨c.nextId, kind, nonceless, reqNonce⟩
    { c with
      nextId := c.nextId + 1
      sent := req :: c.sent
      active := some ⟨req, (c.slots kind).gen, .waiting c.tries⟩ }

/-- `handleSigned` of `incomingMessage`: copy the result and count it. -/
def incomingMessage (r : SignedResult) : CesClient :=
  { c with slots := Function.update c.slots r.kind ⟨(c.slots r.kind).gen + 1, r⟩ }

/-- One evaluation of the predicate of `waitFor`. -/
def poll (a : ActiveCall) : CesClient :=
  let slot := c.slots a.req.kind
  if a.g < slot.gen ∧ a.req.matchFn c.myId slot.result then { c with active := some { a with phase := .matched } }
    else c

/-- The next try of `sendSigned`, or the end of the last one. -/
def expire (a : ActiveCall) (tries : Nat) : CesClient :=
  if tries ≤ 1 then c.finish a.req.id cesErrorTimeout (a.req.kind.unset cesErrorTimeout)
  else { c with active := some { a with phase := .waiting (tries - 1) } }

/-- The end of the operations: outputs are read unless the code is one of the client's own errors. -/
def readOutputs (a : ActiveCall) (rc : UInt8) : CesClient :=
  c.finish a.req.id rc
    (if rc ≠ cesErrorInternal ∧ rc ≠ cesErrorTimeout then (c.slots a.req.kind).result.outputs else a.req.kind.unset rc)

end CesClient

/-- One event. Those that do not fit the state of the client change nothing. -/
def SignedEvent.act (e : SignedEvent) (c : CesClient) : CesClient :=
  match e, c.active with
  | .call kind nonceless reqNonce, none => c.call kind nonceless reqNonce
  | .serve id r, _ =>
    if ∃ req ∈ c.sent, req.id = id ∧ req.AnsweredBy c.myId r then { c with answers := (id, r) :: c.answers } else c
  | .deliver id r, _ => if (id, r) ∈ c.answers then c.incomingMessage r else c
  | .poll, some ⟨req, g, .waiting tries⟩ => c.poll ⟨req, g, .waiting tries⟩
  | .expire, some ⟨req, g, .waiting tries⟩ => c.expire ⟨req, g, .waiting tries⟩ tries
  | .interrupt, some ⟨req, _, .waiting _⟩ => c.finish req.id cesErrorInternal (req.kind.unset cesErrorInternal)
  | .readCode, some ⟨req, g, .matched⟩ =>
    { c with active := some ⟨req, g, .coded (c.slots req.kind).result.rcode⟩ }
  | .readOutputs, some ⟨req, g, .coded rc⟩ => c.readOutputs ⟨req, g, .coded rc⟩ rc
  | _, _ => c

def CesClient.runSigned (c : CesClient) (events : List SignedEvent) : CesClient := events.foldl (fun c e => e.act c) c

/-- A delivery does not disturb the active call: a result of its kind answers this request if it has the identity the
call waits for, and none comes between the poll that succeeds and the return. -/
def CesClient.DeliversTo (c : CesClient) (id : Nat) (r : SignedResult) (a : ActiveCall) : Prop :=
  r.kind = a.req.kind →
    match a.phase with
    | .waiting _ => a.req.matchFn c.myId r = true → id = a.req.id
    | .matched | .coded _ => False

def SignedEvent.Undisturbed (e : SignedEvent) (c : CesClient) : Prop :=
  match e with
  | .deliver id r => ∀ a ∈ c.active, c.DeliversTo id r a
  | _ => True

/-! ### What the active call sees -/

/-- What lies in the slot of a call: while it waits, either nothing new or a result that is its own if it matches;
afterwards its own result, with the code that was read. -/
def ActiveCall.Sees (a : ActiveCall) (myId : HashPrefix) (answers : List (Nat × SignedResult)) (slot : ResultSlot) :
    Prop :=
  match a.phase with
  | .waiting _ => slot.gen = a.g ∨ (a.req.matchFn myId slot.result = true → (a.req.id, slot.result) ∈ answers)
  | .matched => (a.req.id, slot.result) ∈ answers
  | .coded rc => (a.req.id, slot.result) ∈ answers ∧ slot.result.rcode = rc

/-- A call that returned neither of the client's own errors returned a result of its request. -/
def ReturnedCall.Own (ret : ReturnedCall) (answers : List (Nat × SignedResult)) : Prop :=
  ret.rc ≠ cesErrorInternal → ret.rc ≠ cesErrorTimeout →
    ∃ r, (ret.id, r) ∈ answers ∧ ret.rc = r.rcode ∧ ret.outputs = r.outputs

/-- More results of the server take nothing from a call. -/
theorem ActiveCall.Sees.mono {a : ActiveCall} {myId : HashPrefix} {answers answers' : List (Nat × SignedResult)}
    {slot : ResultSlot} (hsub : answers ⊆ answers') (h : a.Sees myId answers slot) : a.Sees myId answers' slot := by
  unfold ActiveCall.Sees at *
  cases hphase : a.phase with
  | waiting tries =>
    rw [hphase] at h
    exact h.imp_right fun hmine hmatch => hsub (hmine hmatch)
  | matched =>
    rw [hphase] at h
    exact hsub h
  | coded rc =>
    rw [hphase] at h
    exact ⟨hsub h.1, h.2⟩

structure CesClient.Owns (c : CesClient) : Prop where
  active : ∀ a ∈ c.active, a.Sees c.myId c.answers (c.slots a.req.kind)
  returned : ∀ ret ∈ c.returned, ret.Own c.answers

namespace CesClient

variable {c : CesClient}

theorem owns_create (myId : HashPrefix) (tries : Nat) : (create myId tries).Owns where
  active _ ha := by simp [create] at ha
  returned _ hret := by simp [create] at hret

/-- The call that returns brings its own result, or one of the client's own errors. -/
theorem Owns.finish (h : c.Owns) {id : Nat} {rc : UInt8} {outputs : SignedOutputs}
    (hret : ReturnedCall.Own ⟨id, rc, outputs⟩ c.answers) : (c.finish id rc outputs).Owns where
  active _ ha := by simp [CesClient.finish] at ha
  returned := List.forall_mem_cons.mpr ⟨hret, h.returned⟩

theorem own_internal (id : Nat) (outputs : SignedOutputs) :
    ReturnedCall.Own ⟨id, cesErrorInternal, outputs⟩ c.answers :=
  fun h => absurd rfl h

theorem own_timeout (id : Nat) (outputs : SignedOutputs) : ReturnedCall.Own ⟨id, cesErrorTimeout, outputs⟩ c.answers :=
  fun _ h => absurd rfl h

/-- Another phase of the active call. -/
theorem Owns.goOn (h : c.Owns) {a : ActiveCall} (ha : a.Sees c.myId c.answers (c.slots a.req.kind)) :
    { c with active := some a }.Owns where
  active b hb := by
    obtain rfl := Option.mem_some_iff.mp hb
    exact ha
  returned := h.returned

theorem Owns.call (h : c.Owns) (kind : SignedKind) (nonceless : Bool) (reqNonce : Option UInt32) :
    (c.call kind nonceless reqNonce).Owns := by
  cases reqNonce with
  | none =>
    have hnext : { c with nextId := c.nextId + 1 }.Owns := ⟨h.active, h.returned⟩
    exact hnext.finish (own_internal _ _)
  | some nonce =>
    refine ⟨fun a ha => ?_, h.returned⟩
    obtain rfl := Option.mem_some_iff.mp ha
    -- the generation is read before the first send
    exact Or.inl rfl

theorem Owns.serve (h : c.Owns) (id : Nat) (r : SignedResult) : { c with answers := (id, r) :: c.answers }.Owns where
  active a ha := (h.active a ha).mono (List.subset_cons_self _ _)
  returned ret hret hinternal htimeout :=
    let ⟨r', hmem, hsame⟩ := h.returned ret hret hinternal htimeout
    ⟨r', List.mem_cons_of_mem _ hmem, hsame⟩

/-- A result that does not disturb the call it is delivered to. -/
theorem sees_delivered {id : Nat} {r : SignedResult} (hanswer : (id, r) ∈ c.answers) {a : ActiveCall}
    (hkind : r.kind = a.req.kind) (hdelivers : c.DeliversTo id r a) (gen : UInt64) :
    a.Sees c.myId c.answers ⟨gen, r⟩ := by
  have hdelivers := hdelivers hkind
  unfold ActiveCall.Sees
  cases hphase : a.phase with
  | waiting tries =>
    rw [hphase] at hdelivers
    refine Or.inr fun hmatch => ?_
    rw [← hdelivers hmatch]
    exact hanswer
  | matched =>
    rw [hphase] at hdelivers
    exact hdelivers.elim
  | coded rc =>
    rw [hphase] at hdelivers
    exact hdelivers.elim

theorem Owns.incomingMessage (h : c.Owns) {id : Nat} {r : SignedResult} (hanswer : (id, r) ∈ c.answers)
    (hdelivers : ∀ a ∈ c.active, c.DeliversTo id r a) : (c.incomingMessage r).Owns where
  active a ha := by
    dsimp only [CesClient.incomingMessage]
    by_cases hkind : a.req.kind = r.kind
    · rw [hkind, Function.update_self]
      exact sees_delivered hanswer hkind.symm (hdelivers a ha) _
    · rw [Function.update_of_ne hkind]
      exact h.active a ha
  returned := h.returned

theorem Owns.poll (h : c.Owns) {a : ActiveCall} (ha : a ∈ c.active) {tries : Nat} (hphase : a.phase = .waiting tries) :
    (c.poll a).Owns := by
  unfold CesClient.poll
  dsimp only
  split_ifs with hsuccess
  · refine h.goOn ?_
    have hsees := h.active a ha
    unfold ActiveCall.Sees at hsees
    rw [hphase] at hsees
    rcases hsees with hold | hmine
    · exact absurd hsuccess.1 (hold ▸ UInt64.lt_irrefl a.g)
    · exact hmine hsuccess.2
  · exact h

theorem Owns.expire (h : c.Owns) {a : ActiveCall} (ha : a ∈ c.active) {tries : Nat}
    (hphase : a.phase = .waiting tries) :
    (c.expire a tries).Owns := by
  unfold CesClient.expire
  split_ifs
  · exact h.finish (own_timeout _ _)
  · refine h.goOn ?_
    have hsees := h.active a ha
    unfold ActiveCall.Sees at hsees ⊢
    rw [hphase] at hsees
    exact hsees

theorem Owns.readOutputs (h : c.Owns) {a : ActiveCall} (ha : a ∈ c.active) {rc : UInt8} (hphase : a.phase = .coded rc) :
    (c.readOutputs a rc).Owns := by
  have hsees := h.active a ha
  unfold ActiveCall.Sees at hsees
  rw [hphase] at hsees
  obtain ⟨hmine, hcode⟩ := hsees
  refine h.finish fun hinternal htimeout => ⟨_, hmine, hcode.symm, ?_⟩
  exact if_pos ⟨hinternal, htimeout⟩

/-- Every event that disturbs no call keeps what the calls see and return. -/
theorem Owns.act (h : c.Owns) (e : SignedEvent) (he : e.Undisturbed c) : (e.act c).Owns := by
  unfold SignedEvent.act
  split
  · exact h.call _ _ _
  · split_ifs
    · exact h.serve _ _
    · exact h
  · split_ifs with hanswer
    · exact h.incomingMessage hanswer he
    · exact h
  next hactive => exact h.poll (Option.mem_def.mpr hactive) rfl
  next hactive => exact h.expire (Option.mem_def.mpr hactive) rfl
  · exact h.finish (own_internal _ _)
  next hactive => exact h.goOn ⟨h.active _ (Option.mem_def.mpr hactive), rfl⟩
  next hactive => exact h.readOutputs (Option.mem_def.mpr hactive) rfl
  · exact h

theorem Owns.runSigned {events : List SignedEvent} (h : c.Owns)
    (hevents : Meets SignedEvent.act SignedEvent.Undisturbed c events) : (c.runSigned events).Owns := by
  induction events generalizing c with
  | nil => exact h
  | cons e events ih => exact ih (h.act e hevents.1) hevents.2

end CesClient

/-- In every history of calls, answers of the server and deliveries that disturb no call, a call that returns a code
other than the client's own errors returns the code and the outputs of one result the server made for this
request. -/
theorem client_returns_own_result (myId : HashPrefix) (tries : Nat) (events : List SignedEvent)
    (hevents : Meets SignedEvent.act SignedEvent.Undisturbed (.create myId tries) events) (ret : ReturnedCall)
    (hret : ret ∈ ((CesClient.create myId tries).runSigned events).returned) (hinternal : ret.rc ≠ cesErrorInternal)
    (htimeout : ret.rc ≠ cesErrorTimeout) :
    ∃ r, (ret.id, r) ∈ ((CesClient.create myId tries).runSigned events).answers ∧ ret.rc = r.rcode ∧
      ret.outputs = r.outputs :=
  ((CesClient.owns_create myId tries).runSigned hevents).returned ret hret hinternal htimeout

/-! ### Results of other requests -/

instance (c : CesClient) (id : Nat) (r : SignedResult) : ∀ a, Decidable (c.DeliversTo id r a)
  | ⟨req, _, .waiting _⟩ =>
    inferInstanceAs (Decidable (r.kind = req.kind → req.matchFn c.myId r = true → id = req.id))
  | ⟨req, _, .matched⟩ => inferInstanceAs (Decidable (r.kind = req.kind → False))
  | ⟨req, _, .coded _⟩ => inferInstanceAs (Decidable (r.kind = req.kind → False))

instance : ∀ (e : SignedEvent) (c : CesClient), Decidable (e.Undisturbed c)
  | .deliver id r, c => inferInstanceAs (Decidable (∀ a ∈ c.active, c.DeliversTo id r a))
  | .call _ _ _, _ | .serve _ _, _ | .poll, _ | .expire, _ | .interrupt, _ | .readCode, _ | .readOutputs, _ =>
    inferInstanceAs (Decidable True)

def callerId : HashPrefix := ByteArr.ofList 8 [1]

/-- Two calls with the same identity. The first times out; a result for request `of` arrives during the second. -/
def twoCalls (kind : SignedKind) (nonceless : Bool) (nonce : UInt32) (first second : SignedResult) (of : Nat) :
    List SignedEvent :=
  [.call kind nonceless (some nonce), .serve 0 first, .expire, .call kind nonceless (some nonce), .serve 1 second,
    .deliver of (if of = 0 then first else second), .poll, .readCode, .readOutputs]

/-- A transfer that the balance does not cover, which leaves the nonce of the account. -/
def refusedTransfer : SignedResult := ⟨.transfer, callerId, 5, 0x03, .balance 10⟩

def paidTransfer : SignedResult := ⟨.transfer, callerId, 5, cesOk, .balance 400⟩

/-- Two nonceless runs, with nonces of the server. -/
def firstRun : SignedResult := ⟨.runAsset, callerId, 8, cesOk, .run 0 100 [1]⟩

def secondRun : SignedResult := ⟨.runAsset, callerId, 9, 0x12, .run 7 200 []⟩

/-- The late result of the first request is returned by the second call: a transfer that was made is reported as
refused, a run that failed as one that succeeded. And a call reads the code of one result and the balance of another
when one arrives in between. -/
theorem client_returns_late_result :
    let late := (CesClient.create callerId 1).runSigned (twoCalls .transfer false 5 refusedTransfer paidTransfer 0)
    let lateRun := (CesClient.create callerId 1).runSigned
      (twoCalls .runAsset true Accounts.nonceless firstRun secondRun 0)
    let mixed := (CesClient.create callerId 1).runSigned
      [.call .transfer false (some 5), .serve 0 paidTransfer, .serve 0 refusedTransfer, .deliver 0 paidTransfer, .poll,
        .readCode, .deliver 0 refusedTransfer, .readOutputs]
    (⟨1, 0x03, .balance 10⟩ ∈ late.returned ∧ ∀ a ∈ late.answers, a.1 = 1 → a.2 = paidTransfer) ∧
      (⟨1, cesOk, .run 0 100 [1]⟩ ∈ lateRun.returned ∧ ∀ a ∈ lateRun.answers, a.1 = 1 → a.2 = secondRun) ∧
      mixed.returned = [⟨0, cesOk, .balance 10⟩] := by
  decide +kernel

/-- The second call gets its own result. -/
theorem client_returns_own_second :
    ∃ r, (1, r) ∈ ((CesClient.create callerId 1).runSigned
        (twoCalls .transfer false 5 refusedTransfer paidTransfer 1)).answers ∧
      cesOk = r.rcode ∧ SignedOutputs.balance 400 = r.outputs :=
  client_returns_own_result callerId 1 (twoCalls .transfer false 5 refusedTransfer paidTransfer 1) (by decide +kernel)
    ⟨1, cesOk, .balance 400⟩ (by decide +kernel) (by decide) (by decide)

end Ces
