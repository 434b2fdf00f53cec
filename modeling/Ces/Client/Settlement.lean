import Ces.Accounts
import Ces.Lib.Trace

/-!
# The settlement client

`CesClientAsync` carries the transfers and the gossip of one server to another over a few ticketed channels. A
channel learns the key that its results are checked with from the INFO that answers its handshake. INFO is not
signed, and the key in it is not compared with `peerServerKey`, so `Pinned` holds only as long as every INFO that
completes a handshake carries that key.

The clock is a number of milliseconds, `rng` the passwords that are drawn one after the other, and `done` the
callbacks that fired, newest first. `openTransfer` and `gossip` only post a handler to `io_`: the definitions of
these names are the handlers, and `PostedClient` is the client with the handlers that have not run.
-/

namespace Ces

open Ces.Lib

/-- What the client takes from the layers below: the codes of the datagrams, its passwords, its own signature and
the check of another's. -/
structure SettlementWire where
  getInfo : UInt8
  info : UInt8
  message : UInt8
  rng : Nat → UInt64
  sign : Bytes → Bytes
  verifySignature : Hash → Bytes → Bytes → Bool

inductive OpKind where
  | openTransfer
  | gossip
  deriving DecidableEq

/-- An operation and the callback it carries, known by `id`. A deadline of zero is none. -/
structure QueuedOp where
  id : Nat
  kind : OpKind
  signedPayload : Bytes
  deadline : Nat
  deriving DecidableEq

inductive ChState where
  | idle
  | handshaking
  | ready
  | busy
  deriving DecidableEq

/-- A ticketed channel. `currentOp` is there while the channel is busy. -/
structure SettlementChannel where
  state : ChState
  ticket : UInt64
  sentGPass : UInt64
  serverKey : Hash
  currentOp : Option QueuedOp
  retries : Nat
  sentAt : Nat
  deriving DecidableEq

def SettlementChannel.fresh : SettlementChannel := ⟨.idle, 0, 0, ByteArr.zero 32, none, 0, 0⟩

/-- A callback that fired. -/
structure Completion where
  op : Nat
  rc : UInt8
  paid : UInt64
  deriving DecidableEq

def cesOk : UInt8 := 0x00
def cesErrorTimeout : UInt8 := 0x0d
def cesErrorInternal : UInt8 := 0x0e
def cesErrorQueueFull : UInt8 := 0x11

def opCesOpenTransfer : UInt8 := 0x10
def opCesGossip : UInt8 := 0x15

def maxQueue : Nat := 50000
def retryMs : Nat := 3000
def handshakeRetryMs : Nat := 2000
def gossipRetryMs : Nat := 1000
def gossipDeadlineMs : Nat := 5000
def settlementDeadlineMs : Nat := 3600000

structure CesClientAsync where
  /-- The key of the local server. -/
  ownKey : Hash
  peerServerKey : Hash
  maxRetries : Nat
  channels : List SettlementChannel
  queue : List QueuedOp
  /-- A `size_t` in the source; it is never taken below zero. -/
  pendingCount : Int
  closed : Bool
  /-- Passwords drawn so far. -/
  drawn : Nat
  /-- Datagrams sent, oldest first. -/
  sent : List Bytes
  done : List Completion

/-! ### Messages -/

/-- `CesOpenTransfer::toBytes`. -/
def openTransferBytes (w : SettlementWire) (origin server destKey : Hash) (amount time : UInt64) : Bytes :=
  let body := opCesOpenTransfer :: origin.bytes ++ (getHashPrefix server).bytes ++
    beBytes 4 Accounts.nonceless.toNat ++ destKey.bytes ++ beBytes 8 amount.toNat ++ beBytes 8 time.toNat
  body ++ w.sign body

/-- `CesGossip::toBytes`. -/
def gossipBytes (w : SettlementWire) (origin server authorId msgId dest : Hash) (budget time : UInt64) (msg : Bytes) :
    Bytes :=
  let body := opCesGossip :: origin.bytes ++ (getHashPrefix server).bytes ++
    beBytes 4 Accounts.nonceless.toNat ++ authorId.bytes ++ msgId.bytes ++ dest.bytes ++ beBytes 8 budget.toNat ++
    beBytes 8 time.toNat ++ beBytes 2 msg.length ++ msg
  body ++ w.sign body

def signatureBytes : Nat := 65

/-- A result as its bytes say it, without the check of the signature. Only a gossip result carries an amount. -/
structure ResultMessage where
  kind : OpKind
  rcode : UInt8
  paid : UInt64
  deriving DecidableEq

/-- The length of a result without its signature: opcode, then origin, nonce, destination, amount, balance and code of
a transfer, or origin, code and amount of a gossip. -/
def OpKind.resultSize : OpKind → Nat
  | .openTransfer => 1 + 8 + 4 + 8 + 8 + 8 + 1
  | .gossip => 1 + 8 + 1 + 8

def OpKind.resultOpcode : OpKind → UInt8
  | .openTransfer => opCesOpenTransfer
  | .gossip => opCesGossip

def parseResult (kind : OpKind) (ces : Bytes) : Option ResultMessage :=
  if ces.head? = some kind.resultOpcode ∧ ces.length = kind.resultSize + signatureBytes then
    match kind with
    | .openTransfer => some ⟨kind, ces.getD 37 0, 0⟩
    | .gossip => some ⟨kind, ces.getD 9 0, UInt64.ofNat (beNat ((ces.drop 10).take 8))⟩
  else none

/-- `fromBytes` with a key: the fields of a result that is signed by that key. -/
def SettlementWire.fromBytes (w : SettlementWire) (key : Hash) (kind : OpKind) (ces : Bytes) : Option ResultMessage :=
  if w.verifySignature key (ces.take kind.resultSize) (ces.drop kind.resultSize) then parseResult kind ces else none

def minxEnvelopeBytes : Nat := 18

/-- The passwords of an envelope: the sender's, and the one it answers. -/
def gpassword (data : Bytes) : UInt64 := UInt64.ofNat (beNat ((data.drop 2).take 8))

def spassword (data : Bytes) : UInt64 := UInt64.ofNat (beNat ((data.drop 10).take 8))

/-- The server key of an INFO. -/
def infoKey (data : Bytes) : Hash := ByteArr.ofList 32 (data.drop minxEnvelopeBytes)

namespace CesClientAsync

variable (w : SettlementWire) (c : CesClientAsync)

def create (ownKey peerServerKey : Hash) (numChannels maxRetries : Nat) : CesClientAsync :=
  ⟨ownKey, peerServerKey, maxRetries, List.replicate numChannels .fresh, [], 0, false, 0, [], []⟩

/-! ### Channels -/

/-- Apply `f` to one channel after the other; it may also change the rest of the client. -/
def eachChannel (f : CesClientAsync → SettlementChannel → SettlementChannel × CesClientAsync) :
    CesClientAsync → List SettlementChannel → List SettlementChannel × CesClientAsync
  | c, [] => ([], c)
  | c, ch :: rest =>
    let r := f c ch
    let more := eachChannel f r.2 rest
    (r.1 :: more.1, more.2)

def overChannels (f : CesClientAsync → SettlementChannel → SettlementChannel × CesClientAsync) : CesClientAsync :=
  let r := eachChannel f c c.channels
  { r.2 with channels := r.1 }

/-- Change the first channel that passes `p`. -/
def changeFirst (p : SettlementChannel → Bool) (f : SettlementChannel → SettlementChannel) :
    List SettlementChannel → Option (List SettlementChannel)
  | [] => none
  | ch :: rest => if p ch then some (f ch :: rest) else (changeFirst p f rest).map (ch :: ·)

/-- `fireOpCallback`. -/
def fireOpCallback (op : QueuedOp) (rc : UInt8) (paid : UInt64) : CesClientAsync :=
  { c with done := ⟨op.id, rc, if op.kind = .gossip then paid else 0⟩ :: c.done }

/-- `sendGetInfo` under a new password. -/
def sendGetInfo : UInt64 × CesClientAsync :=
  let pass := w.rng c.drawn
  (pass, { c with drawn := c.drawn + 1, sent := c.sent ++ [w.getInfo :: 0 :: beBytes 8 pass.toNat] })

def handshake (now : Nat) (ch : SettlementChannel) : SettlementChannel × CesClientAsync :=
  let r := c.sendGetInfo w
  ({ ch with state := .handshaking, sentGPass := r.1, retries := 0, sentAt := now }, r.2)

/-- Spend the channel's ticket on an operation. -/
def sendOp (now : Nat) (ch : SettlementChannel) (op : QueuedOp) : SettlementChannel × CesClientAsync :=
  let pass := w.rng c.drawn
  let datagram := w.message :: 0 :: beBytes 8 pass.toNat ++ beBytes 8 ch.ticket.toNat ++ op.signedPayload
  ({ ch with state := .busy, sentGPass := pass, retries := 0, sentAt := now, ticket := 0, currentOp := some op },
    { c with drawn := c.drawn + 1, sent := c.sent ++ [datagram] })

def dispatchChannel (now : Nat) (c : CesClientAsync) (ch : SettlementChannel) : SettlementChannel × CesClientAsync :=
  match c.queue, ch.state with
  | _ :: _, .idle => c.handshake w now ch
  | op :: rest, .ready => { c with queue := rest }.sendOp w now ch op
  | _, _ => (ch, c)

def dispatch (now : Nat) : CesClientAsync :=
  if c.closed ∨ c.queue = [] then c else c.overChannels (dispatchChannel w now)

/-! ### Operations -/

/-- Queue an operation, unless the client is closed or `full`. -/
def submit (now : Nat) (full : Bool) (op : QueuedOp) : CesClientAsync :=
  if c.closed then c.fireOpCallback op cesErrorInternal 0
  else if full then c.fireOpCallback op cesErrorQueueFull 0
  else { c with queue := c.queue ++ [op], pendingCount := c.pendingCount + 1 }.dispatch w now

/-- The handler that `openTransfer` posts. -/
def openTransfer (now : Nat) (time : UInt64) (id : Nat) (destKey : Hash) (amount : UInt64) : CesClientAsync :=
  c.submit w now (maxQueue ≤ c.queue.length)
    ⟨id, .openTransfer, openTransferBytes w c.ownKey c.peerServerKey destKey amount time, now + settlementDeadlineMs⟩

/-- The handler that `gossip` posts. Gossip yields to settlement: it is taken only while nothing is queued. -/
def gossip (now : Nat) (time : UInt64) (id : Nat) (authorId msgId dest : Hash) (budget : UInt64) (msg : Bytes) :
    CesClientAsync :=
  c.submit w now (maxQueue ≤ c.queue.length || !c.queue.isEmpty)
    ⟨id, .gossip, gossipBytes w c.ownKey c.peerServerKey authorId msgId dest budget time msg, now + gossipDeadlineMs⟩

/-! ### Datagrams -/

/-- The channel whose handshake the datagram answers. -/
def awaitsInfo (data : Bytes) (ch : SettlementChannel) : Bool :=
  ch.state = .handshaking && ch.sentGPass == spassword data

/-- The channel whose operation the datagram answers. -/
def awaitsResult (data : Bytes) (ch : SettlementChannel) : Bool :=
  ch.state = .busy && ch.sentGPass == spassword data

def handleInfo (now : Nat) (data : Bytes) : CesClientAsync :=
  if data.length < minxEnvelopeBytes + 33 then c
  else
    let learn := fun ch : SettlementChannel =>
      { ch with ticket := gpassword data, serverKey := infoKey data, state := .ready }
    match changeFirst (awaitsInfo data) learn c.channels with
    | none => c
    | some channels => { c with channels := channels }.dispatch w now

/-- The result in a datagram for a channel, checked with the channel's key. -/
def resultFor (data : Bytes) (ch : SettlementChannel) : Option (QueuedOp × ResultMessage) :=
  ch.currentOp.bind fun op =>
    (w.fromBytes ch.serverKey op.kind (data.drop minxEnvelopeBytes)).map (op, ·)

def handleMessage (now : Nat) (data : Bytes) : CesClientAsync :=
  if data.length < minxEnvelopeBytes + 1 then c
  else
    match (c.channels.find? (awaitsResult data)).bind (resultFor w data) with
    | none => c
    | some (op, res) =>
      let free := fun ch : SettlementChannel => { ch with ticket := gpassword data, state := .ready, currentOp := none }
      let channels := (changeFirst (awaitsResult data) free c.channels).getD c.channels
      let freed := { c with channels := channels, pendingCount := c.pendingCount - 1 }
      (freed.fireOpCallback op res.rcode res.paid).dispatch w now

def onReceive (now : Nat) (data : Bytes) : CesClientAsync :=
  if c.closed then c
  else
    match data.head? with
    | none => c
    | some code =>
      if code = w.info then c.handleInfo w now data
      else if code = w.message then c.handleMessage w now data
      else c

/-! ### Time -/

/-- Give an operation up, and the channel with it. -/
def giveUp (ch : SettlementChannel) (op : QueuedOp) (retries : Nat) : SettlementChannel × CesClientAsync :=
  ({ ch with state := .idle, currentOp := none, retries := retries },
    { c with pendingCount := c.pendingCount - 1 }.fireOpCallback op cesErrorTimeout 0)

def sweepChannel (now : Nat) (c : CesClientAsync) (ch : SettlementChannel) : SettlementChannel × CesClientAsync :=
  match ch.state, ch.currentOp with
  | .handshaking, _ =>
    if now - ch.sentAt ≤ handshakeRetryMs then (ch, c)
    else if c.maxRetries ≤ ch.retries + 1 then ({ ch with state := .idle, retries := ch.retries + 1 }, c)
    else
      let r := c.sendGetInfo w
      ({ ch with sentGPass := r.1, sentAt := now, retries := ch.retries + 1 }, r.2)
  | .busy, some op =>
    if op.deadline ≠ 0 ∧ op.deadline ≤ now then c.giveUp ch op ch.retries
    else if now - ch.sentAt ≤ (if op.kind = .gossip then gossipRetryMs else retryMs) then (ch, c)
    else if c.maxRetries ≤ ch.retries + 1 then c.giveUp ch op (ch.retries + 1)
    else { c with queue := op :: c.queue }.handshake w now { ch with currentOp := none }
  | _, _ => (ch, c)

def sweep (now : Nat) : CesClientAsync :=
  if c.closed then c else (c.overChannels (sweepChannel w now)).dispatch w now

/-- Fail the operation of a channel. -/
def failChannel (rc : UInt8) (c : CesClientAsync) (ch : SettlementChannel) : SettlementChannel × CesClientAsync :=
  ({ ch with state := .idle, currentOp := none },
    match ch.state, ch.currentOp with
    | .busy, some op => c.fireOpCallback op rc 0
    | _, _ => c)

def failAll (rc : UInt8) : CesClientAsync :=
  let failed := c.overChannels (failChannel rc)
  { failed.queue.foldl (fun c op => c.fireOpCallback op rc 0) { failed with queue := [] } with pendingCount := 0 }

def close : CesClientAsync :=
  if c.closed then c else { c with closed := true }.failAll cesErrorInternal

end CesClientAsync

/-! ### Histories -/

/-- What happens to a client: the handler of an operation runs, a datagram arrives, the timer fires, it is closed. -/
inductive ClientEvent where
  | openTransfer (now : Nat) (time : UInt64) (id : Nat) (destKey : Hash) (amount : UInt64)
  | gossip (now : Nat) (time : UInt64) (id : Nat) (authorId msgId dest : Hash) (budget : UInt64) (msg : Bytes)
  | datagram (now : Nat) (data : Bytes)
  | sweep (now : Nat)
  | close

namespace ClientEvent

def act (w : SettlementWire) : ClientEvent → CesClientAsync → CesClientAsync
  | openTransfer now time id destKey amount, c => c.openTransfer w now time id destKey amount
  | gossip now time id authorId msgId dest budget msg, c => c.gossip w now time id authorId msgId dest budget msg
  | datagram now data, c => c.onReceive w now data
  | sweep now, c => c.sweep w now
  | close, c => c.close

/-- An INFO that completes a handshake carries the key the client was created for. -/
def InfoPinned (w : SettlementWire) : ClientEvent → CesClientAsync → Prop
  | datagram _ data, c =>
    data.head? = some w.info → (∃ ch ∈ c.channels, CesClientAsync.awaitsInfo data ch = true) →
      infoKey data = c.peerServerKey
  | _, _ => True

instance (w : SettlementWire) (e : ClientEvent) (c : CesClientAsync) : Decidable (e.InfoPinned w c) := by
  cases e <;> unfold InfoPinned <;> infer_instance

end ClientEvent

namespace CesClientAsync

/-- The client after a history. -/
def runAll (w : SettlementWire) (c : CesClientAsync) (events : List ClientEvent) : CesClientAsync :=
  events.foldl (fun c e => e.act w c) c

end CesClientAsync

/-! ### Posted handlers -/

/-- A call of `openTransfer` or `gossip`, with the callback it brings known by `id`. -/
inductive ClientCall where
  | openTransfer (id : Nat) (destKey : Hash) (amount : UInt64)
  | gossip (id : Nat) (authorId msgId dest : Hash) (budget : UInt64) (msg : Bytes)

namespace ClientCall

def id : ClientCall → Nat
  | openTransfer id _ _ => id
  | gossip id _ _ _ _ _ => id

/-- The handler of the call, run at `now`. -/
def handler (now : Nat) (time : UInt64) : ClientCall → ClientEvent
  | openTransfer id destKey amount => .openTransfer now time id destKey amount
  | gossip id authorId msgId dest budget msg => .gossip now time id authorId msgId dest budget msg

end ClientCall

/-- A client and the handlers in its `io_context` that have not run, in the order they were posted. -/
structure PostedClient where
  client : CesClientAsync
  posted : List ClientCall

/-- What happens around a client: a call posts its handler, `io_` runs one of the handlers, a datagram or the timer, and
`close`, which is not posted, runs at once. -/
inductive PostedEvent where
  | call (x : ClientCall)
  | handler (index now : Nat) (time : UInt64)
  | datagram (now : Nat) (data : Bytes)
  | sweep (now : Nat)
  | close

def PostedEvent.act (w : SettlementWire) : PostedEvent → PostedClient → PostedClient
  | call x, p => { p with posted := p.posted ++ [x] }
  | handler index now time, p =>
    match p.posted[index]? with
    | none => p
    | some x => ⟨(x.handler now time).act w p.client, p.posted.eraseIdx index⟩
  | datagram now data, p => { p with client := p.client.onReceive w now data }
  | sweep now, p => { p with client := p.client.sweep w now }
  | close, p => { p with client := p.client.close }

namespace PostedClient

def create (ownKey peerServerKey : Hash) (numChannels maxRetries : Nat) : PostedClient :=
  ⟨.create ownKey peerServerKey numChannels maxRetries, []⟩

/-- The client and what is posted after a history. -/
def runAll (w : SettlementWire) (p : PostedClient) (events : List PostedEvent) : PostedClient :=
  events.foldl (fun p e => e.act w p) p

/-- The client once `io_` has run everything that is posted, one handler after the other. -/
def drain (w : SettlementWire) (p : PostedClient) (now : Nat) (time : UInt64) : CesClientAsync :=
  p.client.runAll w (p.posted.map (ClientCall.handler now time))

end PostedClient

namespace CesClientAsync

/-- The completion of an operation in flight by a result that the peer signed: the event is a datagram with such a
result, with this code and amount. -/
def Authentic (w : SettlementWire) (c : CesClientAsync) (e : ClientEvent) (x : Completion) : Prop :=
  ∃ now data ch op res, e = .datagram now data ∧ ch ∈ c.channels ∧ ch.state = .busy ∧ ch.currentOp = some op ∧
    op.id = x.op ∧ w.fromBytes c.peerServerKey op.kind (data.drop minxEnvelopeBytes) = some res ∧
    res.rcode = x.rc ∧ res.paid = x.paid

/-- A completion that pays nothing. -/
def Failed (x : Completion) : Prop := x.rc ≠ cesOk ∧ x.paid = 0

/-- A channel that can carry operations checks their results with `key`. -/
def KeyedBy (key : Hash) (ch : SettlementChannel) : Prop := ch.state = .ready ∨ ch.state = .busy → ch.serverKey = key

def Pinned (c : CesClientAsync) : Prop := ∀ ch ∈ c.channels, KeyedBy c.peerServerKey ch

/-- From `c` to `c'` the peer stays and callbacks fire that satisfy `fired`. -/
structure Follows (fired : Completion → Prop) (c c' : CesClientAsync) : Prop where
  key : c'.peerServerKey = c.peerServerKey
  done : ∃ new, c'.done = new ++ c.done ∧ ∀ x ∈ new, fired x

section follows

variable {w : SettlementWire} {c c' c'' : CesClientAsync} {fired : Completion → Prop} {key : Hash} {now : Nat}
  {data : Bytes}

theorem Follows.of_same (hkey : c'.peerServerKey = c.peerServerKey) (hdone : c'.done = c.done) : Follows fired c c' :=
  ⟨hkey, [], hdone, by simp⟩

theorem Follows.refl (c : CesClientAsync) : Follows fired c c := .of_same rfl rfl

theorem Follows.trans (h : Follows fired c c') (h' : Follows fired c' c'') : Follows fired c c'' := by
  obtain ⟨new, hnew, hfired⟩ := h.done
  obtain ⟨more, hmore, hfired'⟩ := h'.done
  refine ⟨h'.key.trans h.key, more ++ new, ?_, fun x hx => ?_⟩
  · rw [hmore, hnew, List.append_assoc]
  · rcases List.mem_append.mp hx with hx | hx
    · exact hfired' x hx
    · exact hfired x hx

theorem follows_fire {op : QueuedOp} {rc : UInt8} {paid : UInt64}
    (hfired : fired ⟨op.id, rc, if op.kind = .gossip then paid else 0⟩) :
    Follows fired c (c.fireOpCallback op rc paid) := by
  refine ⟨rfl, [_], rfl, fun x hx => ?_⟩
  rw [List.mem_singleton.mp hx]
  exact hfired

theorem failed_fire (op : QueuedOp) {rc : UInt8} (hrc : rc ≠ cesOk) :
    Failed ⟨op.id, rc, if op.kind = .gossip then 0 else 0⟩ := ⟨hrc, by split_ifs <;> rfl⟩

/-- What `f` keeps of each channel, going over the channels keeps. -/
theorem eachChannel_keeps {f : CesClientAsync → SettlementChannel → SettlementChannel × CesClientAsync}
    (hf : ∀ c ch, KeyedBy key ch → KeyedBy key (f c ch).1 ∧ Follows fired c (f c ch).2) (c : CesClientAsync)
    {channels : List SettlementChannel} (hchannels : ∀ ch ∈ channels, KeyedBy key ch) :
    (∀ ch ∈ (eachChannel f c channels).1, KeyedBy key ch) ∧ Follows fired c (eachChannel f c channels).2 := by
  induction channels generalizing c with
  | nil => exact ⟨hchannels, .refl c⟩
  | cons ch rest ih =>
    obtain ⟨hkeyed, hfollows⟩ := hf c ch (hchannels ch List.mem_cons_self)
    obtain ⟨hrest, hmore⟩ := ih (f c ch).2 fun ch' hch' => hchannels ch' (List.mem_cons_of_mem ch hch')
    refine ⟨fun ch' hch' => ?_, hfollows.trans hmore⟩
    rcases List.mem_cons.mp hch' with rfl | hch'
    · exact hkeyed
    · exact hrest ch' hch'

theorem overChannels_keeps {f : CesClientAsync → SettlementChannel → SettlementChannel × CesClientAsync}
    (hf : ∀ key c ch, KeyedBy key ch → KeyedBy key (f c ch).1 ∧ Follows fired c (f c ch).2) (h : c.Pinned) :
    (c.overChannels f).Pinned ∧ Follows fired c (c.overChannels f) := by
  obtain ⟨hkeyed, hfollows⟩ := eachChannel_keeps (hf c.peerServerKey) c h
  refine ⟨fun ch hch => ?_, hfollows.key, hfollows.done⟩
  have hsame : (c.overChannels f).peerServerKey = c.peerServerKey := hfollows.key
  rw [hsame]
  exact hkeyed ch hch

theorem changeFirst_keeps {p : SettlementChannel → Bool} {f : SettlementChannel → SettlementChannel}
    {channels channels' : List SettlementChannel} (h : ∀ ch ∈ channels, KeyedBy key ch)
    (hf : ∀ ch ∈ channels, p ch = true → KeyedBy key (f ch)) (heq : changeFirst p f channels = some channels') :
    ∀ ch ∈ channels', KeyedBy key ch := by
  induction channels generalizing channels' with
  | nil => simp [changeFirst] at heq
  | cons ch rest ih =>
    have hrest : ∀ ch' ∈ rest, KeyedBy key ch' := fun ch' hch' => h ch' (List.mem_cons_of_mem ch hch')
    simp only [changeFirst] at heq
    split_ifs at heq with hp
    · obtain rfl := Option.some.inj heq
      intro ch' hch'
      rcases List.mem_cons.mp hch' with rfl | hch'
      · exact hf ch List.mem_cons_self hp
      · exact hrest ch' hch'
    · obtain ⟨more, hmore, rfl⟩ := Option.map_eq_some_iff.mp heq
      intro ch' hch'
      rcases List.mem_cons.mp hch' with rfl | hch'
      · exact h ch' List.mem_cons_self
      · exact ih hrest (fun ch' hch' => hf ch' (List.mem_cons_of_mem ch hch')) hmore ch' hch'

/-- A channel that is neither ready nor busy is keyed by any key. -/
theorem keyedBy_of_state {ch : SettlementChannel} (h : ch.state = .idle ∨ ch.state = .handshaking) :
    KeyedBy key ch := by
  rintro (hready | hbusy)
  · simp [hready] at h
  · simp [hbusy] at h

/-! ### Steps -/

theorem dispatchChannel_keeps (key : Hash) (c : CesClientAsync) (ch : SettlementChannel) (h : KeyedBy key ch) :
    KeyedBy key (dispatchChannel w now c ch).1 ∧ Follows fired c (dispatchChannel w now c ch).2 := by
  unfold dispatchChannel
  split
  next => exact ⟨keyedBy_of_state (.inr rfl), .of_same rfl rfl⟩
  next op rest hqueue hready => exact ⟨fun _ => h (.inl hready), .of_same rfl rfl⟩
  next => exact ⟨h, .refl c⟩

theorem dispatch_keeps (w : SettlementWire) (now : Nat) (h : c.Pinned) :
    (c.dispatch w now).Pinned ∧ Follows fired c (c.dispatch w now) := by
  unfold dispatch
  split_ifs
  · exact ⟨h, .refl c⟩
  · exact overChannels_keeps dispatchChannel_keeps h

theorem submit_keeps (w : SettlementWire) (now : Nat) (full : Bool) (op : QueuedOp) (h : c.Pinned) :
    (c.submit w now full op).Pinned ∧ Follows Failed c (c.submit w now full op) := by
  unfold submit
  split_ifs
  · exact ⟨h, follows_fire (failed_fire op (by decide))⟩
  · exact ⟨h, follows_fire (failed_fire op (by decide))⟩
  · obtain ⟨hpinned, hfollows⟩ := @dispatch_keeps
      { c with queue := c.queue ++ [op], pendingCount := c.pendingCount + 1 } Failed w now h
    exact ⟨hpinned, hfollows.key, hfollows.done⟩

theorem sweepChannel_keeps (key : Hash) (c : CesClientAsync) (ch : SettlementChannel) (h : KeyedBy key ch) :
    KeyedBy key (sweepChannel w now c ch).1 ∧ Follows Failed c (sweepChannel w now c ch).2 := by
  unfold sweepChannel
  split
  next hstate =>
    split_ifs
    · exact ⟨h, .refl c⟩
    · exact ⟨keyedBy_of_state (.inl rfl), .refl c⟩
    · exact ⟨keyedBy_of_state (.inr hstate), .of_same rfl rfl⟩
  next op hstate hop =>
    have htimeout : Follows Failed c
        ({ c with pendingCount := c.pendingCount - 1 }.fireOpCallback op cesErrorTimeout 0) :=
      have hstep := follows_fire (c := { c with pendingCount := c.pendingCount - 1 })
        (failed_fire op (by decide : cesErrorTimeout ≠ cesOk))
      ⟨hstep.key, hstep.done⟩
    generalize (if op.kind = .gossip then gossipRetryMs else retryMs) = wait
    split_ifs
    · exact ⟨keyedBy_of_state (.inl rfl), htimeout⟩
    · exact ⟨h, .refl c⟩
    · exact ⟨keyedBy_of_state (.inl rfl), htimeout⟩
    · exact ⟨keyedBy_of_state (.inr rfl), .of_same rfl rfl⟩
  next => exact ⟨h, .refl c⟩

theorem failChannel_keeps {rc : UInt8} (hrc : rc ≠ cesOk) (key : Hash) (c : CesClientAsync) (ch : SettlementChannel)
    (_ : KeyedBy key ch) : KeyedBy key (failChannel rc c ch).1 ∧ Follows Failed c (failChannel rc c ch).2 := by
  refine ⟨keyedBy_of_state (.inl rfl), ?_⟩
  unfold failChannel
  dsimp only
  split
  next op hstate hop => exact follows_fire (failed_fire op hrc)
  next => exact .refl c

theorem failQueue_keeps {rc : UInt8} (hrc : rc ≠ cesOk) (ops : List QueuedOp) (c : CesClientAsync) (h : c.Pinned) :
    (ops.foldl (fun c op => c.fireOpCallback op rc 0) c).Pinned ∧
      Follows Failed c (ops.foldl (fun c op => c.fireOpCallback op rc 0) c) := by
  induction ops generalizing c with
  | nil => exact ⟨h, .refl c⟩
  | cons op rest ih =>
    obtain ⟨hpinned, hfollows⟩ := ih (c.fireOpCallback op rc 0) h
    exact ⟨hpinned, (follows_fire (failed_fire op hrc)).trans hfollows⟩

theorem failAll_keeps {rc : UInt8} (hrc : rc ≠ cesOk) (h : c.Pinned) :
    (c.failAll rc).Pinned ∧ Follows Failed c (c.failAll rc) := by
  obtain ⟨hpinned, hfollows⟩ := overChannels_keeps (failChannel_keeps hrc) h
  unfold failAll
  dsimp only
  generalize c.overChannels (failChannel rc) = failed at *
  obtain ⟨hlast, hmore⟩ := failQueue_keeps hrc failed.queue { failed with queue := [] } hpinned
  have hemptied : Follows Failed c { failed with queue := [] } := ⟨hfollows.key, hfollows.done⟩
  have hall := hemptied.trans hmore
  exact ⟨hlast, hall.key, hall.done⟩

theorem close_keeps (h : c.Pinned) : c.close.Pinned ∧ Follows Failed c c.close := by
  unfold close
  split_ifs
  · exact ⟨h, .refl c⟩
  · obtain ⟨hpinned, hfollows⟩ := @failAll_keeps { c with closed := true } _ (by decide : cesErrorInternal ≠ cesOk) h
    exact ⟨hpinned, hfollows.key, hfollows.done⟩

/-- An INFO fires nothing. It keeps the channels on the peer's key when it carries that key. -/
theorem handleInfo_keeps (w : SettlementWire) (now : Nat) (h : c.Pinned)
    (hinfo : (∃ ch ∈ c.channels, awaitsInfo data ch = true) → infoKey data = c.peerServerKey) :
    (c.handleInfo w now data).Pinned ∧ Follows fired c (c.handleInfo w now data) := by
  unfold handleInfo
  split_ifs
  · exact ⟨h, .refl c⟩
  dsimp only
  cases hchange : changeFirst (awaitsInfo data)
      (fun ch => { ch with ticket := gpassword data, serverKey := infoKey data, state := .ready }) c.channels with
  | none => exact ⟨h, .refl c⟩
  | some channels =>
    have hkeyed : ({ c with channels := channels } : CesClientAsync).Pinned :=
      changeFirst_keeps h (fun ch hch hawaits _ => hinfo ⟨ch, hch, hawaits⟩) hchange
    obtain ⟨hpinned, hfollows⟩ := @dispatch_keeps _ fired w now hkeyed
    exact ⟨hpinned, hfollows.key, hfollows.done⟩

theorem paid_of_fromBytes {kind : OpKind} {ces : Bytes} {res : ResultMessage}
    (h : w.fromBytes key kind ces = some res) : (if kind = .gossip then res.paid else 0) = res.paid := by
  unfold SettlementWire.fromBytes parseResult at h
  split_ifs at h
  cases kind with
  | gossip => rfl
  | openTransfer =>
    obtain rfl := Option.some.inj h
    rfl

/-- A datagram fires a callback only with a result that the channel's key signed. -/
theorem handleMessage_keeps (w : SettlementWire) (now : Nat) (h : c.Pinned) :
    (c.handleMessage w now data).Pinned ∧
      Follows (c.Authentic w (.datagram now data)) c (c.handleMessage w now data) := by
  unfold handleMessage
  split_ifs
  · exact ⟨h, .refl c⟩
  cases hfound : (c.channels.find? (awaitsResult data)).bind (resultFor w data) with
  | none => exact ⟨h, .refl c⟩
  | some found =>
    obtain ⟨op, res⟩ := found
    obtain ⟨ch, hfind, hresult⟩ := Option.bind_eq_some_iff.mp hfound
    have hmem := List.mem_of_find?_eq_some hfind
    have hbusy : ch.state = .busy := by
      have hawaits := List.find?_some hfind
      simp only [awaitsResult, Bool.and_eq_true, decide_eq_true_eq] at hawaits
      exact hawaits.1
    unfold resultFor at hresult
    obtain ⟨op', hop, hres⟩ := Option.bind_eq_some_iff.mp hresult
    obtain ⟨res', hverified, heq⟩ := Option.map_eq_some_iff.mp hres
    obtain ⟨rfl, rfl⟩ := Prod.mk.inj heq
    rw [h ch hmem (.inr hbusy)] at hverified
    dsimp only
    have hkeyed : ∀ ch' ∈ (changeFirst (awaitsResult data)
        (fun ch => { ch with ticket := gpassword data, state := .ready, currentOp := none }) c.channels).getD
          c.channels,
        KeyedBy c.peerServerKey ch' := by
      cases hchange : changeFirst (awaitsResult data)
          (fun ch => { ch with ticket := gpassword data, state := .ready, currentOp := none }) c.channels with
      | none => exact h
      | some channels =>
        refine changeFirst_keeps h (fun ch' hch' hawaits _ => ?_) hchange
        simp only [awaitsResult, Bool.and_eq_true, decide_eq_true_eq] at hawaits
        exact h ch' hch' (.inr hawaits.1)
    generalize hchannels : (changeFirst (awaitsResult data)
        (fun ch => { ch with ticket := gpassword data, state := .ready, currentOp := none }) c.channels).getD
          c.channels =
      channels at hkeyed ⊢
    have hauthentic : c.Authentic w (.datagram now data)
        ⟨op'.id, res'.rcode, if op'.kind = .gossip then res'.paid else 0⟩ :=
      ⟨now, data, ch, op', res', rfl, hmem, hbusy, hop, rfl, hverified, rfl, (paid_of_fromBytes hverified).symm⟩
    generalize hfreed : ({ c with channels := channels, pendingCount := c.pendingCount - 1 } : CesClientAsync) = freed
    have hkeyed' : freed.Pinned := by subst hfreed; exact hkeyed
    have hsame : Follows (c.Authentic w (.datagram now data)) c freed := by subst hfreed; exact .of_same rfl rfl
    have hfire := follows_fire (c := freed) hauthentic
    obtain ⟨hpinned, hfollows⟩ := @dispatch_keeps (freed.fireOpCallback op' res'.rcode res'.paid)
      (c.Authentic w (.datagram now data)) w now hkeyed'
    exact ⟨hpinned, hsame.trans (hfire.trans hfollows)⟩

theorem sweep_keeps (w : SettlementWire) (now : Nat) (h : c.Pinned) :
    (c.sweep w now).Pinned ∧ Follows Failed c (c.sweep w now) := by
  unfold sweep
  split_ifs
  · exact ⟨h, .refl c⟩
  · obtain ⟨hpinned, hfollows⟩ := overChannels_keeps (@sweepChannel_keeps w now) h
    obtain ⟨hlast, hmore⟩ := @dispatch_keeps _ Failed w now hpinned
    exact ⟨hlast, hfollows.trans hmore⟩

theorem Follows.mono {fired' : Completion → Prop} (h : Follows fired c c') (himp : ∀ x, fired x → fired' x) :
    Follows fired' c c' := by
  obtain ⟨new, hnew, hfired⟩ := h.done
  exact ⟨h.key, new, hnew, fun x hx => himp x (hfired x hx)⟩

/-- One event: the channels stay on the peer's key, and a callback that does not report a failure reports a result the
peer signed. -/
theorem act_keeps (w : SettlementWire) (e : ClientEvent) (h : c.Pinned) (he : e.InfoPinned w c) :
    (e.act w c).Pinned ∧ Follows (fun x => Failed x ∨ c.Authentic w e x) c (e.act w c) := by
  have hfailed : ∀ c', Follows Failed c c' → Follows (fun x => Failed x ∨ c.Authentic w e x) c c' := fun c' hc' =>
    hc'.mono fun x hx => .inl hx
  cases e with
  | openTransfer now time id destKey amount =>
    obtain ⟨hpinned, hfollows⟩ := c.submit_keeps w now (maxQueue ≤ c.queue.length) _ h
    exact ⟨hpinned, hfailed _ hfollows⟩
  | gossip now time id authorId msgId dest budget msg =>
    obtain ⟨hpinned, hfollows⟩ := c.submit_keeps w now (maxQueue ≤ c.queue.length || !c.queue.isEmpty) _ h
    exact ⟨hpinned, hfailed _ hfollows⟩
  | sweep now =>
    obtain ⟨hpinned, hfollows⟩ := sweep_keeps w now h
    exact ⟨hpinned, hfailed _ hfollows⟩
  | close =>
    obtain ⟨hpinned, hfollows⟩ := close_keeps h
    exact ⟨hpinned, hfailed _ hfollows⟩
  | datagram now data =>
    simp only [ClientEvent.act, onReceive]
    split_ifs
    · exact ⟨h, .refl c⟩
    cases hcode : data.head? with
    | none => exact ⟨h, .refl c⟩
    | some code =>
      dsimp only
      split_ifs with hinfo hmessage
      · exact handleInfo_keeps w now h (he (hinfo ▸ hcode))
      · obtain ⟨hpinned, hfollows⟩ := @handleMessage_keeps c data w now h
        exact ⟨hpinned, hfollows.mono fun x hx => .inr hx⟩
      · exact ⟨h, .refl c⟩

end follows

theorem pinned_create (ownKey peerServerKey : Hash) (numChannels maxRetries : Nat) :
    (create ownKey peerServerKey numChannels maxRetries).Pinned := by
  intro ch hch
  rw [(List.mem_replicate.mp hch).2]
  exact keyedBy_of_state (.inl rfl)

theorem pinned_runAll {w : SettlementWire} {c : CesClientAsync} {events : List ClientEvent} (h : c.Pinned)
    (hevents : Meets (ClientEvent.act w) (ClientEvent.InfoPinned w) c events) :
    (c.runAll w events).Pinned ∧ (c.runAll w events).peerServerKey = c.peerServerKey := by
  induction events generalizing c with
  | nil => exact ⟨h, rfl⟩
  | cons e rest ih =>
    obtain ⟨hpinned, hfollows⟩ := act_keeps w e h hevents.1
    obtain ⟨hlast, hkey⟩ := ih hpinned hevents.2
    exact ⟨hlast, hkey.trans hfollows.key⟩

end CesClientAsync

/-- In every history in which each INFO that completes a handshake carries `peerServerKey`, an event that completes an
operation with `CES_OK` or with an amount is a datagram with a result for an operation in flight, with this code and
amount, signed by `peerServerKey`. -/
theorem settlement_result_authentic (w : SettlementWire) (ownKey peerServerKey : Hash) (numChannels maxRetries : Nat)
    (before : List ClientEvent) (e : ClientEvent) (after : List ClientEvent)
    (hevents : Meets (ClientEvent.act w) (ClientEvent.InfoPinned w)
      (CesClientAsync.create ownKey peerServerKey numChannels maxRetries) (before ++ e :: after)) :
    let c := (CesClientAsync.create ownKey peerServerKey numChannels maxRetries).runAll w before
    c.peerServerKey = peerServerKey ∧ ∃ new, (e.act w c).done = new ++ c.done ∧
      ∀ x ∈ new, x.rc = cesOk ∨ 0 < x.paid → c.Authentic w e x := by
  intro c
  obtain ⟨hbefore, hnow, -⟩ := (Meets.append_iff _ before (e :: after)).mp hevents
  obtain ⟨hpinned, hkey⟩ := CesClientAsync.pinned_runAll (CesClientAsync.pinned_create _ _ _ _) hbefore
  obtain ⟨-, -, new, hnew, hfired⟩ := CesClientAsync.act_keeps w e hpinned hnow
  refine ⟨hkey, new, hnew, fun x hx hpays => ?_⟩
  rcases hfired x hx with ⟨hrc, hpaid⟩ | hauthentic
  · rcases hpays with hok | hpositive
    · exact absurd hok hrc
    · rw [hpaid] at hpositive
      exact absurd hpositive (by decide)
  · exact hauthentic

/-! ### A handshake answered by someone else -/

/-- A signature of `key` is the key itself, followed by zeros: enough to tell signers apart. -/
def tagWire : SettlementWire where
  getInfo := 1
  info := 2
  message := 3
  rng := fun n => UInt64.ofNat (n + 5)
  sign := fun _ => []
  verifySignature := fun key _ sig => sig == key.bytes ++ List.replicate 33 0

def peerKey : Hash := ByteArr.ofList 32 [1]

def impostorKey : Hash := ByteArr.ofList 32 [2]

/-- An INFO for the handshake with password 5, with the given key. -/
def infoDatagram (key : Hash) : Bytes :=
  tagWire.info :: 0 :: beBytes 8 9 ++ beBytes 8 5 ++ key.bytes ++ [0]

/-- A gossip result for the operation sent with password 6: `CES_OK`, 1000 paid, signed by the given key. -/
def paidDatagram (key : Hash) : Bytes :=
  tagWire.message :: 0 :: beBytes 8 9 ++ beBytes 8 6 ++
    opCesGossip :: List.replicate 8 0 ++ [cesOk] ++ beBytes 8 1000 ++ key.bytes ++ List.replicate 33 0

/-- A gossip is asked for, and the datagrams of `key` arrive. -/
def answeredBy (key : Hash) : List ClientEvent :=
  [.gossip 0 0 7 impostorKey impostorKey impostorKey 1000 [], .datagram 1 (infoDatagram key),
    .datagram 2 (paidDatagram key)]

/-- Someone else answers the handshake and signs the result: the operation completes with `CES_OK` and 1000,
although the peer signed none of the datagrams. -/
theorem settlement_result_forged :
    ((CesClientAsync.create impostorKey peerKey 1 7).runAll tagWire (answeredBy impostorKey)).done =
      [⟨7, cesOk, 1000⟩] ∧
      ∀ data ∈ [infoDatagram impostorKey, paidDatagram impostorKey], ∀ kind ∈ [OpKind.openTransfer, OpKind.gossip],
        tagWire.fromBytes peerKey kind (data.drop minxEnvelopeBytes) = none := by
  decide +kernel

/-- The peer answers the handshake: its result is accepted. -/
theorem settlement_result_of_peer :
    let c := (CesClientAsync.create impostorKey peerKey 1 7).runAll tagWire ((answeredBy peerKey).take 2)
    c.peerServerKey = peerKey ∧ ∃ new,
      ((ClientEvent.datagram 2 (paidDatagram peerKey)).act tagWire c).done = new ++ c.done ∧
        ∀ x ∈ new, x.rc = cesOk ∨ 0 < x.paid → c.Authentic tagWire (.datagram 2 (paidDatagram peerKey)) x :=
  settlement_result_authentic tagWire impostorKey peerKey 1 7 ((answeredBy peerKey).take 2)
    (.datagram 2 (paidDatagram peerKey)) [] (by decide +kernel)

end Ces
