import Ces.Lib.Layout
import Ces.Lib.Trace
import Ces.Plex.Stream

/-!
# Binding a channel

A client opens a CesPlex channel with a signed bind request and gets back a signed reply with the session token of the
channel; every request on the channel is then signed together with that token. `PlexWorld` is any number of servers
that run this code, the clients that keep their keys to themselves, and a network that may hand any bytes to anyone: a
peer of a client that does not run this code is part of the network.

What a client signs for a bind says neither which server nor which channel it is for, and the token it signs its
requests with is the one its peer names. So what holds is `Backed`: a channel is bound to a key only by a recent bind
request of that key, and a request is accepted on it only if the owner of the key signed it with the token of that
channel, whoever named that token. The same key signs UDP requests, and nothing in a signature tells what it is for: a
UDP body that has the bytes of a bind or of a request serves as one.
-/

namespace Ces

open Ces.Lib

def cesPlexOk : UInt8 := 0x01
def cesPlexMaxNameLen : Nat := 256
def cesPlexBindReqTailSize : Nat := 137
def cesPlexBindMaxAgeUs : UInt64 := 300000000
def cesPlexBindFutureDriftUs : UInt64 := 300000000

/-- The hash and the check of a signature over a digest. -/
structure PlexCrypto where
  sha256 : Bytes → Hash
  verifySignature : Hash → Hash → Bytes → Bool

/-! ### What is hashed -/

def bindRequestBytes (name : Bytes) (clientTimeUs : UInt64) (clientPubkey : Hash) : Bytes :=
  beBytes 2 (name.length % 2 ^ 16) ++ (name ++ (beBytes 8 clientTimeUs.toNat ++ clientPubkey.bytes))

def perOpBytes (verb : UInt8) (preamble : Bytes) (sessionToken : UInt64) : Bytes :=
  verb :: (preamble ++ beBytes 8 sessionToken.toNat)

theorem beBytes_uint64_inj {a b : UInt64} (h : beBytes 8 a.toNat = beBytes 8 b.toNat) : a = b := by
  have hbound : ∀ x : UInt64, x.toNat < 256 ^ 8 := fun x => x.toNat_lt
  exact UInt64.toNat_inj.mp (leBytes_inj (hbound a) (hbound b) (List.reverse_injective h))

theorem bindRequestBytes_inj {name name' : Bytes} {time time' : UInt64} {key key' : Hash}
    (h : bindRequestBytes name time key = bindRequestBytes name' time' key') :
    name = name' ∧ time = time' ∧ key = key' := by
  have hlength := congrArg List.length h
  simp only [bindRequestBytes, List.length_append, beBytes_length, key.size_eq, key'.size_eq] at hlength
  obtain ⟨-, hrest⟩ := List.append_inj h (by simp)
  obtain ⟨hname, hrest⟩ := List.append_inj hrest (by omega)
  obtain ⟨htime, hkey⟩ := List.append_inj hrest (by simp)
  exact ⟨hname, beBytes_uint64_inj htime, ByteArr.ext hkey⟩

theorem perOpBytes_inj {verb verb' : UInt8} {pre pre' : Bytes} {token token' : UInt64}
    (h : perOpBytes verb pre token = perOpBytes verb' pre' token') : verb = verb' ∧ pre = pre' ∧ token = token' := by
  obtain ⟨hverb, hrest⟩ := List.cons.inj h
  obtain ⟨hpre, htoken⟩ := List.append_inj' hrest (by simp)
  exact ⟨hverb, hpre, beBytes_uint64_inj htoken⟩

/-- A short name starts with a zero byte, which is no verb. -/
theorem bindRequestBytes_ne_perOpBytes {name : Bytes} (hname : name.length < 256) {verb : UInt8} (hverb : verb ≠ 0)
    (time : UInt64) (key : Hash) (pre : Bytes) (token : UInt64) :
    bindRequestBytes name time key ≠ perOpBytes verb pre token := by
  intro h
  have hzero : name.length % 65536 / 256 % 256 = 0 := by omega
  have hhead := congrArg List.head? h
  simp [bindRequestBytes, perOpBytes, beBytes, leBytes] at hhead
  rw [hzero] at hhead
  exact hverb hhead.symm

namespace PlexCrypto

variable (x : PlexCrypto)

def computeBindRequestDigest (name : Bytes) (clientTimeUs : UInt64) (clientPubkey : Hash) : Hash :=
  x.sha256 (bindRequestBytes name clientTimeUs clientPubkey)

def computePerOpDigest (verb : UInt8) (preamble : Bytes) (sessionToken : UInt64) : Hash :=
  x.sha256 (perOpBytes verb preamble sessionToken)

end PlexCrypto

/-! ### The bind -/

/-- A bind request as it was read. -/
structure BindRequest where
  name : Bytes
  clientTimeUs : UInt64
  clientPubkey : Hash
  claimedSha : Hash
  sig : Bytes

/-- `readNameLen`, `readName` and `readTail`: nothing while bytes are missing, or when the length of the name is not
admissible. -/
def readBindRequest (stream : Bytes) : Option BindRequest :=
  let len := beNat (stream.take 2)
  let rest := stream.drop 2
  let tail := rest.drop len
  if stream.length < 2 then none
  else if len = 0 ∨ cesPlexMaxNameLen < len then none
  else if rest.length < len + cesPlexBindReqTailSize then none
  else some ⟨rest.take len, UInt64.ofNat (beNat (tail.take 8)), ByteArr.ofList 32 (tail.drop 8),
    ByteArr.ofList 32 (tail.drop 40), (tail.drop 72).take cesPlexSigSize⟩

/-- What a handler keeps of a bound channel. -/
structure BoundChannelContext where
  boundPubkey : Hash
  sessionToken : UInt64
  serverBoundAtUs : UInt64
  deriving DecidableEq

/-- The signed time of a bind is not too far from the server's clock, in machine arithmetic. -/
def BindFresh (clientTimeUs nowUs : UInt64) : Prop :=
  ¬(nowUs + cesPlexBindFutureDriftUs < clientTimeUs ∨ clientTimeUs + cesPlexBindMaxAgeUs < nowUs)

instance (clientTimeUs nowUs : UInt64) : Decidable (BindFresh clientTimeUs nowUs) :=
  inferInstanceAs (Decidable (¬_))

/-- `Session::verifyAndDispatch` with the clock, the token the transport gave the channel, and the registered
protocols. A refusal is answered by a NACK. -/
def verifyAndDispatch (x : PlexCrypto) (bindings : Bytes → Option PlexHandler) (nowUs sessionToken : UInt64)
    (req : BindRequest) : Option BoundChannelContext :=
  let computed := x.computeBindRequestDigest req.name req.clientTimeUs req.clientPubkey
  if computed ≠ req.claimedSha then none
  else if !x.verifySignature req.clientPubkey computed req.sig then none
  else if ¬BindFresh req.clientTimeUs nowUs then none
  else if (bindings req.name).isNone then none
  else some ⟨req.clientPubkey, sessionToken, nowUs⟩

/-- `verifyPerOp`. -/
def verifyPerOp (x : PlexCrypto) (bound : BoundChannelContext) (verb : UInt8) (preamble sig : Bytes) : Bool :=
  x.verifySignature bound.boundPubkey (x.computePerOpDigest verb preamble bound.sessionToken) sig

/-- `ParsedBindReply`. -/
structure BindReply where
  status : UInt8
  serverTimeUs : UInt64
  serverPubkey : Hash
  channelSessionToken : UInt64
  serverProtoVersion : UInt32
  sha256 : Hash
  sig : Bytes

def PlexCrypto.computeBindReplyDigest (x : PlexCrypto) (reply : BindReply) (clientSha256 : Hash) : Hash :=
  x.sha256 (reply.status :: (clientSha256.bytes ++ beBytes 8 reply.serverTimeUs.toNat ++ reply.serverPubkey.bytes ++
    beBytes 8 reply.channelSessionToken.toNat ++ beBytes 4 reply.serverProtoVersion.toNat))

def PlexCrypto.verifyBindReply (x : PlexCrypto) (reply : BindReply) (clientSha256 : Hash) : Bool :=
  x.computeBindReplyDigest reply clientSha256 == reply.sha256 &&
    x.verifySignature reply.serverPubkey (x.computeBindReplyDigest reply clientSha256) reply.sig

/-! ### Servers, clients and the network -/

/-- A bind request that a client signed. -/
structure SignedBind where
  client : Hash
  name : Bytes
  timeUs : UInt64
  deriving DecidableEq

/-- A channel as its client sees it: the peer that signed the reply, and the token it named. -/
structure ClientSession where
  client : Hash
  peer : Hash
  boundSessionToken : UInt64
  deriving DecidableEq

/-- A request that a client signed. -/
structure SignedOp where
  session : ClientSession
  verb : UInt8
  preamble : Bytes
  deriving DecidableEq

/-- Anything else that is signed with a client's key, as the bytes whose SHA-256 the signature is over: the body of
a UDP request, or a reply when the client is a server itself. A body starts with an opcode where a request has its
verb, and `CES_OPEN_TRANSFER` and `KV_DEPOSIT` are both 0x10. -/
structure SignedData where
  client : Hash
  data : Bytes
  deriving DecidableEq

/-- A bound channel at a server, with the name and the signed time of the request that bound it. -/
structure ServerChannel where
  server : Hash
  name : Bytes
  clientTimeUs : UInt64
  bound : BoundChannelContext
  deriving DecidableEq

/-- A request that the handler of a channel went on to serve as one of the bound key. -/
structure AcceptedOp where
  channel : ServerChannel
  verb : UInt8
  preamble : Bytes
  deriving DecidableEq

structure PlexWorld where
  binds : List SignedBind
  sessions : List ClientSession
  ops : List SignedOp
  others : List SignedData
  channels : List ServerChannel
  accepted : List AcceptedOp

def PlexWorld.start : PlexWorld := ⟨[], [], [], [], [], []⟩

inductive PlexEvent where
  /-- A client signs a bind request. -/
  | signBind (bind : SignedBind)
  /-- Bytes arrive on a fresh channel of a server, to which its transport gave a token. -/
  | openChannel (server : Hash) (nowUs sessionToken : UInt64) (stream : Bytes)
  /-- A client that sent a bind request gets a reply; `serverPk` is the key it expects, if any. -/
  | bindReply (bind : SignedBind) (serverPk : Option Hash) (reply : BindReply)
  /-- A client signs a request on one of its channels. -/
  | signOp (op : SignedOp)
  /-- A client signs something else with its key. -/
  | signData (other : SignedData)
  /-- A request arrives on a bound channel of a server. -/
  | request (channel : ServerChannel) (verb : UInt8) (preamble sig : Bytes)

section

variable (x : PlexCrypto) (bindings : Hash → Bytes → Option PlexHandler)

/-- What the servers and clients do in an event. -/
def PlexEvent.act (w : PlexWorld) : PlexEvent → PlexWorld
  | .signBind bind => { w with binds := bind :: w.binds }
  | .openChannel server nowUs sessionToken stream =>
    match readBindRequest stream with
    | none => w
    | some req =>
      match verifyAndDispatch x (bindings server) nowUs sessionToken req with
      | none => w
      | some bound => { w with channels := ⟨server, req.name, req.clientTimeUs, bound⟩ :: w.channels }
  | .bindReply bind serverPk reply =>
    if bind ∈ w.binds ∧ reply.status = cesPlexOk ∧
        x.verifyBindReply reply (x.computeBindRequestDigest bind.name bind.timeUs bind.client) ∧
        serverPk.all (· == reply.serverPubkey) then
      { w with sessions := ⟨bind.client, reply.serverPubkey, reply.channelSessionToken⟩ :: w.sessions }
    else w
  | .signOp op => if op.session ∈ w.sessions then { w with ops := op :: w.ops } else w
  | .signData other => { w with others := other :: w.others }
  | .request channel verb preamble sig =>
    if channel ∈ w.channels ∧ (bindings channel.server channel.name).any (·.accepts verb) ∧
        verifyPerOp x channel.bound verb preamble sig then
      { w with accepted := ⟨channel, verb, preamble⟩ :: w.accepted }
    else w

def PlexWorld.runAll (w : PlexWorld) (events : List PlexEvent) : PlexWorld :=
  events.foldl (PlexEvent.act x bindings) w

/-- The holder of a key signed a digest. -/
def PlexWorld.Signed (w : PlexWorld) (key digest : Hash) : Prop :=
  (∃ bind ∈ w.binds, bind.client = key ∧ x.computeBindRequestDigest bind.name bind.timeUs bind.client = digest) ∨
    (∃ op ∈ w.ops, op.session.client = key ∧
      x.computePerOpDigest op.verb op.preamble op.session.boundSessionToken = digest) ∨
    ∃ other ∈ w.others, other.client = key ∧ x.sha256 other.data = digest

/-- Signatures of the clients' keys are not forged: one that verifies was made before. -/
def Unforged (honest : Hash → Prop) (w : PlexWorld) (key digest : Hash) (sig : Bytes) : Prop :=
  honest key → x.verifySignature key digest sig = true → w.Signed x key digest

/-- The strings hashed in an event whose hashes are then signed, or checked against a signature of a client. -/
def PlexEvent.hashed : PlexEvent → List Bytes
  | .signBind bind => [bindRequestBytes bind.name bind.timeUs bind.client]
  | .openChannel _ _ _ stream =>
    (readBindRequest stream).toList.map fun req => bindRequestBytes req.name req.clientTimeUs req.clientPubkey
  | .bindReply _ _ _ => []
  | .signOp op => [perOpBytes op.verb op.preamble op.session.boundSessionToken]
  | .signData other => [other.data]
  | .request channel verb preamble _ => [perOpBytes verb preamble channel.bound.sessionToken]

/-- No two of the given strings collide. -/
def PlexCrypto.CollisionFree (strings : List Bytes) : Prop :=
  ∀ a ∈ strings, ∀ b ∈ strings, x.sha256 a = x.sha256 b → a = b

/-- What is assumed of an event: no forged signature of a client arrives. Clients bind protocols with short names, and
no protocol has a verb zero. -/
def PlexEvent.Admissible (honest : Hash → Prop) (e : PlexEvent) (w : PlexWorld) : Prop :=
  match e with
  | .signBind bind => bind.name.length < 256
  | .openChannel _ _ _ stream => ∀ req ∈ readBindRequest stream,
      Unforged x honest w req.clientPubkey (x.computeBindRequestDigest req.name req.clientTimeUs req.clientPubkey)
        req.sig
  | .bindReply _ _ _ => True
  | .signOp op => op.verb ≠ 0
  | .signData _ => True
  | .request channel verb preamble sig =>
    Unforged x honest w channel.bound.boundPubkey
      (x.computePerOpDigest verb preamble channel.bound.sessionToken) sig

/-- The client signed a bind request with this name and time, or other data with the same bytes. -/
def PlexWorld.BindSigned (w : PlexWorld) (bind : SignedBind) : Prop :=
  bind ∈ w.binds ∨ ⟨bind.client, bindRequestBytes bind.name bind.timeUs bind.client⟩ ∈ w.others

/-- The client signed a request on a channel of its own whose peer named this token, or other data with the same
bytes. -/
def PlexWorld.OpSigned (w : PlexWorld) (client : Hash) (verb : UInt8) (preamble : Bytes) (token : UInt64) : Prop :=
  (∃ op ∈ w.ops, op.session ∈ w.sessions ∧ op.session.client = client ∧ op.session.boundSessionToken = token ∧
    op.verb = verb ∧ op.preamble = preamble) ∨ ⟨client, perOpBytes verb preamble token⟩ ∈ w.others

/-- Every channel bound to a client goes back to a bind request of that client for its protocol, recent when the channel
was bound; every request accepted as one of a client was signed by it, with the token of the channel. -/
structure PlexWorld.Backed (honest : Hash → Prop) (strings : List Bytes) (w : PlexWorld) : Prop where
  binds : ∀ bind ∈ w.binds, bind.name.length < 256 ∧ bindRequestBytes bind.name bind.timeUs bind.client ∈ strings
  ops : ∀ op ∈ w.ops, op.session ∈ w.sessions ∧ op.verb ≠ 0 ∧
    perOpBytes op.verb op.preamble op.session.boundSessionToken ∈ strings
  others : ∀ other ∈ w.others, other.data ∈ strings
  channel : ∀ channel ∈ w.channels, honest channel.bound.boundPubkey →
    w.BindSigned ⟨channel.bound.boundPubkey, channel.name, channel.clientTimeUs⟩ ∧
      BindFresh channel.clientTimeUs channel.bound.serverBoundAtUs
  accepted : ∀ acc ∈ w.accepted, acc.channel ∈ w.channels ∧ (honest acc.channel.bound.boundPubkey →
    w.OpSigned acc.channel.bound.boundPubkey acc.verb acc.preamble acc.channel.bound.sessionToken)

end

/-! ### Every run keeps channels and requests backed -/

section

variable {x : PlexCrypto} {bindings : Hash → Bytes → Option PlexHandler} {honest : Hash → Prop} {strings : List Bytes}
  {w : PlexWorld}

theorem PlexWorld.backed_start : PlexWorld.start.Backed honest strings := by
  constructor <;> simp [PlexWorld.start]

/-- What the checks of a bind say. -/
theorem verifyAndDispatch_some {protocols : Bytes → Option PlexHandler} {nowUs token : UInt64} {req : BindRequest}
    {bound : BoundChannelContext} (h : verifyAndDispatch x protocols nowUs token req = some bound) :
    bound = ⟨req.clientPubkey, token, nowUs⟩ ∧ BindFresh req.clientTimeUs nowUs ∧ (protocols req.name).isSome ∧
      x.verifySignature req.clientPubkey
        (x.computeBindRequestDigest req.name req.clientTimeUs req.clientPubkey) req.sig = true := by
  unfold verifyAndDispatch at h
  dsimp only at h
  split_ifs at h with hdigest hsig hfresh hname
  obtain rfl := Option.some.inj h
  exact ⟨rfl, hfresh, by simpa [Option.isSome_iff_ne_none] using hname, by simpa using hsig⟩

/-- The window of a bind in microseconds, for a clock that is not about to overflow. -/
theorem BindFresh.within {time now : UInt64} (h : BindFresh time now) (hnow : now.toNat < 2 ^ 63) :
    time.toNat ≤ now.toNat + 300000000 ∧ now.toNat ≤ time.toNat + 300000000 := by
  simp only [BindFresh, cesPlexBindFutureDriftUs, cesPlexBindMaxAgeUs, not_or, UInt64.lt_iff_toNat_lt,
    UInt64.toNat_add, UInt64.reduceToNat] at h
  have htime := time.toNat_lt
  omega

variable (hsha : x.CollisionFree strings)
include hsha

/-- A digest of a bind request with a short name is signed only as such, or as other data with its bytes. -/
theorem PlexWorld.Backed.of_signed_bind (hw : w.Backed honest strings) {name : Bytes} (hname : name.length < 256)
    {time : UInt64} {key : Hash} (hhashed : bindRequestBytes name time key ∈ strings)
    (hsigned : w.Signed x key (x.computeBindRequestDigest name time key)) : w.BindSigned ⟨key, name, time⟩ := by
  rcases hsigned with ⟨bind, hbind, -, hdigest⟩ | ⟨op, hop, -, hdigest⟩ | ⟨other, hother, rfl, hdigest⟩
  · obtain ⟨rfl, rfl, rfl⟩ := bindRequestBytes_inj (hsha _ (hw.binds bind hbind).2 _ hhashed hdigest)
    exact .inl hbind
  · obtain ⟨-, hverb, hop⟩ := hw.ops op hop
    exact absurd (hsha _ hop _ hhashed hdigest).symm (bindRequestBytes_ne_perOpBytes hname hverb _ _ _ _)
  · have hsame := hsha _ (hw.others other hother) _ hhashed hdigest
    exact .inr (hsame ▸ hother)

/-- A digest of a request is signed only as such, or as other data with its bytes. -/
theorem PlexWorld.Backed.of_signed_op (hw : w.Backed honest strings) {verb : UInt8} (hverb : verb ≠ 0) {pre : Bytes}
    {token : UInt64} {key : Hash} (hhashed : perOpBytes verb pre token ∈ strings)
    (hsigned : w.Signed x key (x.computePerOpDigest verb pre token)) : w.OpSigned key verb pre token := by
  rcases hsigned with ⟨bind, hbind, -, hdigest⟩ | ⟨op, hop, hkey, hdigest⟩ | ⟨other, hother, rfl, hdigest⟩
  · obtain ⟨hname, hbind⟩ := hw.binds bind hbind
    exact absurd (hsha _ hbind _ hhashed hdigest) (bindRequestBytes_ne_perOpBytes hname hverb _ _ _ _)
  · obtain ⟨hsession, -, hstring⟩ := hw.ops op hop
    obtain ⟨hsame, hpre, htoken⟩ := perOpBytes_inj (hsha _ hstring _ hhashed hdigest)
    exact .inl ⟨op, hop, hsession, hkey, htoken, hsame, hpre⟩
  · have hsame := hsha _ (hw.others other hother) _ hhashed hdigest
    exact .inr (hsame ▸ hother)

omit hsha in
theorem PlexWorld.OpSigned.mono {w' : PlexWorld} {client : Hash} {verb : UInt8} {pre : Bytes} {token : UInt64}
    (h : w.OpSigned client verb pre token) (hops : w.ops ⊆ w'.ops) (hsessions : w.sessions ⊆ w'.sessions)
    (hothers : w.others ⊆ w'.others) : w'.OpSigned client verb pre token := by
  rcases h with ⟨op, hop, hsession, hrest⟩ | hother
  · exact .inl ⟨op, hops hop, hsessions hsession, hrest⟩
  · exact .inr (hothers hother)

omit hsha in
/-- What was accepted stays signed when clients sign more. -/
theorem PlexWorld.Backed.accepted_mono {w' : PlexWorld} (hw : w.Backed honest strings) (hops : w.ops ⊆ w'.ops)
    (hsessions : w.sessions ⊆ w'.sessions) (hothers : w.others ⊆ w'.others) :
    ∀ acc ∈ w.accepted, acc.channel ∈ w.channels ∧ (honest acc.channel.bound.boundPubkey →
      w'.OpSigned acc.channel.bound.boundPubkey acc.verb acc.preamble acc.channel.bound.sessionToken) := by
  intro acc hacc
  obtain ⟨hchannel, hsigned⟩ := hw.accepted acc hacc
  exact ⟨hchannel, fun hhonest => (hsigned hhonest).mono hops hsessions hothers⟩

variable (hprotocols : ∀ server name handler, bindings server name = some handler →
  name.length < 256 ∧ handler.accepts 0 = false)
include hprotocols

theorem PlexWorld.Backed.act (hw : w.Backed honest strings) (e : PlexEvent) (hhashed : ∀ s ∈ e.hashed, s ∈ strings)
    (he : e.Admissible x honest w) : (e.act x bindings w).Backed honest strings := by
  cases e with
  | signBind bind =>
    exact
      { hw with
        binds := List.forall_mem_cons.mpr ⟨⟨he, hhashed _ List.mem_cons_self⟩, hw.binds⟩
        channel := fun channel hchannel hhonest =>
          (hw.channel channel hchannel hhonest).imp_left fun hsigned => hsigned.imp_left (List.mem_cons_of_mem bind)
        accepted := hw.accepted_mono (List.Subset.refl _) (List.Subset.refl _) (List.Subset.refl _) }
  | openChannel server nowUs token stream =>
    simp only [PlexEvent.act]
    split
    · exact hw
    next req hreq =>
    split
    · exact hw
    next bound hbound =>
    obtain ⟨rfl, hfresh, hname, hsig⟩ := verifyAndDispatch_some hbound
    obtain ⟨handler, hhandler⟩ := Option.isSome_iff_exists.mp hname
    have hshort := (hprotocols server req.name handler hhandler).1
    have hread := hhashed (bindRequestBytes req.name req.clientTimeUs req.clientPubkey)
      (by simp [PlexEvent.hashed, hreq])
    exact
      { hw with
        channel := List.forall_mem_cons.mpr
          ⟨fun hhonest => ⟨hw.of_signed_bind hsha hshort hread (he req hreq hhonest hsig), hfresh⟩, hw.channel⟩
        accepted := fun acc hacc => (hw.accepted acc hacc).imp_left (List.mem_cons_of_mem _) }
  | bindReply bind serverPk reply =>
    simp only [PlexEvent.act]
    split_ifs
    · exact
        { hw with
          ops := fun op hop => (hw.ops op hop).imp_left (List.mem_cons_of_mem _)
          accepted := hw.accepted_mono (List.Subset.refl _) (List.subset_cons_self _ _) (List.Subset.refl _) }
    · exact hw
  | signOp op =>
    simp only [PlexEvent.act]
    split_ifs with hsession
    · exact
        { hw with
          ops := List.forall_mem_cons.mpr ⟨⟨hsession, he, hhashed _ List.mem_cons_self⟩, hw.ops⟩
          accepted := hw.accepted_mono (List.subset_cons_self _ _) (List.Subset.refl _) (List.Subset.refl _) }
    · exact hw
  | signData other =>
    exact
      { hw with
        others := List.forall_mem_cons.mpr ⟨hhashed _ List.mem_cons_self, hw.others⟩
        channel := fun channel hchannel hhonest =>
          (hw.channel channel hchannel hhonest).imp_left fun hsigned => hsigned.imp_right (List.mem_cons_of_mem other)
        accepted := hw.accepted_mono (List.Subset.refl _) (List.Subset.refl _) (List.subset_cons_self _ _) }
  | request channel verb pre sig =>
    simp only [PlexEvent.act]
    split_ifs with hserved
    · obtain ⟨hchannel, hverb, hsig⟩ := hserved
      obtain ⟨handler, hhandler, haccepts⟩ := (Option.any_eq_true _ _).mp hverb
      have hnonzero : verb ≠ 0 := by
        rintro rfl
        rw [(hprotocols _ _ _ hhandler).2] at haccepts
        exact absurd haccepts (by decide)
      exact
        { hw with
          accepted := List.forall_mem_cons.mpr
            ⟨⟨hchannel, fun hhonest =>
              hw.of_signed_op hsha hnonzero (hhashed _ List.mem_cons_self) (he hhonest hsig)⟩, hw.accepted⟩ }
    · exact hw

theorem PlexWorld.Backed.runAll {events : List PlexEvent} (hw : w.Backed honest strings)
    (hhashed : ∀ s ∈ events.flatMap PlexEvent.hashed, s ∈ strings)
    (hevents : Meets (fun e w => PlexEvent.act x bindings w e) (PlexEvent.Admissible x honest) w events) :
    (w.runAll x bindings events).Backed honest strings := by
  induction events generalizing w with
  | nil => exact hw
  | cons e events ih =>
    rw [List.flatMap_cons] at hhashed
    have hfirst := hw.act hsha hprotocols e (fun s hs => hhashed s (List.mem_append_left _ hs)) hevents.1
    exact ih hfirst (fun s hs => hhashed s (List.mem_append_right _ hs)) hevents.2

end

instance (x : PlexCrypto) (honest : Hash → Prop) [DecidablePred honest] (w : PlexWorld) (key digest : Hash)
    (sig : Bytes) : Decidable (Unforged x honest w key digest sig) :=
  inferInstanceAs (Decidable (honest key → x.verifySignature key digest sig = true →
    (∃ bind ∈ w.binds, bind.client = key ∧ x.computeBindRequestDigest bind.name bind.timeUs bind.client = digest) ∨
      (∃ op ∈ w.ops, op.session.client = key ∧
        x.computePerOpDigest op.verb op.preamble op.session.boundSessionToken = digest) ∨
      ∃ other ∈ w.others, other.client = key ∧ x.sha256 other.data = digest))

instance PlexEvent.decideAdmissible (x : PlexCrypto) (honest : Hash → Prop) [DecidablePred honest] :
    ∀ e w, Decidable (PlexEvent.Admissible x honest e w)
  | .signBind bind, _ => inferInstanceAs (Decidable (bind.name.length < 256))
  | .openChannel _ _ _ stream, w => inferInstanceAs (Decidable (∀ req ∈ readBindRequest stream, Unforged x honest w
      req.clientPubkey (x.computeBindRequestDigest req.name req.clientTimeUs req.clientPubkey) req.sig))
  | .bindReply _ _ _, _ => inferInstanceAs (Decidable True)
  | .signOp op, _ => inferInstanceAs (Decidable (op.verb ≠ 0))
  | .signData _, _ => inferInstanceAs (Decidable True)
  | .request channel verb preamble sig, w => inferInstanceAs (Decidable (Unforged x honest w channel.bound.boundPubkey
      (x.computePerOpDigest verb preamble channel.bound.sessionToken) sig))

instance (x : PlexCrypto) (strings : List Bytes) : Decidable (x.CollisionFree strings) :=
  inferInstanceAs (Decidable (∀ a ∈ strings, ∀ b ∈ strings, x.sha256 a = x.sha256 b → a = b))

/-- The hash of a string is its start, and a signature is the key with the digest: enough to tell the strings and
signers below apart. -/
def tagCrypto : PlexCrypto where
  sha256 s := ByteArr.ofList 32 s
  verifySignature key digest sig := sig == key.bytes ++ digest.bytes ++ [0]

def mailProtocol : Bytes := Posix.ascii "/ces/mail/1"

/-- Every server serves mail. -/
def mailBindings (_ : Hash) (name : Bytes) : Option PlexHandler :=
  if name = mailProtocol then some (mailHandler openCores) else none

theorem mailBindings_short (server : Hash) (name : Bytes) (handler : PlexHandler)
    (h : mailBindings server name = some handler) : name.length < 256 ∧ handler.accepts 0 = false := by
  unfold mailBindings at h
  split_ifs at h with hname
  obtain rfl := Option.some.inj h
  exact ⟨by rw [hname]; decide +kernel, by decide⟩

def plexClient : Hash := ByteArr.ofList 32 [1]
def plexServer : Hash := ByteArr.ofList 32 [2]
def otherServer : Hash := ByteArr.ofList 32 [3]

/-- A peer of the client that passes on what it gets. -/
def relayPeer : Hash := ByteArr.ofList 32 [4]

def clientBind : SignedBind := ⟨plexClient, mailProtocol, 1000⟩

def clientBindDigest : Hash := tagCrypto.computeBindRequestDigest mailProtocol 1000 plexClient

/-- The request of the client as it is on the wire. -/
def clientBindStream : Bytes :=
  beBytes 2 11 ++ mailProtocol ++ beBytes 8 1000 ++ plexClient.bytes ++ clientBindDigest.bytes ++
    plexClient.bytes ++ clientBindDigest.bytes ++ [0]

/-- The reply of the peer, with a token of its choice. -/
def relayReply (token : UInt64) : BindReply :=
  let unsigned : BindReply := ⟨cesPlexOk, 1000, relayPeer, token, 1, ByteArr.zero 32, []⟩
  let digest := tagCrypto.computeBindReplyDigest unsigned clientBindDigest
  { unsigned with sha256 := digest, sig := relayPeer.bytes ++ digest.bytes ++ [0] }

def relaySession : ClientSession := ⟨plexClient, relayPeer, 77⟩

/-- A UDP request of the client. -/
def clientTransfer : SignedData := ⟨plexClient, 0x10 :: (plexClient.bytes ++ List.replicate 60 0)⟩

/-- The client signs a transfer, and binds a channel at its peer. The peer sends the request on to two servers, and
answers with the token it got from one of them; the request that the client then signs it sends there. -/
def relayRun : List PlexEvent :=
  [.signData clientTransfer,
    .signBind clientBind,
    .openChannel plexServer 2000 77 clientBindStream,
    .openChannel otherServer 3000 78 clientBindStream,
    .bindReply clientBind (some relayPeer) (relayReply 77),
    .signOp ⟨relaySession, 1, [5]⟩,
    .request ⟨plexServer, mailProtocol, 1000, ⟨plexClient, 77, 2000⟩⟩ 1 [5]
      (plexClient.bytes ++ (tagCrypto.computePerOpDigest 1 [5] 77).bytes ++ [0])]

end Ces
