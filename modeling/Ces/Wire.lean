import Ces.Lib.Codec
import Ces.Types

/-!
# Signed messages of variable length

`CesGossip`, `CesSetAlias` and `CesBulkTransfer` of `protocol.h`, with the methods `CES_INJECT_SIGNED_METHODS` gives
them. The size check compares with the size of what was kept, and the signature covers the raw bytes, so what
decides whether a message has one encoding is the payload reader alone (`Payload.Reads`). The bulk transfer refuses
a count above its limit. The other two clamp the length they read instead, and a message that declares more than the
limit is accepted with a length field that disagrees with the data.
-/

namespace Ces.Wire

open Ces.Lib FixedCodec

abbrev Signature := ByteArr 65

/-- The payload of a message: its opcode, and `getPayloadSize`, `writePayload` and `readPayload`; `none` is an
exception. -/
structure Payload (M : Type) where
  opCode : UInt8
  size : M → Nat
  write : M → Option Bytes
  read : Bytes → Option (M × Bytes)

namespace Payload

variable {M : Type} (p : Payload M)

/-- The signed bytes of a message. -/
def signed (m : M) : Option Bytes := (p.write m).map fun payload => p.opCode :: payload

/-- The fields of a message followed by its signature. -/
def toBytes (m : M) (sig : Signature) : Option Bytes := (p.signed m).map (· ++ sig.bytes)

/-- `fromBytes(bytes)` -/
def decode (b : Bytes) : Option (M × Signature) := do
  let (code, rest) ← be8.take b
  if code ≠ p.opCode then none
  let (m, rest) ← p.read rest
  let (sig, _) ← (raw 65).take rest
  some (m, sig)

/-- `fromBytes(bytes, pk)`, with what it decoded when it returns true. -/
def fromBytes {Key : Type} (verify : Key → Bytes → Signature → Bool) (pk : Key) (b : Bytes) : Option (M × Signature) :=
  match p.decode b with
  | none => none
  | some (m, sig) =>
    if b.length = 1 + p.size m + 65 ∧ verify pk (b.take (1 + p.size m)) sig then some (m, sig) else none

/-- What a reader does with the payload: it consumes the bytes it will count, and these are what the writer makes of the
fields exactly when the payload is `Canonical`. A written payload is canonical, and is read back. -/
structure Reads (Canonical : Bytes → Prop) (Within : M → Prop) : Prop where
  consumes : ∀ {b rest : Bytes} {m : M}, p.read b = some (m, rest) →
    ∃ payload, b = payload ++ rest ∧ payload.length = p.size m ∧ (p.write m = some payload ↔ Canonical b)
  returns : ∀ {m : M}, Within m → ∃ payload, p.write m = some payload ∧ payload.length = p.size m ∧
    ∀ rest, p.read (payload ++ rest) = some (m, rest)

variable {p} {Canonical : Bytes → Prop} {Within : M → Prop} {Key : Type} {verify : Key → Bytes → Signature → Bool}
  {pk pk' : Key} {b b' : Bytes} {m : M} {sig : Signature}

theorem be8_put (c : UInt8) (rest : Bytes) : be8.put c ++ rest = c :: rest := by
  have hput : be8.put c = [c] := by
    change [UInt8.ofNat (c.toNat % 256)] = [c]
    rw [Nat.mod_eq_of_lt c.toNat_lt, UInt8.ofNat_toNat]
  rw [hput]
  rfl

theorem decode_eq_some (h : p.decode b = some (m, sig)) :
    ∃ payload rest, b = p.opCode :: payload ∧ p.read payload = some (m, sig.bytes ++ rest) := by
  simp only [decode, Option.bind_eq_bind, Option.bind_eq_some_iff] at h
  obtain ⟨⟨code, payload⟩, hcode, h⟩ := h
  have hb := take_eq_some.mp hcode
  rw [be8_put] at hb
  split_ifs at h with hop
  · simp at h
  · simp only [Option.bind_eq_some_iff] at h
    obtain ⟨⟨m', rest⟩, hread, ⟨sig', tail⟩, hsig, hsome⟩ := h
    obtain ⟨rfl, rfl⟩ : m' = m ∧ sig' = sig := by simpa using hsome
    have hrest : rest = sig'.bytes ++ tail := take_eq_some.mp hsig
    replace hop : code = p.opCode := not_not.mp hop
    exact ⟨payload, tail, by rw [hb, hop], by rw [hread, hrest]⟩

/-- An accepted string is opcode, payload and signature, and nothing more. -/
theorem fromBytes_eq_some (hr : p.Reads Canonical Within) (h : p.fromBytes verify pk b = some (m, sig)) :
    ∃ payload, b = p.opCode :: (payload ++ sig.bytes) ∧ (p.write m = some payload ↔ Canonical (b.drop 1)) := by
  unfold fromBytes at h
  cases hdec : p.decode b with
  | none => simp [hdec] at h
  | some r =>
    obtain ⟨m', sig'⟩ := r
    simp only [hdec] at h
    split_ifs at h with hsize
    obtain ⟨rfl, rfl⟩ : m' = m ∧ sig' = sig := by simpa using h
    obtain ⟨body, rest, rfl, hread⟩ := decode_eq_some hdec
    obtain ⟨payload, rfl, hlen, hiff⟩ := hr.consumes hread
    have hrest : rest = [] := by
      have hcount := hsize.1
      simp only [List.length_cons, List.length_append, hlen, sig'.size_eq] at hcount
      exact List.eq_nil_of_length_eq_zero (by omega)
    subst hrest
    refine ⟨payload, by rw [List.append_nil], ?_⟩
    rw [List.drop_one, List.tail_cons]
    exact hiff

theorem toBytes_eq_iff (hr : p.Reads Canonical Within) (h : p.fromBytes verify pk b = some (m, sig)) :
    p.toBytes m sig = some b ↔ Canonical (b.drop 1) := by
  obtain ⟨payload, hb, hiff⟩ := fromBytes_eq_some hr h
  rw [← hiff, hb, toBytes, signed]
  cases p.write m with
  | none => simp
  | some other => simp

theorem fromBytes_injective (hr : p.Reads Canonical Within) (h : p.fromBytes verify pk b = some (m, sig))
    (h' : p.fromBytes verify pk' b' = some (m, sig)) (hb : Canonical (b.drop 1)) (hb' : Canonical (b'.drop 1)) :
    b = b' := by
  have henc := (toBytes_eq_iff hr h).mpr hb
  rw [(toBytes_eq_iff hr h').mpr hb'] at henc
  exact (Option.some.inj henc).symm

theorem fromBytes_toBytes (hr : p.Reads Canonical Within) (hm : Within m) (sig : Signature) :
    ∃ body, p.signed m = some body ∧ p.toBytes m sig = some (body ++ sig.bytes) ∧
      (verify pk body sig → p.fromBytes verify pk (body ++ sig.bytes) = some (m, sig)) := by
  obtain ⟨payload, hwrite, hlen, hread⟩ := hr.returns hm
  refine ⟨p.opCode :: payload, by simp [signed, hwrite], by simp [toBytes, signed, hwrite], fun hverify => ?_⟩
  have hdec : p.decode (p.opCode :: payload ++ sig.bytes) = some (m, sig) := by
    have hcode : be8.take (p.opCode :: (payload ++ sig.bytes)) = some (p.opCode, payload ++ sig.bytes) :=
      take_eq_some.mpr (be8_put _ _).symm
    have hsig : (raw 65).take sig.bytes = some (sig, []) := take_eq_some.mpr (List.append_nil _).symm
    simp [decode, hcode, hread sig.bytes, hsig]
  have htake : (p.opCode :: payload ++ sig.bytes).take (1 + p.size m) = p.opCode :: payload := by
    exact List.take_left' (by rw [List.length_cons, hlen, Nat.add_comm])
  have hcount : (p.opCode :: payload ++ sig.bytes).length = 1 + p.size m + 65 := by
    rw [List.length_append, List.length_cons, hlen, sig.size_eq]
    omega
  unfold fromBytes
  rw [hdec]
  dsimp only
  rw [if_pos ⟨hcount, by rw [htake]; exact hverify⟩]

end Payload

/-! ### Messages that end in a byte string -/

section text

variable {M H : Type} (op : UInt8) (head : FixedCodec H) (limit : Nat) (e : H × Bytes ≃ M)

/-- Fields of fixed width, the length of a string in two bytes and the string. The reader clamps the length. -/
def textPayload : Payload M where
  opCode := op
  size m := head.width + 2 + (e.symm m).2.length
  write m := some (head.put (e.symm m).1 ++ be16.put (UInt16.ofNat (e.symm m).2.length) ++ (e.symm m).2)
  read b := do
    let ((h, length), rest) ← (head.pair be16).take b
    let kept := if limit < length.toNat then limit else length.toNat
    if rest.length < kept then none else some (e (h, rest.take kept), rest.drop kept)

/-- The length a payload declares. -/
def declaredLength (b : Bytes) : Nat := (be16.get ((b.drop head.width).take 2)).toNat

theorem reads_textPayload (hlimit : limit < 2 ^ 16) :
    (textPayload op head limit e).Reads (fun b => declaredLength head b ≤ limit) fun m =>
      (e.symm m).2.length ≤ limit where
  consumes := by
    intro b rest m h
    simp only [textPayload, Option.bind_eq_bind, Option.bind_eq_some_iff] at h
    obtain ⟨⟨⟨hd, length⟩, tail⟩, htake, h⟩ := h
    have hb : b = head.put hd ++ be16.put length ++ tail := take_eq_some.mp htake
    have hdecl : declaredLength head b = length.toNat := by
      rw [declaredLength, hb, List.append_assoc, ← head.put_length hd, List.drop_left]
      have htwo : (be16.put length ++ tail).take 2 = be16.put length := by
        have hlen := be16.put_length length
        exact List.take_left' hlen
      rw [htwo, be16.get_put]
    dsimp only at h
    generalize hkept : (if limit < length.toNat then limit else length.toNat) = kept at h
    split_ifs at h with hshort
    obtain ⟨rfl, rfl⟩ : e (hd, tail.take kept) = m ∧ tail.drop kept = rest := by simpa using h
    have hlen : (tail.take kept).length = kept := by
      rw [List.length_take]
      omega
    refine ⟨head.put hd ++ be16.put length ++ tail.take kept, ?_, ?_, ?_⟩
    · rw [List.append_assoc, List.take_append_drop, hb]
    · simp only [textPayload, e.symm_apply_apply, List.length_append, head.put_length, be16.put_length]
      rfl
    · simp only [textPayload, e.symm_apply_apply, Option.some.injEq, hdecl, hlen, List.append_assoc,
        List.append_cancel_left_eq,
        List.append_cancel_right_eq]
      constructor
      · intro hsame
        have hword := congrArg UInt16.toNat (be16.put_injective hsame)
        by_contra hover
        rw [if_pos (by omega)] at hkept
        rw [UInt16.toNat_ofNat_of_lt' (by show kept < 2 ^ 16; omega)] at hword
        omega
      · intro hle
        rw [if_neg (by omega)] at hkept
        rw [← hkept, UInt16.ofNat_toNat]
  returns := by
    intro m hm
    refine ⟨_, rfl, ?_, fun rest => ?_⟩
    · simp only [textPayload, List.length_append, head.put_length, be16.put_length]
      rfl
    · have hword : (UInt16.ofNat (e.symm m).2.length).toNat = (e.symm m).2.length :=
        UInt16.toNat_ofNat_of_lt' (by show (e.symm m).2.length < 2 ^ 16; omega)
      have htake : (head.pair be16).take (head.put (e.symm m).1 ++ be16.put (UInt16.ofNat (e.symm m).2.length) ++
          (e.symm m).2 ++ rest) = some (((e.symm m).1, UInt16.ofNat (e.symm m).2.length), (e.symm m).2 ++ rest) :=
        take_eq_some.mpr (List.append_assoc _ _ _)
      simp only [textPayload, htake, Option.bind_eq_bind, Option.bind_some, hword]
      rw [if_neg (show ¬ limit < (e.symm m).2.length by omega), if_neg (by rw [List.length_append]; omega),
        List.take_left,
        List.drop_left, Prod.mk.eta, e.apply_symm_apply]

end text

structure CesGossip where
  originId : Hash
  serverId : HashPrefix
  reqNonce : UInt32
  authorId : Hash
  msgId : Hash
  dest : Hash
  budget : UInt64
  time : UInt64
  msg : Bytes
  deriving DecidableEq

def gossipHead : FixedCodec (Hash × HashPrefix × UInt32 × Hash × Hash × Hash × UInt64 × UInt64) :=
  (raw 32).pair ((raw 8).pair (be32.pair ((raw 32).pair ((raw 32).pair ((raw 32).pair (be64.pair be64))))))

def gossip : Payload CesGossip :=
  textPayload 0x15 gossipHead 1024
    ⟨fun m => ⟨m.1.1, m.1.2.1, m.1.2.2.1, m.1.2.2.2.1, m.1.2.2.2.2.1, m.1.2.2.2.2.2.1, m.1.2.2.2.2.2.2.1,
      m.1.2.2.2.2.2.2.2, m.2⟩,
    fun g => ((g.originId, g.serverId, g.reqNonce, g.authorId, g.msgId, g.dest, g.budget, g.time), g.msg),
    fun _ => rfl, fun _ => rfl⟩

structure CesSetAlias where
  originId : Hash
  serverId : HashPrefix
  reqNonce : UInt32
  aliasId : UInt32
  offset : UInt16
  bytes : Bytes
  deriving DecidableEq

def setAliasHead : FixedCodec (Hash × HashPrefix × UInt32 × UInt32 × UInt16) :=
  (raw 32).pair ((raw 8).pair (be32.pair (be32.pair be16)))

def setAlias : Payload CesSetAlias :=
  textPayload 0x16 setAliasHead aliasValueBytes
    ⟨fun m => ⟨m.1.1, m.1.2.1, m.1.2.2.1, m.1.2.2.2.1, m.1.2.2.2.2, m.2⟩,
    fun a => ((a.originId, a.serverId, a.reqNonce, a.aliasId, a.offset), a.bytes), fun _ => rfl, fun _ => rfl⟩

/-! ### Bulk transfers -/

structure BulkTransferItem where
  destKey : Hash
  amount : UInt64
  deriving DecidableEq

structure CesBulkTransfer where
  originId : Hash
  serverId : HashPrefix
  reqNonce : UInt32
  count : UInt8
  transfers : List BulkTransferItem
  deriving DecidableEq

def bulkMaxItems : Nat := 20

def bulkItem : FixedCodec BulkTransferItem :=
  ((raw 32).pair be64).iso ⟨fun t => ⟨t.1, t.2⟩, fun i => (i.destKey, i.amount), fun _ => rfl, fun _ => rfl⟩

def bulkHead : FixedCodec (Hash × HashPrefix × UInt32 × UInt8) := (raw 32).pair ((raw 8).pair (be32.pair be8))

/-- The loop of `readPayload`. -/
def readItems : Nat → Bytes → Option (List BulkTransferItem × Bytes)
  | 0, b => some ([], b)
  | n + 1, b => do
    let (item, b) ← bulkItem.take b
    let (items, b) ← readItems n b
    some (item :: items, b)

def bulkTransfer : Payload CesBulkTransfer where
  opCode := 0x01
  size m := bulkHead.width + m.transfers.length * bulkItem.width
  write m :=
    if bulkMaxItems < m.transfers.length then none
    else some (bulkHead.put (m.originId, m.serverId, m.reqNonce, UInt8.ofNat m.transfers.length) ++
      m.transfers.flatMap bulkItem.put)
  read b := do
    let ((originId, serverId, reqNonce, count), rest) ← bulkHead.take b
    if bulkMaxItems < count.toNat then none
    let (transfers, rest) ← readItems count.toNat rest
    some (⟨originId, serverId, reqNonce, count, transfers⟩, rest)

theorem readItems_eq_some {n : Nat} {b rest : Bytes} {items : List BulkTransferItem} :
    readItems n b = some (items, rest) ↔ items.length = n ∧ b = items.flatMap bulkItem.put ++ rest := by
  induction n generalizing b items with
  | zero =>
    simp only [readItems, Option.some.injEq, Prod.mk.injEq, List.length_eq_zero_iff]
    constructor
    · rintro ⟨rfl, rfl⟩
      exact ⟨rfl, rfl⟩
    · rintro ⟨rfl, rfl⟩
      exact ⟨rfl, rfl⟩
  | succ n ih =>
    simp only [readItems, Option.bind_eq_bind, Option.bind_eq_some_iff, Prod.exists, take_eq_some, Option.some.injEq,
      Prod.mk.injEq]
    constructor
    · rintro ⟨item, b', rfl, items', rest', hmore, rfl, rfl⟩
      obtain ⟨rfl, rfl⟩ := ih.mp hmore
      simp
    · rintro ⟨hlen, rfl⟩
      obtain ⟨item, items', rfl⟩ := List.exists_cons_of_length_eq_add_one hlen
      have hmore : readItems n (items'.flatMap bulkItem.put ++ rest) = some (items', rest) :=
        ih.mpr ⟨by simpa using hlen, rfl⟩
      exact ⟨item, _, by rw [List.flatMap_cons, List.append_assoc], items', rest, hmore, rfl, rfl⟩

theorem length_flatMap_bulkItem (items : List BulkTransferItem) :
    (items.flatMap bulkItem.put).length = items.length * bulkItem.width := by
  rw [List.length_flatMap]
  simp [bulkItem.put_length]

theorem reads_bulkTransfer : bulkTransfer.Reads (fun _ => True) fun m =>
    m.transfers.length ≤ bulkMaxItems ∧ m.count.toNat = m.transfers.length where
  consumes := by
    intro b rest m h
    simp only [bulkTransfer, Option.bind_eq_bind, Option.bind_eq_some_iff] at h
    obtain ⟨⟨⟨originId, serverId, reqNonce, count⟩, tail⟩, htake, h⟩ := h
    dsimp only at h
    split_ifs at h with hmany
    · simp at h
    simp only [Option.bind_eq_some_iff] at h
    obtain ⟨⟨items, tail'⟩, hitems, hsome⟩ := h
    obtain ⟨rfl, rfl⟩ : (⟨originId, serverId, reqNonce, count, items⟩ : CesBulkTransfer) = m ∧ tail' = rest := by
      simpa using hsome
    obtain ⟨hlen, rfl⟩ := readItems_eq_some.mp hitems
    have hb := take_eq_some.mp htake
    refine ⟨bulkHead.put (originId, serverId, reqNonce, count) ++ items.flatMap bulkItem.put, ?_, ?_, ?_⟩
    · rw [hb, List.append_assoc]
    · rw [List.length_append, bulkHead.put_length, length_flatMap_bulkItem]
      rfl
    · simp only [bulkTransfer, hlen, if_neg hmany, UInt8.ofNat_toNat]
  returns := by
    rintro ⟨originId, serverId, reqNonce, count, items⟩ ⟨hmany, hcount⟩
    dsimp only at hmany hcount
    refine ⟨bulkHead.put (originId, serverId, reqNonce, count) ++ items.flatMap bulkItem.put, ?_, ?_, fun rest => ?_⟩
    · simp only [bulkTransfer]
      rw [if_neg (by omega), ← hcount, UInt8.ofNat_toNat]
    · rw [List.length_append, bulkHead.put_length, length_flatMap_bulkItem]
      rfl
    · have hitems : readItems count.toNat (items.flatMap bulkItem.put ++ rest) = some (items, rest) :=
        readItems_eq_some.mpr ⟨hcount.symm, rfl⟩
      simp only [bulkTransfer, List.append_assoc, take_put, Option.bind_eq_bind, Option.bind_some]
      rw [if_neg (by omega)]
      simp [hitems]

/-! ### One encoding for each message -/

def gossipDeclares (b : Bytes) : Nat := declaredLength gossipHead (b.drop 1)
def setAliasDeclares (b : Bytes) : Nat := declaredLength setAliasHead (b.drop 1)

/-- An accepted gossip or alias patch is the encoding of what was decoded exactly when it declares no more than the
limit; an accepted bulk transfer always is. Among such strings no two decode alike, and within the limits messages
are read back. -/
theorem signed_messages_canonical_iff {Key : Type} (verify : Key → Bytes → Signature → Bool) :
    (∀ pk b m sig, gossip.fromBytes verify pk b = some (m, sig) →
      (gossip.toBytes m sig = some b ↔ gossipDeclares b ≤ 1024)) ∧
    (∀ pk b m sig, setAlias.fromBytes verify pk b = some (m, sig) →
      (setAlias.toBytes m sig = some b ↔ setAliasDeclares b ≤ aliasValueBytes)) ∧
    (∀ pk b m sig, bulkTransfer.fromBytes verify pk b = some (m, sig) → bulkTransfer.toBytes m sig = some b) ∧
    (∀ pk pk' b b' m sig, gossip.fromBytes verify pk b = some (m, sig) →
      gossip.fromBytes verify pk' b' = some (m, sig) →
      gossipDeclares b ≤ 1024 → gossipDeclares b' ≤ 1024 → b = b') ∧
    (∀ pk pk' b b' m sig, setAlias.fromBytes verify pk b = some (m, sig) →
      setAlias.fromBytes verify pk' b' = some (m, sig) →
      setAliasDeclares b ≤ aliasValueBytes → setAliasDeclares b' ≤ aliasValueBytes → b = b') ∧
    (∀ pk pk' b b' m sig, bulkTransfer.fromBytes verify pk b = some (m, sig) →
      bulkTransfer.fromBytes verify pk' b' = some (m, sig) → b = b') ∧
    (∀ (m : CesGossip) pk sig, m.msg.length ≤ 1024 → ∃ body, gossip.toBytes m sig = some (body ++ sig.bytes) ∧
      (verify pk body sig → gossip.fromBytes verify pk (body ++ sig.bytes) = some (m, sig))) ∧
    (∀ (m : CesSetAlias) pk sig, m.bytes.length ≤ aliasValueBytes → ∃ body,
      setAlias.toBytes m sig = some (body ++ sig.bytes) ∧
      (verify pk body sig → setAlias.fromBytes verify pk (body ++ sig.bytes) = some (m, sig))) ∧
    ∀ (m : CesBulkTransfer) pk sig, m.transfers.length ≤ bulkMaxItems → m.count.toNat = m.transfers.length →
      ∃ body, bulkTransfer.toBytes m sig = some (body ++ sig.bytes) ∧
        (verify pk body sig → bulkTransfer.fromBytes verify pk (body ++ sig.bytes) = some (m, sig)) := by
  have hgossip : gossip.Reads (fun b => declaredLength gossipHead b ≤ 1024) fun m => m.msg.length ≤ 1024 :=
    reads_textPayload _ _ _ _ (by decide)
  have halias : setAlias.Reads (fun b => declaredLength setAliasHead b ≤ aliasValueBytes)
      fun m => m.bytes.length ≤ aliasValueBytes := reads_textPayload _ _ _ _ (by decide)
  refine ⟨fun _ _ _ _ h => Payload.toBytes_eq_iff hgossip h, fun _ _ _ _ h => Payload.toBytes_eq_iff halias h,
    fun _ _ _ _ h => (Payload.toBytes_eq_iff reads_bulkTransfer h).mpr trivial,
    fun _ _ _ _ _ _ h h' => Payload.fromBytes_injective hgossip h h',
    fun _ _ _ _ _ _ h h' => Payload.fromBytes_injective halias h h',
    fun _ _ _ _ _ _ h h' => Payload.fromBytes_injective reads_bulkTransfer h h' trivial trivial, ?_, ?_, ?_⟩
  · intro m pk sig hm
    obtain ⟨body, -, hbytes, hback⟩ := Payload.fromBytes_toBytes hgossip hm sig
    exact ⟨body, hbytes, hback⟩
  · intro m pk sig hm
    obtain ⟨body, -, hbytes, hback⟩ := Payload.fromBytes_toBytes halias hm sig
    exact ⟨body, hbytes, hback⟩
  · intro m pk sig hm hcount
    obtain ⟨body, -, hbytes, hback⟩ := Payload.fromBytes_toBytes reads_bulkTransfer ⟨hm, hcount⟩ sig
    exact ⟨body, hbytes, hback⟩

/-- A gossip of 1024 zero bytes with everything else zero, declaring `length`. -/
def zeroGossip (length : UInt16) : Bytes :=
  0x15 :: (List.replicate gossipHead.width 0 ++ be16.put length ++ List.replicate (1024 + 65) 0)

/-- Declared as 1025 bytes or as 1024, it is accepted and decodes alike. -/
theorem gossip_accepts_two_encodings :
    ∃ m sig, gossip.fromBytes (fun (_ : Unit) _ _ => true) () (zeroGossip 1025) = some (m, sig) ∧
      gossip.fromBytes (fun (_ : Unit) _ _ => true) () (zeroGossip 1024) = some (m, sig) ∧
      gossip.toBytes m sig = some (zeroGossip 1024) ∧ zeroGossip 1025 ≠ zeroGossip 1024 := by
  refine ⟨⟨⟨List.replicate 32 0, rfl⟩, ⟨List.replicate 8 0, rfl⟩, 0, ⟨List.replicate 32 0, rfl⟩,
    ⟨List.replicate 32 0, rfl⟩,
    ⟨List.replicate 32 0, rfl⟩, 0, 0, List.replicate 1024 0⟩, ⟨List.replicate 65 0, rfl⟩, ?_, ?_, ?_, ?_⟩
  · decide +kernel
  · decide +kernel
  · decide +kernel
  · decide +kernel

end Ces.Wire
