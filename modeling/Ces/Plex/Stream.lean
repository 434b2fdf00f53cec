import Ces.File.Store
import Ces.Lib.Framing

/-!
# The request loop of a bound channel

After the bind, a CesPlex channel is a stream of requests: a verb, the length of a preamble, the preamble, a
signature, and for some verbs a body whose length the preamble declares. `readRequest` is one turn of the loop of
`cesPlexServe`: the verb, the envelope, and what the handler's dispatch does before it answers. The loop goes on
after an error of the envelope, whatever of the request was read by then.

The handlers for files, compute and mail are given by what they read. What they do with a request once it is read is
the parameter `core`.
-/

namespace Ces

open Ces.Lib

def maxPreambleLen : Nat := 4096
def cesPlexSigSize : Nat := 65
/-- A salt of eight bytes and a nonce of four, before the arguments of the verb. -/
def preambleHeadLen : Nat := 12
def cesL2CallMaxMemo : Nat := 65536

/-- What a handler does with a verified request: answer it, read its body and answer, or answer and close. -/
inductive PlexDispatch where
  | answer (status : Rc)
  | readBody (length : Nat) (finish : Bytes → Rc)
  | refuse (status : Rc)

/-- `CesPlexProtocol`, with the length of the body that the arguments of a verb declare. The handler reads the declared
body before it answers a request and goes on. -/
structure PlexHandler where
  accepts : UInt8 → Bool
  declaredBody : UInt8 → Bytes → Option Nat
  dispatch : UInt8 → Bytes → PlexDispatch
  framed_answer : ∀ verb pre status, dispatch verb pre = .answer status → declaredBody verb pre = some 0
  framed_body : ∀ verb pre length finish, dispatch verb pre = .readBody length finish →
    declaredBody verb pre = some length

section

variable (h : PlexHandler) (verifyPerOp : UInt8 → Bytes → Bytes → Bool)

/-- `plexReadVerb` and `plexReadEnvelope`, from the verb byte on. -/
def readRequest : Bytes → Reading Rc
  | [] => .waits
  | verb :: s =>
    if !h.accepts verb then .drops
    else if s.length < 4 then .waits
    else
      let preLen := beNat (s.take 4)
      -- `error` answers and goes on with the next verb, here with the preamble still unread
      if preLen = 0 ∨ maxPreambleLen < preLen then .loops .badInput 5
      else if (s.drop 4).length < preLen + cesPlexSigSize then .waits
      else
        let pre := (s.drop 4).take preLen
        let sig := ((s.drop 4).drop preLen).take cesPlexSigSize
        let envelope := 5 + preLen + cesPlexSigSize
        -- the same, with a body perhaps unread
        if !verifyPerOp verb pre sig then .loops .badInput envelope
        else if preLen < preambleHeadLen then .loops .badInput envelope
        else
          match h.dispatch verb (pre.drop preambleHeadLen) with
          | .answer status => .loops status envelope
          | .refuse status => .closes status
          | .readBody length finish =>
            let body := (s.drop 4).drop (preLen + cesPlexSigSize)
            if body.length < length then .waits else .loops (finish (body.take length)) (envelope + length)

/-- The length of the request at the start of a stream: verb, length, preamble, signature and declared body. -/
def requestExtent : Bytes → Option Nat
  | [] => none
  | verb :: s =>
    let preLen := beNat (s.take 4)
    let pre := (s.drop 4).take preLen
    (h.declaredBody verb (pre.drop preambleHeadLen)).map fun body => 5 + preLen + cesPlexSigSize + body

/-- The request at the start of a stream has a preamble of admissible length, and if it has a body, it is signed and
its preamble is long enough for salt and nonce. -/
def WellFormed : Bytes → Prop
  | [] => True
  | verb :: s =>
    let preLen := beNat (s.take 4)
    let pre := (s.drop 4).take preLen
    let sig := ((s.drop 4).drop preLen).take cesPlexSigSize
    h.accepts verb = true → 4 ≤ s.length →
      (preLen ≠ 0 ∧ preLen ≤ maxPreambleLen) ∧
        (preLen + cesPlexSigSize ≤ (s.drop 4).length →
          (verifyPerOp verb pre sig = true ∧ preambleHeadLen ≤ preLen) ∨
            h.declaredBody verb (pre.drop preambleHeadLen) = some 0)

variable {h verifyPerOp}

/-- A turn of the loop consumes exactly its request if and only if the request is well formed. -/
theorem exact_iff_wellFormed (t : Bytes) :
    Exact (readRequest h verifyPerOp) (requestExtent h) t ↔ WellFormed h verifyPerOp t := by
  cases t with
  | nil => exact ⟨fun _ => trivial, fun _ answer consumed hread => by simp [readRequest] at hread⟩
  | cons verb s =>
    unfold Exact WellFormed readRequest requestExtent
    dsimp only
    by_cases haccepts : h.accepts verb = true
    swap
    · simp [haccepts]
    by_cases hshort : s.length < 4
    · simp [haccepts, hshort, Nat.not_le.mpr hshort]
    have hfour : 4 ≤ s.length := Nat.le_of_not_lt hshort
    generalize beNat (s.take 4) = preLen
    generalize s.drop 4 = rest
    rw [if_neg (by simp [haccepts]), if_neg hshort]
    by_cases hlength : preLen = 0 ∨ maxPreambleLen < preLen
    · -- Five bytes are consumed, and every request is longer.
      rw [if_pos hlength]
      constructor
      · intro hexact
        have hfive := hexact _ _ rfl
        obtain ⟨body, -, hsum⟩ := Option.map_eq_some_iff.mp hfive
        unfold cesPlexSigSize at hsum
        omega
      · intro hformed
        obtain ⟨hlow, hhigh⟩ := (hformed haccepts hfour).1
        rcases hlength with hzero | hlong
        · exact absurd hzero hlow
        · exact absurd hhigh (Nat.not_le.mpr hlong)
    rw [if_neg hlength]
    have hadmissible : preLen ≠ 0 ∧ preLen ≤ maxPreambleLen := by
      rw [not_or, Nat.not_lt] at hlength
      exact hlength
    by_cases hstarved : rest.length < preLen + cesPlexSigSize
    · rw [if_pos hstarved]
      refine ⟨fun _ _ _ => ⟨hadmissible, fun henough => absurd hstarved (Nat.not_lt.mpr henough)⟩, fun _ => ?_⟩
      simp
    rw [if_neg hstarved]
    have henough : preLen + cesPlexSigSize ≤ rest.length := Nat.le_of_not_lt hstarved
    generalize hpre : (rest.take preLen).drop preambleHeadLen = args
    -- What the loop says of a request it goes on after without a look at its arguments.
    have hskip : ∀ status : Rc, (∀ answer consumed, Reading.loops status (5 + preLen + cesPlexSigSize) =
        .loops answer consumed → (h.declaredBody verb args).map (fun body => 5 + preLen + cesPlexSigSize + body) =
          some consumed) ↔ h.declaredBody verb args = some 0 := by
      intro status
      constructor
      · intro hexact
        obtain ⟨body, hbody, hsum⟩ := Option.map_eq_some_iff.mp (hexact _ _ rfl)
        obtain rfl : body = 0 := by omega
        exact hbody
      · intro hbody answer consumed heq
        rw [Reading.loops.injEq] at heq
        rw [hbody, ← heq.2]
        rfl
    by_cases hsigned : verifyPerOp verb (rest.take preLen) ((rest.drop preLen).take cesPlexSigSize) = true
    swap
    · rw [if_pos (by simp [hsigned]), hskip]
      simp [haccepts, hfour, hadmissible, henough, hsigned]
    rw [if_neg (by simp [hsigned])]
    by_cases hhead : preLen < preambleHeadLen
    · rw [if_pos hhead, hskip]
      simp [haccepts, hfour, hadmissible, henough, Nat.not_le.mpr hhead]
    rw [if_neg hhead]
    refine ⟨fun _ _ _ => ⟨hadmissible, fun _ => .inl ⟨hsigned, Nat.le_of_not_lt hhead⟩⟩, fun _ => ?_⟩
    cases hdispatch : h.dispatch verb args with
    | answer status => exact (hskip status).mpr (h.framed_answer _ _ _ hdispatch)
    | refuse status => simp
    | readBody length finish =>
      dsimp only
      split_ifs
      · simp
      · intro answer consumed heq
        rw [Reading.loops.injEq] at heq
        rw [h.framed_body _ _ _ _ hdispatch, ← heq.2]
        rfl

end

/-! ### The handlers -/

/-- Reading a preamble field by field; one that ends too early is refused. -/
abbrev Reader := StateT Bytes (Except Rc)

def getBytes (n : Nat) : Reader Bytes := fun s => if s.length < n then .error .badInput else .ok (s.take n, s.drop n)

def getNat (n : Nat) : Reader Nat := do return beNat (← getBytes n)

/-- What the arguments of a verb say of its body. `admitted` is whether the other arguments are acceptable. -/
structure BodyArgs where
  length : Nat
  contentHash : Bytes
  admitted : Bool

/-- The name that ends the arguments of a file verb. -/
def getName : Reader Bytes := do
  let nameLen ← getNat 2
  if nameLen = 0 ∨ maxNameLen < nameLen then throw .badName
  getBytes nameLen

/-- WRITE: offset, length, content hash, name. -/
def writeArgs : Reader BodyArgs := do
  let _ ← getNat 8
  let length ← getNat 4
  let contentHash ← getBytes 32
  let _ ← getName
  return ⟨length, contentHash, 0 < length ∧ length ≤ maxWriteLen⟩

/-- APPEND: length, content hash, name. -/
def appendArgs : Reader BodyArgs := do
  let length ← getNat 4
  let contentHash ← getBytes 32
  let _ ← getName
  return ⟨length, contentHash, 0 < length ∧ length ≤ maxWriteLen⟩

/-- CALL: instance, value, length and hash of the memo. A call without a memo is one with an empty body. -/
def callArgs : Reader BodyArgs := do
  let _ ← getNat 8
  let _ ← getNat 8
  let memoLen ← getNat 4
  let memoHash ← getBytes 32
  return ⟨memoLen, memoHash, memoLen ≤ cesL2CallMaxMemo⟩

/-- SEND: recipient, subject, length and hash of the text, path of an attachment. -/
def sendArgs (mailMaxEncodedBytes : Nat) : Reader BodyArgs := do
  let recipient ← getBytes (← getNat 2)
  let _ ← getBytes (← getNat 2)
  let textLen ← getNat 4
  let textHash ← getBytes 32
  let _ ← getBytes (← getNat 2)
  return ⟨textLen, textHash, recipient ≠ [] ∧ textLen ≤ mailMaxEncodedBytes⟩

/-- What the handlers take from outside: the hash of a body, the limit of a mail, and what is done with a request that
was read, by verb, arguments and body. -/
structure PlexCores where
  sha256 : Bytes → Bytes
  mailMaxEncodedBytes : Nat
  core : UInt8 → Bytes → Bytes → Rc

section

variable (cores : PlexCores)

/-- `dispatchWrite`, `dispatchAppend`, `dispatchCall` and `dispatchSend`: arguments that cannot be read or are not
acceptable close the channel, since a body may follow; otherwise the body is read before anything is answered. -/
def bodyDispatch (args : Reader BodyArgs) (verb : UInt8) (pre : Bytes) : PlexDispatch :=
  match args pre with
  | .error status => .refuse status
  | .ok (a, _) =>
    if a.admitted then
      .readBody a.length fun body => if cores.sha256 body ≠ a.contentHash then .internal else cores.core verb pre body
    else .refuse .badInput

/-- The length the arguments of a verb with a body declare. -/
def bodyLength (args : Reader BodyArgs) (pre : Bytes) : Option Nat :=
  match args pre with
  | .error _ => none
  | .ok (a, _) => some a.length

theorem bodyLength_of_dispatch {args : Reader BodyArgs} {verb : UInt8} {pre : Bytes} {length : Nat}
    {finish : Bytes → Rc} (h : bodyDispatch cores args verb pre = .readBody length finish) :
    bodyLength args pre = some length := by
  unfold bodyDispatch at h
  unfold bodyLength
  cases hargs : args pre with
  | error status => simp [hargs] at h
  | ok found =>
    simp only [hargs] at h ⊢
    split_ifs at h
    rw [PlexDispatch.readBody.injEq] at h
    rw [h.1]

theorem bodyDispatch_ne_answer {args : Reader BodyArgs} {verb : UInt8} {pre : Bytes} {status : Rc} :
    bodyDispatch cores args verb pre ≠ .answer status := by
  unfold bodyDispatch
  cases args pre with
  | error status => simp
  | ok found =>
    dsimp only
    split_ifs <;> simp

/-- A handler by its verbs and the arguments of those that have a body. A verb without a body answers every preamble. -/
def PlexHandler.ofVerbs (accepts : UInt8 → Bool) (bodies : UInt8 → Option (Reader BodyArgs)) : PlexHandler where
  accepts := accepts
  declaredBody verb pre := (bodies verb).elim (some 0) fun args => bodyLength args pre
  dispatch verb pre := (bodies verb).elim (.answer (cores.core verb pre [])) fun args =>
    bodyDispatch cores args verb pre
  framed_answer verb pre status h := by
    cases hverb : bodies verb with
    | none => rfl
    | some args =>
      rw [hverb] at h
      exact absurd h (bodyDispatch_ne_answer cores)
  framed_body verb pre length finish h := by
    cases hverb : bodies verb with
    | none =>
      rw [hverb] at h
      exact absurd h (by simp)
    | some args =>
      rw [hverb] at h
      exact bodyLength_of_dispatch cores h

/-- `FileHandler::serve`: CREATE to RESIZE and KV DEPOSIT. -/
def fileHandler : PlexHandler :=
  .ofVerbs cores (fun verb => (0x01 ≤ verb && verb ≤ 0x0a) || verb == 0x10) fun verb =>
    if verb = 0x02 then some writeArgs else if verb = 0x09 then some appendArgs else none

/-- `ComputeHandler::serve`: LAUNCH to CALL. -/
def computeHandler : PlexHandler :=
  .ofVerbs cores (fun verb => 0x01 ≤ verb && verb ≤ 0x06) fun verb => if verb = 0x06 then some callArgs else none

/-- `MailHandler::serve`: SEND. -/
def mailHandler : PlexHandler :=
  .ofVerbs cores (· == 0x01) fun verb => if verb = 0x01 then some (sendArgs cores.mailMaxEncodedBytes) else none

/-- The handlers that share the loop. -/
inductive PlexBuiltin where
  | file
  | compute
  | mail

def PlexBuiltin.handler : PlexBuiltin → PlexHandler
  | file => fileHandler cores
  | compute => computeHandler cores
  | mail => mailHandler cores

end

/-- For every stream: the server looks for requests only where requests begin, and goes on only after it consumed
exactly the request it answers, if and only if every request it looks at is well formed. -/
theorem stream_aligned_iff (cores : PlexCores) (builtin : PlexBuiltin) (verifyPerOp : UInt8 → Bytes → Bytes → Bool)
    (stream : Bytes) :
    let h := builtin.handler cores
    (∀ t, Reached (readRequest h verifyPerOp) stream t →
      Boundary (requestExtent h) stream t ∧ Exact (readRequest h verifyPerOp) (requestExtent h) t) ↔
    ∀ t, Reached (readRequest h verifyPerOp) stream t → WellFormed h verifyPerOp t := by
  intro h
  constructor
  · intro haligned t ht
    exact (exact_iff_wellFormed t).mp (haligned t ht).2
  · intro hformed t ht
    have hexact : ∀ t, Reached (readRequest h verifyPerOp) stream t →
        Exact (readRequest h verifyPerOp) (requestExtent h) t := fun t ht => (exact_iff_wellFormed t).mpr (hformed t ht)
    exact ⟨boundary_of_exact hexact ht, hexact t ht⟩

/-! ### A body that is read as a request -/

/-- Any hash, any limit, and a core that accepts everything. -/
def openCores : PlexCores := ⟨fun _ => [], 0, fun _ _ _ => .ok⟩

/-- A WRITE of three bytes to `/p/x`, signed by nobody. -/
def unsignedWrite : Bytes :=
  [0x02] ++ beBytes 4 62 ++ List.replicate 12 0 ++ beBytes 8 0 ++ beBytes 4 3 ++ List.replicate 32 0 ++ beBytes 2 4 ++
    [47, 112, 47, 120] ++ List.replicate 65 0 ++ [0x08, 0, 0]

/-- The signature of a WRITE does not verify: the server answers and takes the body for the next request. A request
with a length of zero leaves its signature to be read so. -/
theorem stream_reads_body_as_request :
    let h := PlexBuiltin.file.handler openCores
    let refuseAll := fun (_ : UInt8) (_ _ : Bytes) => false
    readRequest h refuseAll unsignedWrite = .loops .badInput 132 ∧ requestExtent h unsignedWrite = some 135 ∧
      unsignedWrite.drop 132 = [0x08, 0, 0] ∧
      readRequest h refuseAll ([0x02, 0, 0, 0, 0] ++ List.replicate 65 0) = .loops .badInput 5 ∧
      ¬ ∀ t, Reached (readRequest h refuseAll) unsignedWrite t →
        Boundary (requestExtent h) unsignedWrite t ∧ Exact (readRequest h refuseAll) (requestExtent h) t := by
  intro h refuseAll
  have hread : readRequest h refuseAll unsignedWrite = .loops .badInput 132 := by decide +kernel
  have hextent : requestExtent h unsignedWrite = some 135 := by decide +kernel
  refine ⟨hread, hextent, by decide +kernel, by decide +kernel, fun haligned => ?_⟩
  have hexact := (haligned unsignedWrite .start).2 _ _ hread
  rw [hextent] at hexact
  exact absurd hexact (by decide)

end Ces
