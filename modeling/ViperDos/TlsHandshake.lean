import ViperDos.Tls

/-!
What a completed `tls_handshake` certifies. The message loop never compares a
message with the state the session is in, so the order of the handshake is only
as good as the peer: `inTurn` says of the records that every message meets the
state that waits for it and none overruns the buffer, and `handshake_complete`
that such a handshake ends with keys of this session's X25519 secret. Without it,
a peer that first fills the 8192-byte transcript buffer gets its Finished accepted
under a traffic secret of zeros.
-/

namespace ViperDos.Tls

section Complete

variable (crypto : Crypto)

def sealAll : TrafficKeys → List Bytes → List Bytes
  | _, [] => []
  | keys, chunk :: rest =>
    sealed crypto keys 23 chunk :: sealAll { keys with seqNum := keys.seqNum + 1 } rest

def sessionSecret (s : Session) : Bytes :=
  handshakeSecret crypto (crypto.x25519 s.clientPrivateKey s.serverPublicKey)

/-- The Finished value that was accepted and the write keys both come from the
session's X25519 secret. -/
def Certified (s : Session) : Prop :=
  ∃ hello final, let secret := sessionSecret crypto s
    s.handled.getLast?.map Handled.body =
        some (verifyData crypto (crypto.expandLabel secret "s hs traffic" hello 32) final) ∧
      { s.writeKeys with seqNum := 0 } =
        trafficKeys crypto (crypto.expandLabel (masterSecret crypto secret) "c ap traffic" final 32)

/-- What success of the handshake stands for: the five messages arrived in
order, the keys are certified, and whatever is then passed to `tls_send`, call
after call, leaves in records sealed under the write keys. -/
structure Complete (s : Session) : Prop where
  order : s.handled.map Handled.type = [2, 8, 11, 15, 20]
  certified : Certified crypto s
  sends : ∀ datas : List Bytes, ∃ chunks : List Bytes,
    chunks.flatten = datas.flatten ∧
      (datas.foldl (tlsSend crypto) s).wire = s.wire ++ sealAll crypto s.writeKeys chunks

def awaited : State → Option Nat
  | .clientHelloSent => some 2
  | .waitEncryptedExtensions => some 8
  | .waitCertificate => some 11
  | .waitCertificateVerify => some 15
  | .waitFinished => some 20
  | _ => none

def messagesInTurn (view : Nat → UInt8) (dataLen : Nat) : Nat → Nat → Session → Bool
  | 0, _, _ => true
  | fuel + 1, pos, s =>
    let hsLen := readU24 view (pos + 1)
    if pos + 4 ≤ dataLen ∧ pos + 4 + hsLen ≤ dataLen then
      awaited s.state == some (view pos).toNat &&
        (takeMessage crypto s view pos hsLen).all
          (messagesInTurn view dataLen fuel (pos + 4 + hsLen))
    else true

/-- What `recv_record` copies to its caller has at most 16384 bytes. -/
def Fits (s : Session) (r : Record) : Prop :=
  16640 < r.payload.length ∨
    if s.keysEstablished ∧ r.type = 23 then
      ∀ plaintext ∈ crypto.decrypt s.readKeys.key (buildNonce s.readKeys) r.header r.payload,
        plaintext.length ≤ 16384
    else r.payload.length ≤ 16384

instance (s : Session) (r : Record) : Decidable (Fits crypto s r) :=
  inferInstanceAs (Decidable (_ ∨ _))

def recordInTurn (s : Session) (r : Record) : Bool :=
  Fits crypto s r &&
    match recvRecord crypto s r with
    | (.content contentType data, t) => contentType != 22 ||
      messagesInTurn crypto (fun i => data.getD i (r.behind i)) data.length data.length 0 t
    | _ => true

/-- The records that the handshake loop reads are each in turn when they are read. -/
def inTurn : Session → List Record → Bool
  | _, [] => true
  | s, r :: rest => s.state == .connected || recordInTurn crypto s r &&
    match handshakeRecord crypto s r with
    | .ok t => inTurn t rest
    | .error _ => true

end Complete

variable {crypto : Crypto} {s t : Session} {r : Record} {records rest : List Record}
  {view data : Nat → UInt8} {hsType pos len dataLen fuel : Nat}

theorem sendRecord_state (type : UInt8) (data : Bytes) :
    (sendRecord crypto s type data).state = s.state := by
  unfold sendRecord
  split <;> rfl

theorem push_state (chunks : List Bytes) :
    (chunks.foldl (sendRecord crypto · 23) s).state = s.state := by
  induction chunks generalizing s with
  | nil => rfl
  | cons chunk rest ih => exact ih.trans (sendRecord_state 23 chunk)

theorem push_wire (established : s.keysEstablished) (chunks : List Bytes) :
    (chunks.foldl (sendRecord crypto · 23) s).wire = s.wire ++ sealAll crypto s.writeKeys chunks := by
  induction chunks generalizing s with
  | nil => simp [sealAll]
  | cons chunk rest ih =>
    rw [List.foldl_cons, ih (by simp [sendRecord, established])]
    simp [sendRecord, established, sealAll]

theorem sendLoop_push (crypto : Crypto) (fuel : Nat) (data : Bytes) (enough : data.length ≤ fuel) :
    ∃ chunks : List Bytes, chunks.flatten = data ∧
      sendLoop crypto fuel s data = chunks.foldl (sendRecord crypto · 23) s := by
  induction fuel generalizing s data with
  | zero => exact ⟨[], (List.length_eq_zero_iff.mp (Nat.le_zero.mp enough)).symm, rfl⟩
  | succ fuel ih =>
    by_cases empty : data = []
    · exact ⟨[], empty.symm, by simp [sendLoop, empty]⟩
    have shorter : (data.drop 16384).length ≤ fuel := by
      simp only [List.length_drop]
      omega
    obtain ⟨chunks, whole, sent⟩ := ih (s := sendRecord crypto s 23 (data.take 16384)) _ shorter
    refine ⟨data.take 16384 :: chunks, ?_, ?_⟩
    · rw [List.flatten_cons, whole, List.take_append_drop]
    · simp only [sendLoop, empty, if_false, sent, List.foldl_cons]

theorem sends_push (crypto : Crypto) (connected : s.state = .connected) (datas : List Bytes) :
    ∃ chunks : List Bytes, chunks.flatten = datas.flatten ∧
      datas.foldl (tlsSend crypto) s = chunks.foldl (sendRecord crypto · 23) s := by
  induction datas generalizing s with
  | nil => exact ⟨[], rfl, rfl⟩
  | cons data rest ih =>
    obtain ⟨first, cut, sent⟩ := sendLoop_push crypto (s := s) _ data (Nat.le_refl _)
    have same : tlsSend crypto s data = first.foldl (sendRecord crypto · 23) s := by
      rw [tlsSend, if_pos connected, sent]
    obtain ⟨more, cuts, sents⟩ := ih ((congrArg Session.state same).trans
      ((push_state first).trans connected))
    refine ⟨first ++ more, by simp [cut, cuts], ?_⟩
    rw [List.foldl_cons, sents, same, List.foldl_append]

def heard : State → List Nat
  | .waitEncryptedExtensions => [2]
  | .waitCertificate => [2, 8]
  | .waitCertificateVerify => [2, 8, 11]
  | .waitFinished => [2, 8, 11, 15]
  | .connected => [2, 8, 11, 15, 20]
  | _ => []

structure Keyed (crypto : Crypto) (s : Session) : Prop where
  established : s.keysEstablished = true
  secret : s.handshakeSecret = sessionSecret crypto s
  server : ∃ hello, s.serverHandshakeTrafficSecret =
    crypto.expandLabel (sessionSecret crypto s) "s hs traffic" hello 32

structure Reached (crypto : Crypto) (s : Session) : Prop where
  order : s.handled.map Handled.type = heard s.state
  keyed : s.state ≠ .clientHelloSent → Keyed crypto s
  certified : s.state = .connected → Certified crypto s

theorem Reached.complete (reached : Reached crypto s) (connected : s.state = .connected) :
    Complete crypto s where
  order := by rw [reached.order, connected, heard]
  certified := reached.certified connected
  sends := by
    intro datas
    obtain ⟨chunks, cut, sent⟩ := sends_push crypto connected datas
    have keyed := reached.keyed (by simp [connected])
    exact ⟨chunks, cut, sent ▸ push_wire keyed.established chunks⟩

/-- An accepted ServerHello derives the handshake keys from the share it carries. -/
theorem serverHello_session (hello : processServerHello crypto s data len = some t) :
    ∃ key, t = { deriveHandshakeKeys crypto { s with serverPublicKey := key }
      (crypto.x25519 s.clientPrivateKey key) with state := .waitEncryptedExtensions } := by
  simp only [processServerHello] at hello
  split at hello
  · cases hello
  split at hello
  · cases hello
  split at hello
  · cases hello
  · split at hello
    · cases hello
    · cases hello
      exact ⟨_, rfl⟩

theorem serverHello_keyed (hello : processServerHello crypto s data len = some t) :
    t.handled = s.handled ∧ t.state = .waitEncryptedExtensions ∧ Keyed crypto t := by
  obtain ⟨key, rfl⟩ := serverHello_session hello
  exact ⟨rfl, rfl, rfl, rfl, s.transcriptHash, rfl⟩

/-- An accepted Finished: its body is the value computed from the server's
traffic secret, and the write keys are those of the master secret. -/
theorem finished_sent (accepted : handleMessage crypto s 20 data len = some t) :
    len = 32 ∧ window data 0 32 =
        verifyData crypto s.serverHandshakeTrafficSecret s.transcriptHash ∧
      t.state = .connected ∧ t.handled = s.handled ∧ t.keysEstablished = s.keysEstablished ∧
      t.handshakeSecret = s.handshakeSecret ∧
      t.serverHandshakeTrafficSecret = s.serverHandshakeTrafficSecret ∧
      sessionSecret crypto t = sessionSecret crypto s ∧
      { t.writeKeys with seqNum := 0 } = trafficKeys crypto (crypto.expandLabel
        (masterSecret crypto s.handshakeSecret) "c ap traffic" s.transcriptHash 32) := by
  simp only [handleMessage] at accepted
  split at accepted
  case isFalse => cases accepted
  case isTrue verified =>
    simp only [verifyFinished, Bool.and_eq_true, beq_iff_eq] at verified
    cases accepted
    refine ⟨verified.1, verified.2, rfl, ?_⟩
    cases established : s.keysEstablished <;>
      simp [sendFinished, sendRecord, transcriptUpdate, deriveApplicationKeys, usedFor, established,
        sessionSecret, trafficKeys]

theorem handleMessage_handled (handled : handleMessage crypto s hsType data len = some t) :
    t.handled = s.handled := by
  unfold handleMessage at handled
  split at handled
  · exact (serverHello_keyed handled).1
  · cases handled; rfl
  · cases handled; rfl
  · cases handled; rfl
  · exact (finished_sent handled).2.2.2.1
  · cases handled; rfl

/-- One message: in turn, it moves the session to the next state. -/
theorem takeMessage_reached (reached : Reached crypto s)
    (turn : awaited s.state = some (view pos).toNat)
    (taken : takeMessage crypto s view pos len = some t) : Reached crypto t := by
  have logged := handleMessage_handled taken
  simp only [transcriptUpdate] at logged
  have order := reached.order
  have keyed := reached.keyed
  -- the state decides which message this was, and with it the branch taken
  revert turn
  rw [takeMessage] at taken
  generalize (view pos).toNat = hsType at taken logged
  cases state : s.state <;> simp only [state, awaited, heard] at * <;> intro turn <;> cases turn
  case clientHelloSent =>
    obtain ⟨-, now, keys⟩ := serverHello_keyed taken
    exact ⟨by simp [logged, order, now, heard], fun _ => keys, by simp [now]⟩
  case waitEncryptedExtensions | waitCertificate | waitCertificateVerify =>
    cases taken
    exact ⟨by simp [transcriptUpdate, order, heard],
      fun _ => let known := keyed (by simp); ⟨known.1, known.2, known.3⟩, by simp⟩
  case waitFinished =>
    obtain ⟨rfl, body, now, -, established, secret, server, same, writes⟩ := finished_sent taken
    have known := keyed (by simp)
    obtain ⟨hello, derived⟩ := known.server
    have session : sessionSecret crypto t = sessionSecret crypto s := same
    have certified : Certified crypto t := by
      refine ⟨hello, ?final, ?finished, ?keys⟩
      case keys =>
        rw [writes, session, ← known.secret]
        rfl
      case finished =>
        rw [logged, List.getLast?_concat, Option.map_some, body, session, ← derived]
        rfl
    exact ⟨by simp [logged, order, now, heard], fun _ => ⟨established.trans known.established,
      (secret.trans known.secret).trans session.symm, hello,
      server.trans (derived.trans (by rw [session]))⟩, fun _ => certified⟩

theorem messageLoop_reached (reached : Reached crypto s)
    (turns : messagesInTurn crypto view dataLen fuel pos s = true)
    (done : messageLoop crypto view dataLen fuel pos s = some t) : Reached crypto t := by
  induction fuel generalizing s pos with
  | zero =>
    cases done
    exact reached
  | succ fuel ih =>
    simp only [messageLoop] at done
    simp only [messagesInTurn] at turns
    split at done
    next within =>
      split at done
      · cases done
      next whole =>
        obtain ⟨next, taken, rest⟩ := Option.bind_eq_some_iff.mp done
        rw [if_pos ⟨within, Nat.le_of_not_lt whole⟩, Bool.and_eq_true, taken, Option.all_some] at turns
        exact ih (takeMessage_reached reached (beq_iff_eq.mp turns.1) taken) turns.2 rest
    · cases done
      exact reached

theorem recvRecord_session (crypto : Crypto) (s : Session) (r : Record) :
    ∃ keys, (recvRecord crypto s r).2 = { s with readKeys := keys } := by
  unfold recvRecord
  split
  · exact ⟨s.readKeys, rfl⟩
  split
  · split
    · exact ⟨s.readKeys, rfl⟩
    · split
      · exact ⟨s.readKeys, rfl⟩
      · split <;> exact ⟨_, rfl⟩
  · split <;> exact ⟨s.readKeys, rfl⟩

theorem recvRecord_fits (fits : Fits crypto s r) : (recvRecord crypto s r).1 ≠ .overrun := by
  unfold recvRecord
  rcases fits with large | small
  · rw [if_pos large]
    simp
  split
  · simp
  split at small <;> rename_i mode
  · rw [if_pos mode]
    split
    · simp
    next plaintext opened =>
      rw [if_neg (Nat.not_lt_of_le (small plaintext opened))]
      split <;> simp
  · rw [if_neg mode, if_neg (Nat.not_lt_of_le small)]
    simp

theorem handshakeRecord_fits (fits : Fits crypto s r) :
    handshakeRecord crypto s r ≠ .error .overrun := by
  have plain := recvRecord_fits fits
  unfold handshakeRecord handshakeContent
  generalize recvRecord crypto s r = received at plain
  obtain ⟨_ | _ | ⟨contentType, data⟩, after⟩ := received
  · simp
  · exact absurd rfl plain
  · dsimp only
    split
    · split <;> simp
    · simp

/-- What a record in turn brings moves the session on. -/
theorem handshakeRecord_reached (reached : Reached crypto s) (turns : recordInTurn crypto s r = true)
    (done : handshakeRecord crypto s r = .ok t) : Reached crypto t := by
  obtain ⟨keys, kept⟩ := recvRecord_session crypto s r
  rw [recordInTurn, Bool.and_eq_true] at turns
  replace turns := turns.2
  unfold handshakeRecord handshakeContent at done
  generalize recvRecord crypto s r = received at turns kept done
  obtain ⟨_ | _ | ⟨contentType, data⟩, after⟩ := received
  · cases done
  · cases done
  cases kept
  dsimp only at turns done
  split at done
  next handshake =>
    rw [handshake] at turns
    split at done
    · cases done
    next u looped =>
      cases done
      refine messageLoop_reached ?_ turns looped
      exact ⟨reached.order, fun later => ⟨(reached.keyed later).1, (reached.keyed later).2,
        (reached.keyed later).3⟩, reached.certified⟩
  · cases done

theorem handshakeLoop_connected (connected : s.state = .connected) (records : List Record) :
    handshakeLoop crypto s records = .ok (s, records) := by
  unfold handshakeLoop
  exact if_pos connected

theorem handshakeLoop_cons (waiting : s.state ≠ .connected) (r : Record) (rest : List Record) :
    handshakeLoop crypto s (r :: rest) =
      (handshakeRecord crypto s r).bind fun s => handshakeLoop crypto s rest := by
  rw [handshakeLoop, if_neg waiting]

theorem handshakeLoop_reached (reached : Reached crypto s) (turns : inTurn crypto s records = true) :
    handshakeLoop crypto s records ≠ .error .overrun ∧ ∀ t rest,
      handshakeLoop crypto s records = .ok (t, rest) → Reached crypto t ∧ t.state = .connected := by
  fun_induction handshakeLoop crypto s records with
  | case1 s records connected =>
    refine ⟨by simp, fun t rest same => ?_⟩
    cases same
    exact ⟨reached, connected⟩
  | case2 => simp
  | case3 s waiting r more ih =>
    rw [inTurn, beq_false_of_ne waiting, Bool.false_or, Bool.and_eq_true] at turns
    have fits : Fits crypto s r := by
      have both := turns.1
      rw [recordInTurn, Bool.and_eq_true] at both
      exact of_decide_eq_true both.1
    have clear := handshakeRecord_fits fits
    cases outcome : handshakeRecord crypto s r with
    | error fault =>
      rw [outcome] at clear
      refine ⟨fun same => clear ?_, fun _ _ same => by cases same⟩
      cases same
      rfl
    | ok u =>
      rw [outcome] at turns
      exact ih u (handshakeRecord_reached reached turns.1 outcome) turns.2

/-- A handshake all of whose messages arrive in the state that waits for them does not overrun
the buffer, and if it succeeds, it is complete. -/
theorem handshake_complete (crypto : Crypto) (privateKey hello : Bytes) (records : List Record)
    (turns : inTurn crypto (sendClientHello crypto tlsNew privateKey hello) records = true) :
    tlsHandshake crypto tlsNew privateKey hello records ≠ .error .overrun ∧
      ∀ session rest, tlsHandshake crypto tlsNew privateKey hello records = .ok (session, rest) →
        Complete crypto session := by
  have start : Reached crypto (sendClientHello crypto tlsNew privateKey hello) :=
    ⟨rfl, fun other => absurd rfl other, fun other => by cases other⟩
  have loop : tlsHandshake crypto tlsNew privateKey hello records =
      handshakeLoop crypto (sendClientHello crypto tlsNew privateKey hello) records := if_pos rfl
  rw [loop]
  obtain ⟨clear, done⟩ := handshakeLoop_reached start turns
  refine ⟨clear, fun session rest succeeds => ?_⟩
  obtain ⟨reached, connected⟩ := done session rest succeeds
  exact reached.complete connected

section Checksums

def labelByte : String → UInt8
  | "derived" => 1
  | "c hs traffic" => 2
  | "s hs traffic" => 3
  | "c ap traffic" => 4
  | "s ap traffic" => 5
  | "key" => 6
  | "iv" => 7
  | "finished" => 8
  | _ => 0

def total (data : Bytes) : UInt8 := data.foldr (· + ·) 0

def tag (key nonce aad plaintext : Bytes) : Bytes :=
  List.replicate 16 (total (key ++ nonce ++ aad ++ plaintext))

/-- Sums of bytes in the place of the cryptographic functions. -/
def checksums : Crypto where
  sha256 data := List.replicate 32 (total data)
  hmac key data := List.replicate 32 (total (key ++ data))
  hkdfExtract salt ikm := List.replicate 32 (total (salt ++ ikm))
  expandLabel secret label context n :=
    List.replicate n (labelByte label + total (secret ++ context))
  encrypt key nonce aad plaintext :=
    plaintext.map (· + total (key ++ nonce)) ++ tag key nonce aad plaintext
  decrypt key nonce aad ciphertext :=
    let plaintext := (ciphertext.take (ciphertext.length - 16)).map (· - total (key ++ nonce))
    if ciphertext.drop (ciphertext.length - 16) = tag key nonce aad plaintext then some plaintext
    else none
  x25519 secret peer := List.zipWith (· * ·) secret peer
  hmac_length _ _ := List.length_replicate

def ownKey : Bytes := List.replicate 32 3

/-- The five messages in one record; the ServerHello's only extension is an
X25519 key share. -/
def fiveMessages : Record where
  type := 22
  version := (3, 3)
  payload := [2, 0, 0, 80] ++ zeros 35 ++ [0x13, 0x03, 0, 0, 40, 0, 51, 0, 36, 0, 29, 0, 32] ++
    List.replicate 32 5 ++ [8, 0, 0, 0, 11, 0, 0, 0, 15, 0, 0, 0, 20, 0, 0, 32] ++
    List.replicate 32 96
  behind _ := 0
  fits := by simp [zeros]

theorem five_messages_complete : ∃ session rest,
    tlsHandshake checksums tlsNew ownKey [1, 0, 0, 0] [fiveMessages] = .ok (session, rest) ∧
      Complete checksums session := by
  have turns : inTurn checksums (sendClientHello checksums tlsNew ownKey [1, 0, 0, 0])
      [fiveMessages] = true := by decide +kernel
  have accepted : (tlsHandshake checksums tlsNew ownKey [1, 0, 0, 0] [fiveMessages]).isOk := by
    decide +kernel
  obtain ⟨-, complete⟩ := handshake_complete checksums ownKey [1, 0, 0, 0] [fiveMessages] turns
  generalize tlsHandshake checksums tlsNew ownKey [1, 0, 0, 0] [fiveMessages] = outcome at *
  obtain _ | ⟨session, rest⟩ := outcome
  · cases accepted
  · exact ⟨session, rest, rfl, complete session rest rfl⟩

end Checksums

section Forgery

variable (crypto)

def message (hsType : UInt8) (body : Bytes) : Bytes := hsType :: writeU24 body.length ++ body

theorem message_length (hsType : UInt8) (body : Bytes) :
    (message hsType body).length = 4 + body.length := by
  simp [message, writeU24, writeU16]
  omega

def clearMessage (hsType : UInt8) (body : Bytes) (small : body.length < 16000) : Record where
  type := 22
  version := (3, 3)
  payload := message hsType body
  behind _ := 0
  fits := by rw [message_length]; omega

theorem window_getD (data : Bytes) (behind : Nat → UInt8) :
    window (fun i => data.getD i (behind i)) 0 data.length = data := by
  apply List.ext_getElem
  · simp [window]
  · intro i _ inside
    simp [window, inside]

/-- Before keys are established, such a record is just its message. -/
theorem clearMessage_taken (hsType : UInt8) (body : Bytes) (small : body.length < 16000)
    (clear : s.keysEstablished = false) :
    ∃ data, window data 0 body.length = body ∧ ∀ t,
      handleMessage crypto (transcriptUpdate crypto
          { s with handled := s.handled ++ [⟨hsType.toNat, body⟩] }
          (message hsType body)) hsType.toNat data body.length = some t →
        handshakeRecord crypto s (clearMessage hsType body small) = .ok t := by
  let payload := message hsType body
  let view := fun i => payload.getD i 0
  let data := fun i => view (0 + 4 + i)
  have size : payload.length = 4 + body.length := message_length hsType body
  have length : readU24 view 1 = body.length := by
    simp [view, payload, message, readU24, readU16, writeU24, writeU16]
    omega
  have inner : window data 0 body.length = body := by
    have shifted : data = fun i => body.getD i 0 := by
      funext i
      simp [data, view, payload, message, writeU24, writeU16, Nat.add_comm 4 i]
    rw [shifted]
    exact window_getD body _
  have outer : window view 0 (4 + body.length) = payload := size ▸ window_getD payload _
  refine ⟨data, inner, fun t handled => ?_⟩
  have received : recvRecord crypto s (clearMessage hsType body small) = (.content 22 payload, s) := by
    have room : (clearMessage hsType body small).payload.length ≤ 16384 := by
      change payload.length ≤ _
      omega
    rw [recvRecord, if_neg (by omega), if_neg (by simp [clear]), if_neg (by omega)]
    rfl
  have once : messageLoop crypto view payload.length payload.length 0 s =
      takeMessage crypto s view 0 body.length := by
    rw [size, Nat.add_comm 4, messageLoop]
    simp only [length]
    rw [if_pos (by omega), if_neg (by omega)]
    have finish : messageLoop crypto view (body.length + 4) (body.length + 3)
        (0 + 4 + body.length) = some := by
      funext next
      rw [messageLoop, if_neg (by omega)]
    rw [finish, Option.bind_fun_some]
  have taken : takeMessage crypto s view 0 body.length = some t := by
    rw [takeMessage, outer]
    exact (congrArg (fun seen => handleMessage crypto (transcriptUpdate crypto
      { s with handled := s.handled ++ [⟨hsType.toNat, seen⟩] } payload)
      hsType.toNat data body.length) inner).trans handled
  have looped : messageLoop crypto (fun i => payload.getD i
      ((clearMessage hsType body small).behind i)) payload.length payload.length 0 s = some t :=
    once.trans taken
  simp only [handshakeRecord, received, if_true, handshakeContent, looped]

theorem zeros_length (n : Nat) : (zeros n).length = n := List.length_replicate

/-- The attack: an unknown message that fills the transcript buffer behind the
ClientHello, then a Finished computed from a traffic secret of zeros. The full
buffer keeps the Finished itself out of the hash it is compared with. -/
def forged (hello : Bytes) : List Record :=
  [clearMessage 99 (zeros 8092) (by rw [zeros_length]; decide),
    clearMessage 20 (verifyData crypto (zeros 32)
      (crypto.sha256 (hello ++ message 99 (zeros 8092)))) (by simp [verifyData, crypto.hmac_length])]

theorem forged_accepted (privateKey hello : Bytes) (short : hello.length = 96) :
    ∃ session, tlsHandshake crypto tlsNew privateKey hello (forged crypto hello) =
        .ok (session, []) ∧ session.handled.map Handled.type = [99, 20] := by
  let start := sendClientHello crypto tlsNew privateKey hello
  let filler := message 99 (zeros 8092)
  let full := transcriptUpdate crypto { start with handled := [⟨99, zeros 8092⟩] } filler
  have size : filler.length = 8096 := by rw [message_length, zeros_length]
  have sent : start.transcript = hello := by
    simp [start, sendClientHello, sendRecord, transcriptUpdate, tlsNew, short]
  have filled : full.transcript = hello ++ filler := by
    simp [full, transcriptUpdate, sent, short, size]
  let mac := verifyData crypto (zeros 32) (crypto.sha256 (hello ++ filler))
  have width : mac.length = 32 := crypto.hmac_length _ _
  let seen := transcriptUpdate crypto
    { full with handled := full.handled ++ [⟨20, mac⟩] } (message 20 mac)
  obtain ⟨_, _, first⟩ := clearMessage_taken crypto (s := start) 99 (zeros 8092)
    (by rw [zeros_length]; decide) rfl
  obtain ⟨data, body, second⟩ := clearMessage_taken crypto (s := full) 20 mac (by omega) rfl
  have hash : seen.transcriptHash = crypto.sha256 (hello ++ filler) := by
    simp only [seen, transcriptUpdate, filled, List.length_append, short, size, message_length, width]
    rfl
  have verified : verifyFinished crypto seen data mac.length = true := by
    rw [width] at body ⊢
    rw [verifyFinished, body, hash]
    simp only [beq_self_eq_true, Bool.true_and, beq_iff_eq]
    rfl
  obtain ⟨session, accepted⟩ : ∃ session, handleMessage crypto seen 20 data mac.length =
      some session := ⟨_, if_pos verified⟩
  have connected := (finished_sent accepted).2.2.1
  refine ⟨session, ?_, ?_⟩
  · calc tlsHandshake crypto tlsNew privateKey hello (forged crypto hello)
      _ = handshakeLoop crypto start (forged crypto hello) := if_pos rfl
      _ = handshakeLoop crypto full (forged crypto hello).tail := by
          rw [forged, handshakeLoop_cons (fun same => by cases same), first full rfl]
          rfl
      _ = handshakeLoop crypto session [] := by
          rw [forged, List.tail_cons, handshakeLoop_cons (fun same => by cases same),
            second session accepted]
          rfl
      _ = .ok (session, []) := handshakeLoop_connected connected []
  · rw [handleMessage_handled accepted]
    rfl

end Forgery

/-- No choice of cryptographic functions makes success mean a complete
handshake. A ClientHello without a host name has 96 bytes. -/
theorem forged_finished_accepted :
    ¬ ∃ (crypto : Crypto) (privateKey hello : Bytes), hello.length = 96 ∧
      ∀ session rest, tlsHandshake crypto tlsNew privateKey hello (forged crypto hello) =
        .ok (session, rest) → Complete crypto session := by
  rintro ⟨crypto, privateKey, hello, short, complete⟩
  obtain ⟨session, succeeds, order⟩ := forged_accepted crypto privateKey hello short
  have := (complete session [] succeeds).order
  simp [order] at this

end ViperDos.Tls
