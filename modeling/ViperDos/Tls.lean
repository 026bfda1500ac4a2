import Mathlib.Data.List.Basic
import Mathlib.Tactic.Common

/-!
The TLS 1.3 client of `user/libtls/src/tls.cpp`: key schedule, record layer,
handshake loop, `tls_send` and `tls_recv`. The cryptographic functions are
parameters, so every result holds for whatever they compute. The incoming byte
stream is the list of records it is cut into; a stream that ends is a closed
connection. Sending to the socket succeeds. `recv_record` copies what it has received into a
buffer of its caller, which has 16384 bytes; more is an overrun, and what follows one is left
open.

`handled`, `uses` and `wire` are histories: the handshake messages the loop dispatched,
the transcripts whose hashes went into a secret or a check, and the records given to the
socket.
-/

namespace ViperDos.Tls

abbrev Bytes := List UInt8

/-- The functions `tls.cpp` declares `extern`. A MAC has 32 bytes. -/
structure Crypto where
  sha256 : Bytes → Bytes
  hmac : Bytes → Bytes → Bytes
  hkdfExtract : Bytes → Bytes → Bytes
  expandLabel : Bytes → String → Bytes → Nat → Bytes
  encrypt : Bytes → Bytes → Bytes → Bytes → Bytes
  decrypt : Bytes → Bytes → Bytes → Bytes → Option Bytes
  x25519 : Bytes → Bytes → Bytes
  hmac_length : ∀ key data, (hmac key data).length = 32

inductive State where
  | initial
  | clientHelloSent
  | waitEncryptedExtensions
  | waitCertificate
  | waitCertificateVerify
  | waitFinished
  | connected
  | closed
  | error
  deriving DecidableEq, Repr

structure TrafficKeys where
  key : Bytes
  iv : Bytes
  seqNum : UInt64

structure Handled where
  type : Nat
  body : Bytes

inductive Purpose where
  | handshakeSecrets
  | serverFinished
  | applicationSecrets
  | clientFinished
  deriving DecidableEq

structure Session where
  state : State
  clientPrivateKey : Bytes
  serverPublicKey : Bytes
  handshakeSecret : Bytes
  clientHandshakeTrafficSecret : Bytes
  serverHandshakeTrafficSecret : Bytes
  transcriptHash : Bytes
  transcript : Bytes
  writeKeys : TrafficKeys
  readKeys : TrafficKeys
  keysEstablished : Bool
  handled : List Handled
  uses : List (Purpose × Bytes)
  wire : List Bytes

def zeros (n : Nat) : Bytes := List.replicate n 0

def tlsNew : Session where
  state := .initial
  clientPrivateKey := zeros 32
  serverPublicKey := zeros 32
  handshakeSecret := zeros 32
  clientHandshakeTrafficSecret := zeros 32
  serverHandshakeTrafficSecret := zeros 32
  transcriptHash := zeros 32
  transcript := []
  writeKeys := ⟨zeros 32, zeros 12, 0⟩
  readKeys := ⟨zeros 32, zeros 12, 0⟩
  keysEstablished := false
  handled := []
  uses := []
  wire := []

/-- A record of the stream: its header type and version, its payload, and what
the receiving buffer happens to hold behind that payload. -/
structure Record where
  type : UInt8
  version : UInt8 × UInt8
  payload : Bytes
  behind : Nat → UInt8
  fits : payload.length < 65536

def writeU16 (n : Nat) : Bytes := [UInt8.ofNat (n / 256), UInt8.ofNat n]

def writeU24 (n : Nat) : Bytes := UInt8.ofNat (n / 65536) :: writeU16 n

def readU16 (view : Nat → UInt8) (pos : Nat) : Nat :=
  (view pos).toNat * 256 + (view (pos + 1)).toNat

def readU24 (view : Nat → UInt8) (pos : Nat) : Nat :=
  (view pos).toNat * 65536 + readU16 view (pos + 1)

def window (view : Nat → UInt8) (pos len : Nat) : Bytes :=
  (List.range len).map fun i => view (pos + i)

inductive Received where
  | failed
  | overrun
  | content (type : UInt8) (data : Bytes)
  deriving DecidableEq

inductive Fault where
  | error
  | overrun
  deriving DecidableEq

def Record.header (r : Record) : Bytes :=
  r.type :: r.version.1 :: r.version.2 :: writeU16 r.payload.length

section Session

variable (crypto : Crypto)

section

variable (s : Session)

def transcriptUpdate (data : Bytes) : Session :=
  let transcript :=
    if s.transcript.length + data.length ≤ 8192 then s.transcript ++ data else s.transcript
  { s with transcript := transcript, transcriptHash := crypto.sha256 transcript }

def handshakeSecret (sharedSecret : Bytes) : Bytes :=
  let earlySecret := crypto.hkdfExtract [] (zeros 32)
  let derived := crypto.expandLabel earlySecret "derived" (crypto.sha256 []) 32
  crypto.hkdfExtract derived sharedSecret

def masterSecret (secret : Bytes) : Bytes :=
  crypto.hkdfExtract (crypto.expandLabel secret "derived" (crypto.sha256 []) 32) (zeros 32)

def trafficKeys (secret : Bytes) : TrafficKeys :=
  ⟨crypto.expandLabel secret "key" [] 32, crypto.expandLabel secret "iv" [] 12, 0⟩

def usedFor (purpose : Purpose) : Session := { s with uses := s.uses ++ [(purpose, s.transcript)] }

def deriveHandshakeKeys (sharedSecret : Bytes) : Session :=
  let secret := handshakeSecret crypto sharedSecret
  let client := crypto.expandLabel secret "c hs traffic" s.transcriptHash 32
  let server := crypto.expandLabel secret "s hs traffic" s.transcriptHash 32
  { usedFor s .handshakeSecrets with
    handshakeSecret := secret
    clientHandshakeTrafficSecret := client
    serverHandshakeTrafficSecret := server
    readKeys := trafficKeys crypto server
    writeKeys := trafficKeys crypto client
    keysEstablished := true }

def deriveApplicationKeys : Session :=
  let master := masterSecret crypto s.handshakeSecret
  let client := crypto.expandLabel master "c ap traffic" s.transcriptHash 32
  let server := crypto.expandLabel master "s ap traffic" s.transcriptHash 32
  { usedFor s .applicationSecrets with
    readKeys := trafficKeys crypto server
    writeKeys := trafficKeys crypto client }

/-- The low 8 bytes of the IV are combined with the big-endian sequence number. -/
def buildNonce (keys : TrafficKeys) : Bytes :=
  keys.iv.mapIdx fun i byte =>
    if i < 4 then byte else byte ^^^ (keys.seqNum >>> (UInt64.ofNat (8 * (11 - i)))).toUInt8

def sealed (keys : TrafficKeys) (contentType : UInt8) (data : Bytes) : Bytes :=
  let aad := [23, 3, 3] ++ writeU16 (data.length + 1 + 16)
  let ciphertext := crypto.encrypt keys.key (buildNonce keys) aad (data ++ [contentType])
  [23, 3, 3] ++ writeU16 ciphertext.length ++ ciphertext

def sendRecord (contentType : UInt8) (data : Bytes) : Session :=
  if s.keysEstablished then
    { s with
      wire := s.wire ++ [sealed crypto s.writeKeys contentType data]
      writeKeys := { s.writeKeys with seqNum := s.writeKeys.seqNum + 1 } }
  else
    { s with wire := s.wire ++ [[contentType, 3, 3] ++ writeU16 data.length ++ data] }

/-- The first byte of a record decides whether it is decrypted. -/
def recvRecord (r : Record) : Received × Session :=
  if 16640 < r.payload.length then (.failed, s)
  else if s.keysEstablished ∧ r.type = 23 then
    match crypto.decrypt s.readKeys.key (buildNonce s.readKeys) r.header r.payload with
    | none => (.failed, s)
    | some plaintext =>
      if 16384 < plaintext.length then (.overrun, s)
      else
        let s := { s with readKeys := { s.readKeys with seqNum := s.readKeys.seqNum + 1 } }
        match plaintext.reverse.dropWhile (· == 0) with
        | [] => (.failed, s)
        | contentType :: rest => (.content contentType rest.reverse, s)
  else if 16384 < r.payload.length then (.overrun, s)
  else (.content r.type r.payload, s)

/-- `hello` is the ClientHello with its handshake header; its random bytes and
the key pair come from the system. -/
def sendClientHello (privateKey hello : Bytes) : Session :=
  let s := transcriptUpdate crypto { s with clientPrivateKey := privateKey } hello
  { sendRecord crypto s 22 hello with state := .clientHelloSent }

def findKeyShare (data : Nat → UInt8) (extEnd : Nat) : Nat → Nat → Option Bytes → Option Bytes
  | 0, _, found => found
  | fuel + 1, pos, found =>
    if pos + 4 ≤ extEnd then
      let extDataLen := readU16 data (pos + 2)
      let share := pos + 4
      findKeyShare data extEnd fuel (share + extDataLen)
        (if readU16 data pos = 51 ∧ 36 ≤ extDataLen ∧ readU16 data share = 29 ∧
            readU16 data (share + 2) = 32 then
          some (window data (share + 4) 32)
        else found)
    else found

/-- Reads may run past the message: `session_id_len` and the extensions' length
are not compared with `len`. -/
def processServerHello (data : Nat → UInt8) (len : Nat) : Option Session :=
  if len < 38 then none
  else
    let pos := 35 + (data 34).toNat
    if readU16 data pos ≠ 0x1303 then none
    else if len < pos + 5 then none
    else
      let extEnd := pos + 5 + readU16 data (pos + 3)
      match findKeyShare data extEnd extEnd (pos + 5) none with
      | none => none
      | some key =>
        let s := deriveHandshakeKeys crypto { s with serverPublicKey := key }
          (crypto.x25519 s.clientPrivateKey key)
        some { s with state := .waitEncryptedExtensions }

def verifyData (secret transcriptHash : Bytes) : Bytes :=
  crypto.hmac (crypto.expandLabel secret "finished" [] 32) transcriptHash

def sendFinished : Session :=
  let msg := 20 :: writeU24 32 ++ verifyData crypto s.clientHandshakeTrafficSecret s.transcriptHash
  sendRecord crypto (transcriptUpdate crypto (usedFor s .clientFinished) msg) 22 msg

def verifyFinished (data : Nat → UInt8) (len : Nat) : Bool :=
  len == 32 &&
    window data 0 32 == verifyData crypto s.serverHandshakeTrafficSecret s.transcriptHash

/-- The dispatch on `hs_type`. No case looks at the session's state. -/
def handleMessage (hsType : Nat) (data : Nat → UInt8) (len : Nat) : Option Session :=
  match hsType with
  | 2 => processServerHello crypto s data len
  | 8 => some { s with state := .waitCertificate }
  | 11 => some { s with state := .waitCertificateVerify }
  | 15 => some { s with state := .waitFinished }
  | 20 =>
    if verifyFinished crypto s data len then
      let s := deriveApplicationKeys crypto (usedFor s .serverFinished)
      some { sendFinished crypto s with state := .connected }
    else none
  | _ => some s

def takeMessage (view : Nat → UInt8) (pos len : Nat) : Option Session :=
  let hsType := (view pos).toNat
  let body := fun i => view (pos + 4 + i)
  let logged := { s with handled := s.handled ++ [⟨hsType, window body 0 len⟩] }
  handleMessage crypto (transcriptUpdate crypto logged (window view pos (4 + len)))
    hsType body len

def messageLoop (view : Nat → UInt8) (dataLen : Nat) : Nat → Nat → Session → Option Session
  | 0, _, s => some s
  | fuel + 1, pos, s =>
    if pos + 4 ≤ dataLen then
      let hsLen := readU24 view (pos + 1)
      if dataLen < pos + 4 + hsLen then none
      else (takeMessage crypto s view pos hsLen).bind
        (messageLoop view dataLen fuel (pos + 4 + hsLen))
    else some s

def handshakeContent (r : Record) (data : Bytes) : Except Fault Session :=
  match messageLoop crypto (fun i => data.getD i (r.behind i)) data.length data.length 0 s with
  | none => .error .error
  | some s => .ok s

/-- One record in `tls_handshake`. An alert and any other content type end the
handshake with an error. -/
def handshakeRecord (r : Record) : Except Fault Session :=
  match recvRecord crypto s r with
  | (.failed, _) => .error .error
  | (.overrun, _) => .error .overrun
  | (.content contentType data, s) =>
    if contentType = 22 then handshakeContent crypto s r data else .error .error

def handshakeLoop (s : Session) (records : List Record) : Except Fault (Session × List Record) :=
  if s.state = .connected then .ok (s, records)
  else
    match records with
    | [] => .error .error
    | r :: rest => (handshakeRecord crypto s r).bind fun s => handshakeLoop s rest

/-- Success gives the session and what is left of the stream. -/
def tlsHandshake (privateKey hello : Bytes) (records : List Record) :
    Except Fault (Session × List Record) :=
  if s.state = .initial then handshakeLoop crypto (sendClientHello crypto s privateKey hello) records
  else .error .error

def sendLoop : Nat → Session → Bytes → Session
  | 0, s, _ => s
  | fuel + 1, s, data =>
    if data = [] then s
    else sendLoop fuel (sendRecord crypto s 23 (data.take 16384)) (data.drop 16384)

def tlsSend (data : Bytes) : Session :=
  if s.state = .connected then sendLoop crypto data.length s data else s

end

/-- What a call of `tls_recv` reports: a negative code, zero after an alert, or
the bytes copied to the caller; or that it has overrun its buffer. -/
inductive Report where
  | error
  | overrun
  | closed
  | data (bytes : Bytes)
  deriving DecidableEq, Repr

structure Connection where
  session : Session
  buffered : Bytes
  records : List Record

/-- `tls_recv` with an empty buffer. Its retry finds the state and the buffer as
they were, so only the stream moves on. -/
def recvLoop (s : Session) (len : Nat) : List Record → Report × Connection
  | [] => (.error, ⟨s, [], []⟩)
  | r :: rest =>
    match recvRecord crypto s r with
    | (.failed, s) => (.error, ⟨s, [], rest⟩)
    | (.overrun, s) => (.overrun, ⟨s, [], rest⟩)
    | (.content contentType data, s) =>
      if contentType = 21 then (.closed, ⟨{ s with state := .closed }, [], rest⟩)
      else if contentType = 23 then (.data (data.take len), ⟨s, data.drop len, rest⟩)
      else recvLoop s len rest

def tlsRecv (c : Connection) (len : Nat) : Report × Connection :=
  if c.session.state ≠ .connected then (.error, c)
  else if c.buffered ≠ [] then
    (.data (c.buffered.take len), { c with buffered := c.buffered.drop len })
  else recvLoop crypto c.session len c.records

end Session

end ViperDos.Tls
