import ViperDos.Rings
import ViperDos.Transition

/-!
The receiving side of a TCP connection (kernel/net/netstack.cpp): what an incoming segment does
to a connection, the acknowledgements that are sent, and `socket_recv`. The connection a segment
belongs to has been found; listening sockets and the sending of data are left out, and so are the
messages. A segment that is sent is its header.
-/

namespace ViperDos.Tcp

open Rings Transition

inductive TcpState where
  | closed | listen | synSent | synReceived | established | finWait1 | finWait2 | closeWait
  | closing | lastAck | timeWait
  deriving DecidableEq

def tcpFin : UInt8 := 0x01
def tcpSyn : UInt8 := 0x02
def tcpRst : UInt8 := 0x04
def tcpAck : UInt8 := 0x10

def has (flags flag : UInt8) : Bool := flags &&& flag ≠ 0

def rxBufSize : Nat := 32768

structure TcpConnection where
  inUse : Bool
  state : TcpState
  sndUna : UInt32
  sndNxt : UInt32
  rcvNxt : UInt32
  rxBuf : Nat → UInt8
  rxHead : Nat
  rxTail : Nat

structure Segment where
  flags : UInt8
  seq : UInt32
  ack : UInt32
  payload : List UInt8

structure Sent where
  seq : UInt32
  ack : UInt32
  flags : UInt8
  window : Nat

variable {bytes : List UInt8} {n : Nat}

namespace TcpConnection

section

variable (conn : TcpConnection)

def rxAvailable : Nat :=
  if conn.rxHead ≤ conn.rxTail then conn.rxTail - conn.rxHead
  else rxBufSize - conn.rxHead + conn.rxTail

def rxWindow : Nat :=
  let used := conn.rxAvailable
  let free := if used < rxBufSize then rxBufSize - used - 1 else 0
  if 65535 < free then 65535 else free

def sendTcpSegment (flags : UInt8) (len : Nat) : TcpConnection × Sent :=
  let syn := if has flags tcpSyn then 1 else 0
  let fin := if has flags tcpFin then 1 else 0
  ({ conn with sndNxt := conn.sndNxt + syn + fin + UInt32.ofNat len },
    ⟨conn.sndNxt, conn.rcvNxt, flags, conn.rxWindow⟩)

def handleTcpSynSent (seg : Segment) : TcpConnection × List Sent :=
  if has seg.flags tcpSyn ∧ has seg.flags tcpAck then
    let (conn, sent) := sendTcpSegment
      { conn with rcvNxt := seg.seq + 1, sndUna := seg.ack, state := .established } tcpAck 0
    (conn, [sent])
  else if has seg.flags tcpRst then ({ conn with state := .closed }, [])
  else (conn, [])

def put (byte : UInt8) : TcpConnection :=
  { conn with
    rxBuf := Function.update conn.rxBuf conn.rxTail byte
    rxTail := (conn.rxTail + 1) % rxBufSize }

def handleTcpEstablishedData (seg : Segment) : TcpConnection :=
  if seg.seq ≠ conn.rcvNxt then conn
  else
    let space := rxBufSize - (conn.rxTail + rxBufSize - conn.rxHead) % rxBufSize
    if seg.payload.length ≤ space then
      let conn := seg.payload.foldl put conn
      { conn with rcvNxt := conn.rcvNxt + UInt32.ofNat seg.payload.length }
    else conn

def noteAck (seg : Segment) : TcpConnection :=
  if has seg.flags tcpAck then { conn with sndUna := seg.ack } else conn

/-- A segment with FIN is not checked against `rcv_nxt`, and its payload is not looked at. -/
def handleTcpEstablished (seg : Segment) : TcpConnection × List Sent :=
  let conn := conn.noteAck seg
  if has seg.flags tcpFin then
    let (conn, sent) :=
      sendTcpSegment { conn with rcvNxt := seg.seq + 1, state := .closeWait } tcpAck 0
    (conn, [sent])
  else if 0 < seg.payload.length then
    let (conn, sent) := sendTcpSegment (handleTcpEstablishedData conn seg) tcpAck 0
    (conn, [sent])
  else (conn, [])

def handleTcpFinWait (seg : Segment) : TcpConnection × List Sent :=
  if conn.state = .finWait1 ∧ has seg.flags tcpAck then ({ conn with state := .finWait2 }, [])
  else if conn.state = .finWait2 ∧ has seg.flags tcpFin then
    let (conn, sent) := sendTcpSegment { conn with rcvNxt := seg.seq + 1 } tcpAck 0
    ({ conn with state := .closed, inUse := false }, [sent])
  else (conn, [])

def handleTcp (seg : Segment) : TcpConnection × List Sent :=
  match conn.state with
  | .synSent => handleTcpSynSent conn seg
  | .established => handleTcpEstablished conn seg
  | .finWait1 => handleTcpFinWait conn seg
  | .finWait2 => handleTcpFinWait conn seg
  | _ => (conn, [])

def take : Nat → TcpConnection → List UInt8 × TcpConnection
  | 0, conn => ([], conn)
  | n + 1, conn =>
    let (bytes, after) := take n { conn with rxHead := (conn.rxHead + 1) % rxBufSize }
    (conn.rxBuf conn.rxHead :: bytes, after)

def verrWouldBlock : Int := -300
def verrInvalidHandle : Int := -100

def socketRecv (len : Nat) : Int × List UInt8 × TcpConnection :=
  if !conn.inUse then (verrInvalidHandle, [], conn)
  else if conn.rxAvailable = 0 then
    if conn.state = .closeWait ∨ conn.state = .closed then (0, [], conn)
    else (verrWouldBlock, [], conn)
  else
    let toRead := min conn.rxAvailable len
    let (bytes, conn) := take toRead conn
    (toRead, bytes, conn)

def ring : Rings.Ring UInt8 :=
  ⟨conn.rxBuf, conn.rxHead, conn.rxTail, conn.rxAvailable⟩

def contents (conn : TcpConnection) : List UInt8 := conn.ring.contents rxBufSize

structure Valid : Prop where
  head : conn.rxHead < rxBufSize
  tail : conn.rxTail < rxBufSize

end

variable {conn : TcpConnection}

theorem ring_sound (valid : conn.Valid) : conn.ring.Sound rxBufSize := by
  obtain ⟨head, tail⟩ := valid
  refine ⟨head, ?_, ?_⟩
  · dsimp only [ring, rxAvailable]
    split
    · rw [Nat.add_sub_cancel' (by assumption), Nat.mod_eq_of_lt tail]
    · rw [← Nat.add_assoc, Nat.add_sub_cancel' head.le, Nat.add_mod_left, Nat.mod_eq_of_lt tail]
  · dsimp only [ring, rxAvailable]
    split <;> omega

theorem available_eq (valid : conn.Valid) :
    conn.rxAvailable = (conn.rxTail + rxBufSize - conn.rxHead) % rxBufSize := by
  obtain ⟨head, tail⟩ := valid
  unfold rxAvailable rxBufSize at *
  split <;> omega

theorem available_below (valid : conn.Valid) : conn.rxAvailable < rxBufSize := by
  rw [available_eq valid]
  exact Nat.mod_lt _ (by decide)

theorem contents_length (conn : TcpConnection) : conn.contents.length = conn.rxAvailable :=
  Rings.Ring.contents_length ..

/-- One byte more, while a byte of the buffer stays free. -/
theorem put_ring (valid : conn.Valid) (room : conn.rxAvailable + 1 < rxBufSize) (byte : UInt8) :
    (conn.put byte).Valid ∧ (conn.put byte).ring = conn.ring.push rxBufSize byte := by
  have next : (conn.put byte).Valid := ⟨valid.head, Nat.mod_lt _ (by decide)⟩
  refine ⟨next, ?_⟩
  have counted : (conn.put byte).rxAvailable = conn.rxAvailable + 1 := by
    obtain ⟨head, tail⟩ := valid
    rw [available_eq ⟨head, tail⟩] at room ⊢
    rw [available_eq next]
    dsimp only [put]
    unfold rxBufSize at *
    omega
  simp only [ring, counted]
  rfl

theorem putAll_contents (valid : conn.Valid) (room : conn.rxAvailable + bytes.length < rxBufSize) :
    (bytes.foldl put conn).Valid ∧ (bytes.foldl put conn).contents = conn.contents ++ bytes := by
  induction bytes generalizing conn with
  | nil => exact ⟨valid, (List.append_nil _).symm⟩
  | cons byte rest ih =>
    rw [List.length_cons] at room
    obtain ⟨next, same⟩ := put_ring valid (by omega) byte
    have pushed : (conn.put byte).contents = conn.contents ++ [byte] := by
      rw [contents, same]
      exact Rings.Ring.push_contents (ring_sound valid) (available_below valid) byte
    have counted := contents_length (conn.put byte)
    rw [pushed, List.length_append, contents_length, List.length_singleton] at counted
    obtain ⟨last, equal⟩ := ih next (by omega)
    exact ⟨last, by rw [List.foldl_cons, equal, pushed, List.append_assoc, List.singleton_append]⟩

theorem putAll_fields (conn : TcpConnection) (bytes : List UInt8) :
    (bytes.foldl put conn).inUse = conn.inUse ∧ (bytes.foldl put conn).state = conn.state ∧
      (bytes.foldl put conn).rcvNxt = conn.rcvNxt := by
  induction bytes generalizing conn with
  | nil => exact ⟨rfl, rfl, rfl⟩
  | cons byte rest ih => exact ih (conn.put byte)

theorem take_contents (valid : conn.Valid) (enough : n ≤ conn.rxAvailable) :
    (take n conn).2.Valid ∧ conn.contents = (take n conn).1 ++ (take n conn).2.contents ∧
      (take n conn).1.length = n := by
  induction n generalizing conn with
  | zero => exact ⟨valid, rfl, rfl⟩
  | succ n ih =>
    let next : TcpConnection := { conn with rxHead := (conn.rxHead + 1) % rxBufSize }
    have sound : next.Valid := ⟨Nat.mod_lt _ (by decide), valid.tail⟩
    have counted : next.rxAvailable = conn.rxAvailable - 1 := by
      rw [available_eq valid] at enough ⊢
      rw [available_eq sound]
      dsimp only [next]
      unfold rxBufSize at *
      omega
    have popped : conn.contents = conn.rxBuf conn.rxHead :: next.contents := by
      have same : next.ring = conn.ring.pop rxBufSize := by
        simp only [ring, counted]
        rfl
      rw [contents, Rings.Ring.pop_contents (ring_sound valid) (by dsimp only [ring]; omega), contents,
        same]
      rfl
    obtain ⟨last, equal, length⟩ := ih sound (by omega)
    exact ⟨last, by rw [popped, equal]; rfl, congrArg Nat.succ length⟩

theorem take_fields (n : Nat) (conn : TcpConnection) :
    (take n conn).2.inUse = conn.inUse ∧ (take n conn).2.state = conn.state ∧
      (take n conn).2.rcvNxt = conn.rcvNxt := by
  induction n generalizing conn with
  | zero => exact ⟨rfl, rfl, rfl⟩
  | succ n ih => exact ih { conn with rxHead := (conn.rxHead + 1) % rxBufSize }

end TcpConnection

end ViperDos.Tcp
