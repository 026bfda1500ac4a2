import ViperDos.Tcp

/-!
A connection and the byte stream of its peer. The peer sends segments of one stream, which
arrive in any order, more than once or not at all, and the program receives. What was returned
and what waits in the buffer is together the part of the stream that has been acknowledged, as
long as no segment fills the buffer to the last byte and a FIN comes alone and in its turn.
-/

namespace ViperDos.Tcp

open Transition TcpConnection

structure Session where
  conn : TcpConnection
  returned : List UInt8
  sent : List Sent

/-- A segment with `len` bytes of the stream from `position` on, or a call of `socket_recv`. -/
inductive Event where
  | segment (flags : UInt8) (ack : UInt32) (position len : Nat)
  | recv (len : Nat)

structure FromPeer (stream : List UInt8) (flags : UInt8) (position len : Nat) : Prop where
  inside : position + len ≤ stream.length
  last : has flags tcpFin = true → position + len = stream.length

section

variable (stream : List UInt8) (irs : UInt32)

def segmentOf (flags : UInt8) (ack : UInt32) (position len : Nat) : Segment :=
  ⟨flags, irs + UInt32.ofNat position, ack, (stream.drop position).take len⟩

inductive Step (stream : List UInt8) (irs : UInt32) : Session → Event → Session → Prop where
  | segment {s : Session} {flags : UInt8} {ack : UInt32} {position len : Nat}
      (peer : FromPeer stream flags position len) :
      Step stream irs s (.segment flags ack position len)
        ⟨(handleTcp s.conn (segmentOf stream irs flags ack position len)).1, s.returned,
          s.sent ++ (handleTcp s.conn (segmentOf stream irs flags ack position len)).2⟩
  | recv {s : Session} {len : Nat} :
      Step stream irs s (.recv len)
        ⟨(socketRecv s.conn len).2.2, s.returned ++ (socketRecv s.conn len).2.1, s.sent⟩

def Session.received (s : Session) : Nat := s.returned.length + s.conn.rxAvailable

/-- A FIN comes without data and in its turn, a segment does not fill the buffer to the last
byte, and none is so old that its sequence number has come round. -/
def Orderly (irs : UInt32) (s : Session) : Event → Prop
  | .segment flags _ position len => s.conn.state = .established →
      (has flags tcpFin = true → len = 0 ∧ irs + UInt32.ofNat position = s.conn.rcvNxt) ∧
      (irs + UInt32.ofNat position = s.conn.rcvNxt →
        position = s.received ∧ s.conn.rxAvailable + len ≠ rxBufSize)
  | .recv _ => True

/-- The program gets the stream in order, whatever was acknowledged can be received, and the end
is reported after the last byte. The FIN counts as one more byte. -/
structure Delivers (s : Session) : Prop where
  ordered : s.returned <+: stream
  available : ∀ len, s.returned ++ (socketRecv s.conn len).2.1 =
    stream.take (s.returned.length + min s.conn.rxAvailable len)
  acked : ∀ sent ∈ s.sent, ∃ a, sent.ack = irs + UInt32.ofNat a ∧
    (a ≤ s.received ∨ a = stream.length + 1 ∧ s.received = stream.length)
  ended : ∀ len, 0 < len → (socketRecv s.conn len).1 = 0 → s.returned = stream

structure Following (s : Session) : Prop where
  inUse : s.conn.inUse = true
  valid : s.conn.Valid
  bytes : s.returned ++ s.conn.contents = stream.take s.received
  bound : s.received ≤ stream.length
  state : s.conn.state = .established ∧ s.conn.rcvNxt = irs + UInt32.ofNat s.received ∨
    s.conn.state = .closeWait ∧ s.received = stream.length
  acked : ∀ sent ∈ s.sent, ∃ a, sent.ack = irs + UInt32.ofNat a ∧
    (a ≤ s.received ∨ a = stream.length + 1 ∧ s.received = stream.length)

end

variable {stream : List UInt8} {irs : UInt32} {s after : Session} {sent : List Sent}
  {conn : TcpConnection} {position len : Nat} {flags : UInt8}

section

theorem noteAck_fields (conn : TcpConnection) (seg : Segment) :
    (conn.noteAck seg).inUse = conn.inUse ∧ (conn.noteAck seg).state = conn.state ∧
      (conn.noteAck seg).rcvNxt = conn.rcvNxt ∧ (conn.noteAck seg).ring = conn.ring := by
  unfold noteAck
  split <;> exact ⟨rfl, rfl, rfl, rfl⟩

section

variable (following : Following stream irs s)

include following

theorem recv_following (len : Nat) :
    (socketRecv s.conn len).2.1.length = min s.conn.rxAvailable len ∧
      s.conn.contents = (socketRecv s.conn len).2.1 ++ (socketRecv s.conn len).2.2.contents ∧
      (socketRecv s.conn len).2.2.Valid ∧
      (socketRecv s.conn len).2.2.inUse = true ∧
      (socketRecv s.conn len).2.2.state = s.conn.state ∧
      (socketRecv s.conn len).2.2.rcvNxt = s.conn.rcvNxt := by
  unfold socketRecv
  simp only [following.inUse, Bool.not_true, Bool.false_eq_true, if_false]
  by_cases none : s.conn.rxAvailable = 0
  · simp only [if_pos none]
    have kept : (0 = min s.conn.rxAvailable len) ∧ s.conn.contents = [] ++ s.conn.contents :=
      ⟨by omega, rfl⟩
    split
    · exact ⟨kept.1, kept.2, following.valid, following.inUse, rfl, rfl⟩
    · exact ⟨kept.1, kept.2, following.valid, following.inUse, rfl, rfl⟩
  · simp only [if_neg none]
    obtain ⟨valid, split, length⟩ := take_contents following.valid (Nat.min_le_left _ len)
    obtain ⟨inUse, state, next⟩ := take_fields (min s.conn.rxAvailable len) s.conn
    exact ⟨length, split, valid, inUse.trans following.inUse, state, next⟩

theorem recv_keeps (len : Nat) :
    Following stream irs ⟨(socketRecv s.conn len).2.2,
      s.returned ++ (socketRecv s.conn len).2.1, s.sent⟩ := by
  obtain ⟨_, parts, valid, inUse, state, next⟩ := recv_following following len
  generalize socketRecv s.conn len = result at *
  have counted := congrArg List.length parts
  rw [List.length_append, contents_length, contents_length] at counted
  have received : Session.received ⟨result.2.2, s.returned ++ result.2.1, s.sent⟩ =
      s.received := by
    simp only [Session.received, List.length_append]
    omega
  refine ⟨inUse, valid, ?_, ?_, ?_, ?_⟩ <;> rw [received]
  · rw [List.append_assoc, ← parts]
    exact following.bytes
  · exact following.bound
  · rw [state, next]
    exact following.state
  · exact following.acked

theorem following_sends (inUse : conn.inUse = s.conn.inUse) (state : conn.state = s.conn.state)
    (next : conn.rcvNxt = s.conn.rcvNxt) (ring : conn.ring = s.conn.ring)
    (acks : ∀ one ∈ sent, one.ack = s.conn.rcvNxt ∧ s.conn.state = .established) :
    Following stream irs ⟨conn, s.returned, s.sent ++ sent⟩ := by
  have available : conn.rxAvailable = s.conn.rxAvailable := congrArg Rings.Ring.count ring
  have received : Session.received ⟨conn, s.returned, s.sent ++ sent⟩ = s.received := by
    simp only [Session.received, available]
  refine ⟨inUse.trans following.inUse, ⟨?_, ?_⟩, ?_, ?_, ?_, ?_⟩
  · exact (congrArg Rings.Ring.readIdx ring).trans_lt following.valid.head
  · exact (congrArg Rings.Ring.writeIdx ring).trans_lt following.valid.tail
  · rw [received, ← following.bytes, contents, contents, ring]
  · rw [received]
    exact following.bound
  · rw [received, state, next]
    exact following.state
  intro one member
  rw [received]
  rcases List.mem_append.mp member with old | new
  · exact following.acked one old
  obtain ⟨ack, established⟩ := acks one new
  rcases following.state with ⟨_, same⟩ | ⟨closed, _⟩
  · exact ⟨s.received, ack.trans same, .inl le_rfl⟩
  · rw [established] at closed
    cases closed

theorem data_keeps (established : s.conn.state = .established) {ack : UInt32}
    (inside : position + len ≤ stream.length) (turn : irs + UInt32.ofNat position = s.conn.rcvNxt →
      position = s.received ∧ s.conn.rxAvailable + len ≠ rxBufSize) :
    Following stream irs ⟨handleTcpEstablishedData s.conn
        (segmentOf stream irs flags ack position len), s.returned, s.sent⟩ ∧
      (handleTcpEstablishedData s.conn (segmentOf stream irs flags ack position len)).state =
        .established := by
  obtain ⟨_, next⟩ := following.state.resolve_right fun closed => by simp [established] at closed
  have length : ((stream.drop position).take len).length = len := by
    rw [List.length_take, List.length_drop]
    omega
  unfold handleTcpEstablishedData segmentOf
  dsimp only
  split
  · exact ⟨following, established⟩
  next same =>
  obtain ⟨here, spare⟩ := turn (not_not.mp same)
  rw [length, ← available_eq following.valid]
  split
  · have room : s.conn.rxAvailable + ((stream.drop position).take len).length < rxBufSize := by
      have := available_below following.valid
      omega
    obtain ⟨valid, more⟩ := putAll_contents following.valid room
    obtain ⟨inUse, state, sequence⟩ :=
      putAll_fields s.conn ((stream.drop position).take len)
    generalize ((stream.drop position).take len).foldl put s.conn = conn at *
    have available : conn.rxAvailable = s.conn.rxAvailable + len := by
      rw [← contents_length, more, List.length_append, contents_length, length]
    have received : Session.received ⟨{ conn with rcvNxt := conn.rcvNxt + UInt32.ofNat len },
        s.returned, s.sent⟩ = s.received + len := by
      rw [Session.received, Session.received, Nat.add_assoc, ← available]
      rfl
    refine ⟨⟨inUse.trans following.inUse, ⟨valid.head, valid.tail⟩, ?_, ?_, ?_, ?_⟩,
      state.trans established⟩ <;> rw [received]
    · rw [List.take_add, ← following.bytes, ← here, List.append_assoc]
      exact congrArg (s.returned ++ ·) more
    · omega
    · refine .inl ⟨state.trans established, ?_⟩
      rw [sequence, next, UInt32.ofNat_add, UInt32.add_assoc]
    · intro one member
      obtain ⟨a, equal, bound⟩ := following.acked one member
      exact ⟨a, equal, by omega⟩
  · exact ⟨following, established⟩

/-- The FIN that is expected: the stream has been received. -/
theorem fin_keeps (last : position = stream.length) (here : position = s.received) :
    Following stream irs ⟨(sendTcpSegment { s.conn with
        rcvNxt := irs + UInt32.ofNat position + 1, state := .closeWait } tcpAck 0).1, s.returned,
      s.sent ++ [(sendTcpSegment { s.conn with
        rcvNxt := irs + UInt32.ofNat position + 1, state := .closeWait } tcpAck 0).2]⟩ := by
  have received : s.received = stream.length := here.symm.trans last
  refine ⟨following.inUse, ⟨following.valid.head, following.valid.tail⟩, following.bytes,
    following.bound, .inr ⟨rfl, received⟩, fun one member => ?_⟩
  rcases List.mem_append.mp member with old | new
  · exact following.acked one old
  · rw [List.mem_singleton.mp new]
    refine ⟨stream.length + 1, ?_, .inr ⟨rfl, received⟩⟩
    rw [UInt32.ofNat_add, ← UInt32.add_assoc, ← last]
    rfl

theorem segment_keeps {ack : UInt32} (peer : FromPeer stream flags position len)
    (orderly : Orderly irs s (.segment flags ack position len)) :
    Following stream irs
      ⟨(handleTcp s.conn (segmentOf stream irs flags ack position len)).1, s.returned,
        s.sent ++ (handleTcp s.conn (segmentOf stream irs flags ack position len)).2⟩ := by
  have nothing : ∀ one ∈ ([] : List Sent), one.ack = s.conn.rcvNxt ∧ s.conn.state = .established :=
    fun _ member => absurd member List.not_mem_nil
  unfold handleTcp
  rcases following.state with ⟨established, next⟩ | ⟨closed, _⟩
  · obtain ⟨fin, turn⟩ := orderly established
    rw [established]
    -- Taking over the acknowledgement changes nothing that is received.
    obtain ⟨inUse, state, sequence, ring⟩ :=
      noteAck_fields s.conn (segmentOf stream irs flags ack position len)
    have noted := following_sends following inUse state sequence ring nothing
    have available := congrArg Rings.Ring.count ring
    rw [List.append_nil] at noted
    simp only [handleTcpEstablished]
    generalize s.conn.noteAck (segmentOf stream irs flags ack position len) = conn at *
    have received : Session.received ⟨conn, s.returned, s.sent⟩ = s.received :=
      congrArg (s.returned.length + ·) available
    rw [← sequence] at turn
    rw [established] at state
    split
    next finished =>
      obtain ⟨rfl, here⟩ := fin finished
      exact fin_keeps noted (peer.last finished)
        ((turn (here.trans sequence.symm)).1.trans received.symm)
    · split
      · obtain ⟨kept, open'⟩ := @data_keeps _ _ _ _ _ flags noted state ack peer.inside
          fun here => ⟨(turn here).1.trans received.symm, fun full => (turn here).2 (by
            rw [← full]
            exact congrArg (· + len) available.symm)⟩
        refine @following_sends _ _ ⟨handleTcpEstablishedData conn _, s.returned, s.sent⟩ _
          (sendTcpSegment (handleTcpEstablishedData conn _) tcpAck 0).1 kept rfl rfl rfl rfl
          fun one member => ?_
        rw [List.mem_singleton.mp member]
        exact ⟨rfl, open'⟩
      · rw [List.append_nil]
        exact noted
  · rw [closed]
    exact following_sends following rfl rfl rfl rfl nothing

theorem following_delivers : Delivers stream irs s := by
  have whole := following.bytes
  have length : s.returned.length ≤ s.received := Nat.le_add_right ..
  have front : s.returned = stream.take s.returned.length := by
    have := congrArg (List.take s.returned.length) whole
    rwa [List.take_left, List.take_take, Nat.min_eq_left length] at this
  constructor
  case ordered => exact ⟨stream.drop s.returned.length, by
    nth_rewrite 1 [front]
    exact List.take_append_drop ..⟩
  case acked => exact following.acked
  case available =>
    intro len
    obtain ⟨counted, parts, _⟩ := recv_following following len
    have taken := congrArg (List.take (s.returned.length + min s.conn.rxAvailable len)) whole
    rw [parts, ← List.append_assoc, List.take_left' (by rw [List.length_append, counted]),
      List.take_take, Nat.min_eq_left (by unfold Session.received; omega)] at taken
    exact taken
  case ended =>
    intro len some result
    have empty : s.conn.rxAvailable = 0 ∧ s.conn.state = .closeWait := by
      unfold socketRecv at result
      simp only [following.inUse, Bool.not_true, Bool.false_eq_true, if_false] at result
      split at result
      next none =>
        refine ⟨none, ?_⟩
        rcases following.state with ⟨established, _⟩ | ⟨closed, _⟩
        · simp [established, verrWouldBlock] at result
        · exact closed
      next there =>
        omega
    rcases following.state with ⟨established, _⟩ | ⟨_, received⟩
    · simp [established] at empty
    · rw [Session.received, empty.1, Nat.add_zero] at received
      rw [front, received, List.take_length]

end

structure Opened (conn : TcpConnection) : Prop where
  inUse : conn.inUse = true
  established : conn.state = .established
  head : conn.rxHead < rxBufSize
  empty : conn.rxTail = conn.rxHead

theorem opened_following (opened : Opened conn) (stream : List UInt8) :
    Following stream conn.rcvNxt ⟨conn, [], []⟩ := by
  have none : conn.rxAvailable = 0 := by
    rw [rxAvailable, opened.empty, if_pos le_rfl, Nat.sub_self]
  have received : Session.received ⟨conn, [], []⟩ = 0 := by
    rw [Session.received, none]
    rfl
  have contents : conn.contents = [] := List.eq_nil_of_length_eq_zero
    ((contents_length conn).trans none)
  refine ⟨opened.inUse, ⟨opened.head, opened.empty.trans_lt opened.head⟩, ?_, ?_, ?_, ?_⟩
  · rw [received, contents]
    rfl
  · rw [received]
    exact Nat.zero_le _
  · rw [received]
    exact .inl ⟨opened.established, (UInt32.add_zero _).symm⟩
  · exact fun _ member => absurd member List.not_mem_nil

/-- In every run in which the segments are orderly the connection delivers the stream. -/
theorem stream_delivered (opened : Opened conn) {events : List Event}
    (run : Run (Guarded (Orderly conn.rcvNxt) (Step stream conn.rcvNxt)) ⟨conn, [], []⟩ events after) :
    Delivers stream conn.rcvNxt after := by
  refine following_delivers (run_invariant (fun before event later following step => ?_) run
    (opened_following opened stream))
  obtain ⟨orderly, step⟩ := step
  cases step with
  | segment peer => exact segment_keeps following peer orderly
  | recv => exact recv_keeps following _

end

def newConnection : TcpConnection := ⟨true, .established, 0, 0, 1000, fun _ => 0, 0, 0⟩

theorem newConnection_opened : Opened newConnection := ⟨rfl, rfl, by decide, rfl⟩

/-- Two bytes arrive in order, and are received. -/
theorem two_bytes_delivered :
    ∃ after, Run (Guarded (Orderly 1000) (Step [7, 8] 1000)) ⟨newConnection, [], []⟩
      [.segment tcpAck 0 0 2, .recv 10, .segment (tcpFin ||| tcpAck) 0 2 0] after ∧
      Delivers [7, 8] 1000 after := by
  refine .imp (fun _ run => ⟨run, stream_delivered newConnection_opened run⟩) ⟨_, .next
    ⟨fun _ => ?_, .segment ⟨by decide, by decide⟩⟩ (.next ⟨trivial, .recv⟩
      (.next ⟨fun _ => ?_, .segment ⟨by decide, by decide⟩⟩ (.refl _)))⟩
  · decide
  · decide

/-- A FIN that overtakes the data ends the stream before its first byte, and acknowledges it. -/
theorem fin_overtakes_data : FromPeer [7, 8] (tcpFin ||| tcpAck) 2 0 ∧
      ¬ Delivers [7, 8] 1000 ⟨(handleTcp newConnection
        (segmentOf [7, 8] 1000 (tcpFin ||| tcpAck) 0 2 0)).1, [],
        (handleTcp newConnection (segmentOf [7, 8] 1000 (tcpFin ||| tcpAck) 0 2 0)).2⟩ := by
  refine ⟨⟨by decide, by decide⟩, fun delivers => ?_⟩
  have ended := delivers.ended 1 (by decide) (by decide)
  cases ended

end ViperDos.Tcp
