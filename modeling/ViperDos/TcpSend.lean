import ViperDos.Tcp

/-!
`socket_send` and the layers below it (kernel/net/netstack.cpp). A segment that the address
resolution or the device refuses is counted as one that was sent, and the send position has moved
past it by then. The connection of the socket has been found; of the headers only the fields of
`Sent` are kept.
-/

namespace ViperDos.Tcp

open TcpConnection

def tcpPsh : UInt8 := 0x08
def tcpMaxChunk : Nat := 1400
def ipPacketMax : Nat := 1500
def frameMaxSize : Nat := 1518

def verrConnection : Int := -111

/-- What becomes of a packet: whether the address of the next hop is known, what `network_poll`
brings to the connection while it is asked for, whether there is an answer, and whether the device
takes the frame. -/
structure Route where
  known : Bool
  incoming : List Segment
  resolved : Bool
  transmit : Bool

def sendFrame (route : Route) (len : Nat) : Bool :=
  if frameMaxSize < len + 14 then false else route.transmit

def sendIpPacket (conn : TcpConnection) (route : Route) (len : Nat) : Bool × TcpConnection :=
  if ipPacketMax < len + 20 then (false, conn)
  else if route.known then (sendFrame route (len + 20), conn)
  else
    let conn := route.incoming.foldl (fun conn seg => (handleTcp conn seg).1) conn
    if !route.resolved then (false, conn) else (sendFrame route (len + 20), conn)

/-- The loop of `socket_send`, with a bound on its rounds: the bytes counted, and the segments that
the device took. The routes of the chunks are given by the bytes counted before them. -/
def sendLoop (routes : Nat → Route) : Nat → Nat → List UInt8 → TcpConnection →
    Nat × TcpConnection × List (Sent × List UInt8)
  | 0, sent, _, conn => (sent, conn, [])
  | rounds + 1, sent, data, conn =>
    if data = [] then (sent, conn, [])
    else
      let chunk := data.take tcpMaxChunk
      let (conn, header) := sendTcpSegment conn (tcpAck ||| tcpPsh) chunk.length
      let (ok, conn) := sendIpPacket conn (routes sent) (chunk.length + 20)
      let (count, conn, handed) :=
        sendLoop routes rounds (sent + chunk.length) (data.drop tcpMaxChunk) conn
      (count, conn, if ok then (header, chunk) :: handed else handed)

def socketSend (conn : TcpConnection) (data : List UInt8) (routes : Nat → Route) :
    Int × TcpConnection × List (Sent × List UInt8) :=
  if !conn.inUse ∨ conn.state ≠ .established then (verrConnection, conn, [])
  else
    let (sent, conn, handed) := sendLoop routes data.length 0 data conn
    (sent, conn, handed)

def Consecutive : UInt32 → List (Sent × List UInt8) → Prop
  | _, [] => True
  | seq, (header, bytes) :: rest =>
    header.seq = seq ∧ Consecutive (seq + UInt32.ofNat bytes.length) rest

/-- The bytes counted were handed to the device from the send position on, which is behind them
afterwards. -/
structure Reports (seq : UInt32) (data : List UInt8) (count : Nat) (after : TcpConnection)
    (handed : List (Sent × List UInt8)) : Prop where
  bytes : handed.flatMap Prod.snd = data.take count
  consecutive : Consecutive seq handed
  position : after.sndNxt = seq + UInt32.ofNat count

def ReportsSent (conn : TcpConnection) (data : List UInt8) (routes : Nat → Route) : Prop :=
  let sent := socketSend conn data routes
  Reports conn.sndNxt data sent.1.toNat sent.2.1 sent.2.2

def Route.delivers (route : Route) : Bool := (route.known || route.resolved) && route.transmit

def Delivered (routes : Nat → Route) (sent total : Nat) : Prop :=
  ∀ position, sent ≤ position → position < total → 1400 ∣ position →
    (routes position).delivers = true

variable {flags : UInt8} {len sent length rounds : Nat} {conn : TcpConnection} {route : Route}
  {routes : Nat → Route} {data : List UInt8}

theorem plain_sndNxt (conn : TcpConnection) (len : Nat)
    (plain : (has flags tcpSyn || has flags tcpFin) = false) :
    (sendTcpSegment conn flags len).1.sndNxt = conn.sndNxt + UInt32.ofNat len := by
  simp_all [sendTcpSegment]

theorem ack_sndNxt (conn : TcpConnection) :
    (sendTcpSegment conn tcpAck 0).1.sndNxt = conn.sndNxt :=
  (plain_sndNxt conn 0 (by decide)).trans (UInt32.add_zero _)

theorem putAll_sndNxt (conn : TcpConnection) (bytes : List UInt8) :
    (bytes.foldl put conn).sndNxt = conn.sndNxt := by
  induction bytes generalizing conn with
  | nil => rfl
  | cons byte rest ih => exact ih (conn.put byte)

/-- The answers to incoming segments are acknowledgements, which take no sequence number. -/
theorem handleTcp_sndNxt (conn : TcpConnection) (seg : Segment) :
    (handleTcp conn seg).1.sndNxt = conn.sndNxt := by
  unfold handleTcp handleTcpSynSent handleTcpEstablished handleTcpFinWait handleTcpEstablishedData
    noteAck
  dsimp only
  repeat' split
  all_goals simp only [ack_sndNxt, putAll_sndNxt]

theorem handled_sndNxt (conn : TcpConnection) (incoming : List Segment) :
    (incoming.foldl (fun conn seg => (handleTcp conn seg).1) conn).sndNxt = conn.sndNxt := by
  induction incoming generalizing conn with
  | nil => rfl
  | cons seg rest ih => exact (ih _).trans (handleTcp_sndNxt conn seg)

theorem sendIpPacket_delivers (small : len ≤ 1420) :
    (sendIpPacket conn route len).1 = route.delivers ∧
      (sendIpPacket conn route len).2.sndNxt = conn.sndNxt := by
  have frame : sendFrame route (len + 20) = route.transmit :=
    if_neg (by unfold frameMaxSize; omega)
  unfold sendIpPacket Route.delivers
  rw [if_neg (by unfold ipPacketMax; omega), frame]
  cases route.known <;> cases route.resolved <;> simp [handled_sndNxt]

theorem delivered_next (aligned : 1400 ∣ sent) (positive : 0 < length) :
    Delivered routes sent (sent + length) ↔ (routes sent).delivers = true ∧
      Delivered routes (sent + min 1400 length) (sent + length) := by
  constructor
  · intro delivered
    exact ⟨delivered sent (Nat.le_refl _) (by omega) aligned,
      fun position low high multiple => delivered position (by omega) high multiple⟩
  · rintro ⟨first, later⟩ position low high multiple
    by_cases here : position = sent
    · rwa [here]
    · exact later position (by omega) high multiple

structure LoopSpec (routes : Nat → Route) (sent : Nat) (data : List UInt8) (seq : UInt32)
    (result : Nat × TcpConnection × List (Sent × List UInt8)) : Prop where
  count : result.1 = sent + data.length
  short : (result.2.2.flatMap Prod.snd).length ≤ data.length
  whole : Delivered routes sent (sent + data.length) →
    Reports seq data data.length result.2.1 result.2.2
  all : data.length ≤ (result.2.2.flatMap Prod.snd).length →
    Delivered routes sent (sent + data.length)

theorem sendLoop_spec (routes : Nat → Route) (enough : data.length ≤ rounds)
    (aligned : data ≠ [] → 1400 ∣ sent) (conn : TcpConnection) :
    LoopSpec routes sent data conn.sndNxt (sendLoop routes rounds sent data conn) := by
  have nothing : ∀ sent conn, LoopSpec routes sent [] conn.sndNxt (sent, conn, []) := fun _ _ =>
    ⟨rfl, Nat.le_refl 0, fun _ => ⟨rfl, trivial, (UInt32.add_zero _).symm⟩,
      fun _ position low high => absurd high (Nat.not_lt.mpr low)⟩
  induction rounds generalizing sent data conn with
  | zero =>
    rw [List.length_eq_zero_iff.mp (Nat.le_zero.mp enough)]
    exact nothing sent conn
  | succ rounds ih =>
    unfold sendLoop
    split
    next empty =>
      rw [empty]
      exact nothing sent conn
    next some =>
    have chunk : (data.take tcpMaxChunk).length = min 1400 data.length := List.length_take
    have remaining : (data.drop tcpMaxChunk).length = data.length - 1400 := List.length_drop
    have positive := List.length_pos_of_ne_nil some
    have next : Delivered routes sent _ ↔ _ := delivered_next (aligned some) positive
    dsimp only
    rw [chunk]
    have moved := @plain_sndNxt (tcpAck ||| tcpPsh) conn (min 1400 data.length) (by decide)
    have begins : (sendTcpSegment conn (tcpAck ||| tcpPsh) (min 1400 data.length)).2.seq =
        conn.sndNxt := rfl
    generalize sendTcpSegment conn _ _ = segment at moved begins ⊢
    obtain ⟨advanced, header⟩ := segment
    obtain ⟨ok, same⟩ := @sendIpPacket_delivers (min 1400 data.length + 20) advanced (routes sent)
      (by omega)
    generalize sendIpPacket advanced _ _ = packet at ok same ⊢
    obtain ⟨handed, after⟩ := packet
    have later := @ih (sent + min 1400 data.length) (data.drop tcpMaxChunk) (by omega)
      (fun more => by
        have := List.length_pos_of_ne_nil more
        have := aligned some
        omega) after
    generalize sendLoop routes rounds _ _ after = result at later ⊢
    obtain ⟨_, last, segments⟩ := result
    obtain ⟨count, short, whole, all⟩ := later
    rw [remaining, show sent + min 1400 data.length + (data.length - 1400) = sent + data.length by
      omega] at count whole all
    dsimp only at moved begins ok same count short whole all ⊢
    rw [same, moved] at whole
    constructor
    case count => exact count
    case short =>
      dsimp only
      split
      · rw [List.flatMap_cons, List.length_append, chunk]
        omega
      · omega
    case whole =>
      intro delivered
      obtain ⟨first, others⟩ := next.mp delivered
      obtain ⟨bytes, consecutive, position⟩ := whole others
      rw [List.take_of_length_le remaining.le] at bytes
      rw [ok.trans first]
      constructor
      case bytes => exact (congrArg (data.take tcpMaxChunk ++ ·) bytes).trans (by simp)
      case consecutive => exact ⟨begins, by rw [chunk]; exact consecutive⟩
      case position =>
        rw [position, UInt32.add_assoc, ← UInt32.ofNat_add,
          show min 1400 data.length + (data.length - 1400) = data.length by omega]
    case all =>
      intro every
      dsimp only at every
      split at every
      next here =>
        rw [List.flatMap_cons, List.length_append, chunk] at every
        exact next.mpr ⟨ok.symm.trans here, all (by omega)⟩
      · omega

/-- What `socket_send` counts is what was sent exactly if it sends nothing at all or no chunk of
the buffer is refused. -/
theorem send_reported_iff (conn : TcpConnection) (data : List UInt8) (routes : Nat → Route) :
    ReportsSent conn data routes ↔ ¬ (conn.inUse = true ∧ conn.state = .established) ∨
      Delivered routes 0 data.length := by
  unfold ReportsSent socketSend
  by_cases ready : conn.inUse = true ∧ conn.state = .established
  · have spec := sendLoop_spec routes (Nat.le_refl data.length) (fun _ => Nat.dvd_zero 1400) conn
    rw [if_neg (by simp [ready]), or_iff_right (not_not.mpr ready)]
    generalize sendLoop routes data.length 0 data conn = result at spec ⊢
    obtain ⟨_, after, handed⟩ := result
    obtain ⟨count, short, whole, all⟩ := spec
    rw [Nat.zero_add] at count whole all
    cases count
    refine ⟨fun reports => all ?_, whole⟩
    have bytes := congrArg List.length reports.bytes
    rw [Int.toNat_natCast, List.take_length] at bytes
    exact bytes.ge
  · rw [if_pos (by simpa [imp_iff_not_or] using ready)]
    exact iff_of_true ⟨rfl, trivial, (UInt32.add_zero _).symm⟩ (.inl ready)

def openConnection : TcpConnection :=
  ⟨true, .established, 0x12345679, 0x12345679, 1, fun _ => 0, 0, 0⟩

def lostFirst (sent : Nat) : Route := ⟨sent ≠ 0, [], false, true⟩

def twoChunks : List UInt8 := List.replicate 1401 7

/-- The call counts 1401 bytes of which the device got the last. -/
theorem lost_segment_counted : (socketSend openConnection twoChunks lostFirst).1 = 1401 ∧
      (socketSend openConnection twoChunks lostFirst).2.2.map (fun handed =>
        (handed.1.seq, handed.2)) = [(0x12345BF1, [7])] ∧
      ¬ ReportsSent openConnection twoChunks lostFirst := by
  have result : (socketSend openConnection twoChunks lostFirst).1 = 1401 ∧
      (socketSend openConnection twoChunks lostFirst).2.2.map (fun handed =>
        (handed.1.seq, handed.2)) = [(0x12345BF1, [7])] ∧
      ((socketSend openConnection twoChunks lostFirst).2.2.flatMap Prod.snd).length ≠
        (twoChunks.take (socketSend openConnection twoChunks lostFirst).1.toNat).length := by
    decide +kernel
  exact ⟨result.1, result.2.1, fun reports => result.2.2 (congrArg List.length reports.bytes)⟩

end ViperDos.Tcp
