import ViperDos.TlsHandshake

/-!
What the hashes and keys of a handshake are bound to. The transcript is hashed when a
message has been added to it and before the message is looked at, so one hash serves both
the check of the server's Finished and the application secrets. RFC 8446 lets the first
cover the messages before the Finished and the second the Finished as well. And a message
that does not fit into the transcript buffer is left out of every later hash.
-/

namespace ViperDos.Tls

section Binding

variable (crypto : Crypto) (privateKey hello : Bytes)

def spoken (s : Session) : Bytes :=
  hello ++ (s.handled.map fun entry => message (UInt8.ofNat entry.type) entry.body).flatten

def hashed (s : Session) (data : Bytes) : Bytes := (transcriptUpdate crypto s data).transcript

/-- A handshake up to the server's Finished, which ends the server's flight. -/
inductive Follows : Session → Prop where
  | start : Follows (sendClientHello crypto tlsNew privateKey hello)
  | received {s : Session} (follows : Follows s) (r : Record) : Follows (recvRecord crypto s r).2
  | handled {s after : Session} {view : Nat → UInt8} {pos : Nat} (follows : Follows s)
      (other : (view pos).toNat ≠ 20)
      (taken : takeMessage crypto s view pos (readU24 view (pos + 1)) = some after) : Follows after

def madeUses (s after : Session) : List (Purpose × Bytes) := after.uses.drop s.uses.length

/-- A message that takes a session to the next one is bound as RFC 8446 requires: which bytes
the hash covers that a secret or a check is made of, and the secrets, the check and the keys. -/
structure Bound (s : Session) (hsType : Nat) (data : Bytes) (after : Session) : Prop where
  handshakeSecrets : hsType = 2 →
    (.handshakeSecrets, spoken hello s ++ data) ∈ madeUses s after ∧
      after.clientHandshakeTrafficSecret = crypto.expandLabel after.handshakeSecret "c hs traffic"
        (crypto.sha256 (spoken hello s ++ data)) 32 ∧
      after.serverHandshakeTrafficSecret = crypto.expandLabel after.handshakeSecret "s hs traffic"
        (crypto.sha256 (spoken hello s ++ data)) 32
  finishedCheck : hsType = 20 → (.serverFinished, spoken hello s) ∈ madeUses s after ∧
    data.drop 4 = verifyData crypto s.serverHandshakeTrafficSecret (crypto.sha256 (spoken hello s))
  applicationSecrets : hsType = 20 →
    (.applicationSecrets, spoken hello s ++ data) ∈ madeUses s after ∧
      let secret (label : String) := crypto.expandLabel (masterSecret crypto s.handshakeSecret) label
        (crypto.sha256 (spoken hello s ++ data)) 32
      { after.writeKeys with seqNum := 0 } = trafficKeys crypto (secret "c ap traffic") ∧
        after.readKeys = trafficKeys crypto (secret "s ap traffic")
  clientFinished : hsType = 20 → (.clientFinished, spoken hello s ++ data) ∈ madeUses s after ∧
    after.wire = s.wire ++ [sealed crypto (trafficKeys crypto s.clientHandshakeTrafficSecret) 22
      (message 20 (verifyData crypto s.clientHandshakeTrafficSecret
        (crypto.sha256 (spoken hello s ++ data))))]

end Binding

section Messages

variable {crypto : Crypto} {privateKey hello : Bytes} {s after : Session} {view : Nat → UInt8}
  {pos len dataLen fuel : Nat} {records : List Record} {outcome : Session × List Record}

theorem window_append (view : Nat → UInt8) (pos m n : Nat) :
    window view pos (m + n) = window view pos m ++ window (fun i => view (pos + m + i)) 0 n := by
  simp [window, List.range_add, Nat.add_assoc]

/-- The bytes of a message are those the history has of it. -/
theorem window_message (view : Nat → UInt8) (pos : Nat) :
    window view pos (4 + readU24 view (pos + 1)) = message (UInt8.ofNat (view pos).toNat)
      (window (fun i => view (pos + 4 + i)) 0 (readU24 view (pos + 1))) := by
  have header : window view pos 4 = UInt8.ofNat (view pos).toNat ::
      writeU24 (readU24 view (pos + 1)) := by
    have first := (view (pos + 1)).toNat_lt
    have second := (view (pos + 2)).toNat_lt
    have third := (view (pos + 3)).toNat_lt
    simp only [window, List.range, List.range.loop, List.map_cons, List.map_nil, writeU24, writeU16,
      readU24, readU16, Nat.add_zero, Nat.add_assoc, Nat.reduceAdd, UInt8.ofNat_toNat,
      List.cons.injEq, true_and, and_true, ← UInt8.toNat_inj, UInt8.toNat_ofNat']
    omega
  have length : (window (fun i => view (pos + 4 + i)) 0 (readU24 view (pos + 1))).length =
      readU24 view (pos + 1) := by simp [window]
  rw [window_append, header, message, length]

structure Recorded (hello : Bytes) (s : Session) : Prop where
  small : s.transcript.length ≤ 8192
  exact : (spoken hello s).length ≤ 8192 → s.transcript = spoken hello s

theorem hashed_small (recorded : Recorded hello s) (data : Bytes) :
    (hashed crypto s data).length ≤ 8192 := by
  simp only [hashed, transcriptUpdate]
  split
  · next fits => simpa using fits
  · exact recorded.small

theorem hashed_exact (crypto : Crypto) (recorded : Recorded hello s) (data : Bytes) :
    hashed crypto s data = spoken hello s ++ data ↔ (spoken hello s ++ data).length ≤ 8192 := by
  constructor
  · intro same
    exact same ▸ hashed_small recorded data
  · intro fits
    have before := recorded.exact (Nat.le_trans (by simp) fits)
    simp only [hashed, transcriptUpdate, before]
    rw [if_pos (by simpa using fits)]

theorem takeMessage_handled
    (taken : takeMessage crypto s view pos (readU24 view (pos + 1)) = some after) :
    spoken hello after = spoken hello s ++ window view pos (4 + readU24 view (pos + 1)) := by
  have logged := handleMessage_handled taken
  simp only [transcriptUpdate] at logged
  simp [spoken, logged, window_message view pos]

/-- Only the server's Finished is answered, so no other message changes the transcript. -/
theorem takeMessage_transcript (other : (view pos).toNat ≠ 20)
    (taken : takeMessage crypto s view pos (readU24 view (pos + 1)) = some after) :
    after.transcript = hashed crypto s (window view pos (4 + readU24 view (pos + 1))) := by
  simp only [takeMessage, handleMessage] at taken
  split at taken
  · obtain ⟨key, rfl⟩ := serverHello_session taken
    rfl
  · cases taken; rfl
  · cases taken; rfl
  · cases taken; rfl
  · next finished => exact absurd finished other
  · cases taken; rfl

theorem follows_recorded (follows : Follows crypto privateKey hello s) : Recorded hello s := by
  induction follows with
  | start =>
    have sent : (sendClientHello crypto tlsNew privateKey hello).transcript =
        if hello.length ≤ 8192 then hello else [] := by
      simp [sendClientHello, sendRecord, transcriptUpdate, tlsNew]
    constructor
    · rw [sent]
      split
      · assumption
      · exact Nat.zero_le _
    · intro fits
      have same : spoken hello (sendClientHello crypto tlsNew privateKey hello) = hello :=
        List.append_nil hello
      rw [same] at fits ⊢
      exact sent.trans (if_pos fits)
  | received _ r recorded =>
    obtain ⟨keys, kept⟩ := recvRecord_session _ _ r
    rw [kept]
    exact ⟨recorded.small, recorded.exact⟩
  | handled _ other taken recorded =>
    have transcript := takeMessage_transcript other taken
    refine ⟨transcript ▸ hashed_small recorded _, ?_⟩
    rw [transcript, takeMessage_handled taken]
    exact (hashed_exact crypto recorded _).mpr

/-- One hash serves everything that a Finished brings about. -/
theorem finished_uses (finished : (view pos).toNat = 20)
    (taken : takeMessage crypto s view pos len = some after) :
    let bytes := hashed crypto s (window view pos (4 + len))
    madeUses s after =
      [(.serverFinished, bytes), (.applicationSecrets, bytes), (.clientFinished, bytes)] := by
  simp only [takeMessage, finished, handleMessage] at taken
  split at taken
  · cases taken
    simp only [madeUses, sendFinished, sendRecord, deriveApplicationKeys, usedFor, transcriptUpdate]
    split <;> simp [hashed, transcriptUpdate]
  · cases taken

/-- It would have to leave the Finished out for the check and cover it for the secrets. -/
theorem finished_unbound (finished : (view pos).toNat = 20)
    (taken : takeMessage crypto s view pos (readU24 view (pos + 1)) = some after) :
    ¬ Bound crypto hello s (view pos).toNat (window view pos (4 + readU24 view (pos + 1)))
      after := by
  intro bound
  have some : window view pos (4 + readU24 view (pos + 1)) ≠ [] := by simp [window_message, message]
  have check := (bound.finishedCheck finished).1
  have secrets := (bound.applicationSecrets finished).1
  simp only [finished_uses finished taken, List.mem_cons, Prod.mk.injEq, reduceCtorEq, true_and,
    false_and, List.not_mem_nil, or_false, false_or] at check secrets
  exact some (List.append_right_eq_self.mp (secrets.trans check.symm))

/-- Just those messages are bound as required that are no Finished and, for the ServerHello,
leave the handshake up to them within the transcript buffer. -/
theorem bound_iff (follows : Follows crypto privateKey hello s)
    (taken : takeMessage crypto s view pos (readU24 view (pos + 1)) = some after) :
    Bound crypto hello s (view pos).toNat (window view pos (4 + readU24 view (pos + 1))) after ↔
      (view pos).toNat ≠ 20 ∧ ((view pos).toNat = 2 →
        (spoken hello s ++ window view pos (4 + readU24 view (pos + 1))).length ≤ 8192) := by
  have exact := hashed_exact crypto (follows_recorded follows)
    (window view pos (4 + readU24 view (pos + 1)))
  have uses : (view pos).toNat = 2 → madeUses s after =
      [(.handshakeSecrets, hashed crypto s (window view pos (4 + readU24 view (pos + 1))))] := by
    intro serverHello
    simp only [takeMessage, serverHello, handleMessage] at taken
    obtain ⟨key, rfl⟩ := serverHello_session taken
    simp [madeUses, deriveHandshakeKeys, usedFor, transcriptUpdate, hashed]
  constructor
  · intro bound
    refine ⟨fun finished => finished_unbound finished taken bound, fun serverHello => ?_⟩
    have covered := (bound.handshakeSecrets serverHello).1
    simp only [uses serverHello, List.mem_singleton, Prod.mk.injEq, true_and] at covered
    exact exact.mp covered.symm
  rintro ⟨other, fits⟩
  refine ⟨fun serverHello => ?_, fun same => absurd same other, fun same => absurd same other,
    fun same => absurd same other⟩
  have whole := exact.mpr (fits serverHello)
  rw [uses serverHello, whole]
  refine ⟨.head _, ?_⟩
  simp only [takeMessage, serverHello, handleMessage] at taken
  obtain ⟨key, rfl⟩ := serverHello_session taken
  have hash : (transcriptUpdate crypto { s with handled := s.handled ++ [⟨2, window
      (fun i => view (pos + 4 + i)) 0 (readU24 view (pos + 1))⟩] }
      (window view pos (4 + readU24 view (pos + 1)))).transcriptHash =
        crypto.sha256 (spoken hello s ++ window view pos (4 + readU24 view (pos + 1))) :=
    congrArg crypto.sha256 whole
  rw [← hash]
  exact ⟨rfl, rfl⟩

/-- The ServerHello that follows a ClientHello. -/
theorem server_hello_bound :
    ∃ after, Bound checksums [1, 0, 0, 0] (sendClientHello checksums tlsNew ownKey [1, 0, 0, 0]) 2
      (window (fun i => fiveMessages.payload.getD i 0) 0 84) after := by
  obtain ⟨after, taken⟩ := Option.isSome_iff_exists.mp (show (takeMessage checksums
    (sendClientHello checksums tlsNew ownKey [1, 0, 0, 0])
      (fun i => fiveMessages.payload.getD i 0) 0
      (readU24 (fun i => fiveMessages.payload.getD i 0) 1)).isSome by decide +kernel)
  exact ⟨after, (bound_iff .start taken).mpr ⟨by decide, fun _ => by simp [spoken, window]; decide⟩⟩

def Ended (crypto : Crypto) (privateKey hello : Bytes) : Prop :=
  ∃ s view pos after, Follows crypto privateKey hello s ∧ (view pos).toNat = 20 ∧
    takeMessage crypto s view pos (readU24 view (pos + 1)) = some after

section

variable (follows : Follows crypto privateKey hello s)

include follows

theorem follows_state : s.state ≠ .connected := by
  induction follows with
  | start => exact fun same => by cases same
  | received _ r waiting =>
    obtain ⟨keys, kept⟩ := recvRecord_session _ _ r
    rw [kept]
    exact waiting
  | handled _ other taken waiting =>
    simp only [takeMessage, handleMessage] at taken
    split at taken
    · obtain ⟨key, rfl⟩ := serverHello_session taken
      simp
    · cases taken; simp
    · cases taken; simp
    · cases taken; simp
    · next finished => exact absurd finished other
    · cases taken
      exact waiting

theorem messageLoop_follows (done : messageLoop crypto view dataLen fuel pos s = some after) :
    Follows crypto privateKey hello after ∨ Ended crypto privateKey hello := by
  induction fuel generalizing s pos with
  | zero =>
    cases done
    exact .inl follows
  | succ fuel ih =>
    simp only [messageLoop] at done
    split at done
    · split at done
      · cases done
      · obtain ⟨next, taken, rest⟩ := Option.bind_eq_some_iff.mp done
        by_cases finished : (view pos).toNat = 20
        · exact .inr ⟨s, view, pos, next, follows, finished, taken⟩
        · exact ih (.handled follows finished taken) rest
    · cases done
      exact .inl follows

theorem handshakeLoop_ends (done : handshakeLoop crypto s records = .ok outcome) :
    Ended crypto privateKey hello := by
  fun_induction handshakeLoop crypto s records with
  | case1 s records connected => exact absurd connected (follows_state follows)
  | case2 => cases done
  | case3 s waiting r more ih =>
    cases record : handshakeRecord crypto s r with
    | error fault =>
      rw [record] at done
      cases done
    | ok next =>
      rw [record] at done
      have received := follows.received r
      unfold handshakeRecord handshakeContent at record
      generalize recvRecord crypto s r = pair at record received
      obtain ⟨_ | _ | ⟨contentType, data⟩, between⟩ := pair
      · cases record
      · cases record
      dsimp only at record
      split at record
      · split at record
        · cases record
        next u looped =>
          cases record
          exact (messageLoop_follows received looped).elim (fun still => ih next still done) id
      · cases record

end

/-- No handshake that succeeds is bound as required: it accepts a Finished that is not. -/
theorem completed_unbound (records : List Record)
    (succeeds : (tlsHandshake crypto tlsNew privateKey hello records).isOk) :
    ∃ s view pos after, Follows crypto privateKey hello s ∧
      takeMessage crypto s view pos (readU24 view (pos + 1)) = some after ∧
      ¬ Bound crypto hello s (view pos).toNat (window view pos (4 + readU24 view (pos + 1)))
        after := by
  have ended : Ended crypto privateKey hello := by
    change (handshakeLoop crypto _ records).isOk at succeeds
    cases outcome : handshakeLoop crypto (sendClientHello crypto tlsNew privateKey hello) records with
    | error fault =>
      rw [outcome] at succeeds
      cases succeeds
    | ok done => exact handshakeLoop_ends .start outcome
  obtain ⟨s, view, pos, after, follows, finished, taken⟩ := ended
  exact ⟨s, view, pos, after, follows, taken, finished_unbound finished taken⟩

theorem five_messages_unbound : ∃ s view pos after, Follows checksums ownKey [1, 0, 0, 0] s ∧
    takeMessage checksums s view pos (readU24 view (pos + 1)) = some after ∧
    ¬ Bound checksums [1, 0, 0, 0] s (view pos).toNat
      (window view pos (4 + readU24 view (pos + 1))) after :=
  completed_unbound [fiveMessages] (by decide +kernel)

end Messages

end ViperDos.Tls
