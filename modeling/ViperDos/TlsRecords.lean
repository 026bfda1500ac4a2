import ViperDos.TlsHandshake

/-!
What a record that fails authentication can do once traffic keys exist. The type
byte in the clear decides whether a record is decrypted at all, so a forged one
that does not call itself application data is taken as it is: an alert closes a
connected session, a handshake message moves a handshake, and a long one overruns
the buffer. `Harmless` excludes just these, and then inserted records change what
the caller sees at most by an error.
-/

namespace ViperDos.Tls

section Runs

variable (crypto : Crypto)

def receive : Connection → List Nat → List Report × State
  | c, [] => ([], c.session.state)
  | c, len :: more =>
    let called := tlsRecv crypto c len
    if called.1 = .error ∨ called.1 = .overrun then ([called.1], called.2.session.state)
    else
      let later := receive called.2 more
      (called.1 :: later.1, later.2)

/-- The handshake loop, then calls of `tls_recv`: what they report, and the
state the session is left in. -/
def talk (s : Session) (records : List Record) (lens : List Nat) : List Report × State :=
  match handshakeLoop crypto s records with
  | .error .error => ([.error], .error)
  | .error .overrun => ([.overrun], .error)
  | .ok (s, rest) => receive crypto ⟨s, [], rest⟩ lens

def after (s : Session) (r : Record) : Session :=
  if s.state = .connected then
    match recvRecord crypto s r with
    | (.content contentType _, s) => if contentType = 21 then { s with state := .closed } else s
    | (_, s) => s
  else (handshakeRecord crypto s r).toOption.getD s

def Unauthentic (s : Session) (r : Record) : Prop :=
  crypto.decrypt s.readKeys.key (buildNonce s.readKeys) r.header r.payload = none

instance (s : Session) (r : Record) : Decidable (Unauthentic crypto s r) :=
  inferInstanceAs (Decidable (_ = _))

/-- No overrun, not an alert to a connected session, not a handshake record before that. -/
def Harmless (s : Session) (r : Record) : Prop :=
  Fits crypto s r ∧ if s.state = .connected then r.type ≠ 21 else r.type ≠ 22

/-- The second stream is the first with records inserted that do not authenticate under the
read key of their moment. What is kept and what is inserted meet a condition each. -/
inductive Inserted (kept forged : Session → Record → Prop) :
    Session → List Record → List Record → Prop
  | done (s : Session) : Inserted kept forged s [] []
  | keep {s : Session} {r : Record} {rest more : List Record} (fine : kept s r)
      (later : Inserted kept forged (after crypto s r) rest more) :
      Inserted kept forged s (r :: rest) (r :: more)
  | insert {s : Session} {r : Record} {rest more : List Record}
      (established : s.keysEstablished) (foreign : Unauthentic crypto s r) (fine : forged s r)
      (later : Inserted kept forged s rest more) : Inserted kept forged s rest (r :: more)

end Runs

/-- The second run overruns no buffer, and it is the first or ends in an error after reports
they share. -/
def Indistinct (run forgedRun : List Report × State) : Prop :=
  .overrun ∉ forgedRun.1 ∧
    (forgedRun = run ∨ ∃ shared, forgedRun.1 = shared ++ [.error] ∧ shared <+: run.1)

variable {crypto : Crypto} {s : Session} {r : Record} {records more : List Record}

/-- What a forged record is received as: an error, or its payload as it came. -/
theorem recvRecord_forged (established : s.keysEstablished) (forged : Unauthentic crypto s r)
    (fits : Fits crypto s r) : recvRecord crypto s r = (.failed, s) ∨
      r.type ≠ 23 ∧ recvRecord crypto s r = (.content r.type r.payload, s) := by
  have plain := recvRecord_fits fits
  unfold recvRecord at *
  split
  · exact .inl rfl
  next large =>
    rw [if_neg large] at plain
    by_cases data : r.type = 23
    · rw [if_pos ⟨established, data⟩, show crypto.decrypt _ _ _ _ = none from forged]
      exact .inl rfl
    · have clear : ¬ (s.keysEstablished ∧ r.type = 23) := fun both => data both.2
      rw [if_neg clear] at plain ⊢
      split
      next long => exact absurd (by rw [if_pos long]) plain
      · exact .inr ⟨data, rfl⟩

theorem handshakeRecord_forged (established : s.keysEstablished) (forged : Unauthentic crypto s r)
    (fits : Fits crypto s r) (other : r.type ≠ 22) :
    handshakeRecord crypto s r = .error .error := by
  unfold handshakeRecord
  rcases recvRecord_forged established forged fits with failed | ⟨-, taken⟩
  · rw [failed]
  · rw [taken]
    exact if_neg other

/-- The handshake fails on the second stream, or does on both what it does on
one, with the same insertions still to come. -/
theorem handshakeLoop_inserted
    (inserted : Inserted crypto (Fits crypto) (Harmless crypto) s records more) :
    handshakeLoop crypto s more = .error .error ∨ ∃ t rest later,
      handshakeLoop crypto s records = .ok (t, rest) ∧
        handshakeLoop crypto s more = .ok (t, later) ∧
        Inserted crypto (Fits crypto) (Harmless crypto) t rest later := by
  by_cases connected : s.state = .connected
  · exact .inr ⟨s, _, _, handshakeLoop_connected connected _, handshakeLoop_connected connected _,
      inserted⟩
  induction inserted with
  | done s =>
    left
    rw [handshakeLoop, if_neg connected]
  | @keep s r rest more fine later ih =>
    rw [handshakeLoop_cons connected, handshakeLoop_cons connected]
    rw [after, if_neg connected] at ih later
    cases outcome : handshakeRecord crypto s r with
    | error fault =>
      have plain := handshakeRecord_fits fine
      rw [outcome] at plain
      cases fault with
      | error => exact .inl rfl
      | overrun => exact absurd rfl plain
    | ok t =>
      rw [outcome] at ih later
      change handshakeLoop crypto t more = _ ∨ ∃ u left behind, handshakeLoop crypto t rest = _ ∧
        handshakeLoop crypto t more = _ ∧ _
      by_cases now : t.state = .connected
      · exact .inr ⟨t, _, _, handshakeLoop_connected now _, handshakeLoop_connected now _, later⟩
      · exact ih now
  | @insert s r rest more established foreign fine later ih =>
    obtain ⟨fits, other⟩ := fine
    rw [if_neg connected] at other
    rw [handshakeLoop_cons connected, handshakeRecord_forged established foreign fits other]
    exact .inl rfl

/-- The same for `tls_recv` on a connected session with an empty buffer. -/
theorem recvLoop_inserted (len : Nat)
    (inserted : Inserted crypto (Fits crypto) (Harmless crypto) s records more)
    (connected : s.state = .connected) :
    (recvLoop crypto s len more).1 = .error ∨ ∃ report t buffered rest later,
      recvLoop crypto s len records = (report, ⟨t, buffered, rest⟩) ∧
        recvLoop crypto s len more = (report, ⟨t, buffered, later⟩) ∧ report ≠ .overrun ∧
        Inserted crypto (Fits crypto) (Harmless crypto) t rest later := by
  induction inserted with
  | done s => exact .inl rfl
  | @keep s r rest more fine later ih =>
    obtain ⟨keys, kept⟩ := recvRecord_session crypto s r
    have plain := recvRecord_fits fine
    rw [after, if_pos connected] at later ih
    simp only [recvLoop]
    generalize recvRecord crypto s r = received at kept later ih plain
    obtain ⟨_ | _ | ⟨contentType, data⟩, t⟩ := received
    · exact .inl rfl
    · exact absurd rfl plain
    have still : t.state = .connected := by rw [show t = _ from kept]; exact connected
    by_cases alert : contentType = 21
    · subst alert
      exact .inr ⟨_, _, _, _, _, if_pos rfl, if_pos rfl, by simp, later⟩
    · simp only [alert, if_false] at later ih ⊢
      by_cases app : contentType = 23
      · exact .inr ⟨_, _, _, _, _, if_pos app, if_pos app, by simp, later⟩
      · simpa only [app, if_false] using ih still
  | @insert s r rest more established foreign fine later ih =>
    obtain ⟨fits, other⟩ := fine
    rw [if_pos connected] at other
    rcases recvRecord_forged established foreign fits with failed | ⟨clear, taken⟩
    · left
      simp only [recvLoop, failed]
    · have skipped : recvLoop crypto s len (r :: more) = recvLoop crypto s len more := by
        simp only [recvLoop, taken, other, clear, if_false]
      rw [skipped]
      exact ih connected

theorem tlsRecv_empty (crypto : Crypto) (len : Nat) (connected : s.state = .connected)
    (records : List Record) :
    tlsRecv crypto ⟨s, [], records⟩ len = recvLoop crypto s len records := by
  simp [tlsRecv, connected]

theorem tlsRecv_buffered {buffered : Bytes} (len : Nat) (connected : s.state = .connected)
    (unread : buffered ≠ []) (records : List Record) :
    tlsRecv crypto ⟨s, buffered, records⟩ len =
      (.data (buffered.take len), ⟨s, buffered.drop len, records⟩) := by
  simp [tlsRecv, connected, unread]

theorem receive_inserted (lens : List Nat) (buffered : Bytes)
    (inserted : Inserted crypto (Fits crypto) (Harmless crypto) s records more) :
    Indistinct (receive crypto ⟨s, buffered, records⟩ lens)
      (receive crypto ⟨s, buffered, more⟩ lens) := by
  induction lens generalizing s buffered records more with
  | nil => exact ⟨List.not_mem_nil, .inl rfl⟩
  | cons len rest ih =>
    -- a call that reports alike on both sides leaves the rest to the hypothesis
    have alike : ∀ {report t kept left later},
        Inserted crypto (Fits crypto) (Harmless crypto) t left later → report ≠ .overrun →
        tlsRecv crypto ⟨s, buffered, records⟩ len = (report, ⟨t, kept, left⟩) →
        tlsRecv crypto ⟨s, buffered, more⟩ len = (report, ⟨t, kept, later⟩) →
        Indistinct (receive crypto ⟨s, buffered, records⟩ (len :: rest))
          (receive crypto ⟨s, buffered, more⟩ (len :: rest)) := by
      intro report t kept left later inserted plain one other
      simp only [receive, one, other]
      split
      · exact ⟨by simpa using plain.symm, .inl rfl⟩
      · obtain ⟨clear, same | ⟨shared, ends, start⟩⟩ := ih kept inserted
        · exact ⟨by simpa using ⟨plain.symm, clear⟩, .inl (by rw [same])⟩
        · refine ⟨by simpa using ⟨plain.symm, clear⟩, .inr ⟨report :: shared, by simp [ends], ?_⟩⟩
          simpa using start
    by_cases connected : s.state = .connected
    · by_cases unread : buffered = []
      · subst unread
        have calls := tlsRecv_empty crypto len connected
        rcases recvLoop_inserted len inserted connected with
          failed | ⟨report, t, kept, left, later, one, other, plain, still⟩
        · refine ⟨by simp [receive, calls, failed], .inr ⟨[], ?_, List.nil_prefix⟩⟩
          simp [receive, calls, failed]
        · exact alike still plain ((calls records).trans one) ((calls more).trans other)
      · exact alike inserted (by simp) (tlsRecv_buffered len connected unread records)
          (tlsRecv_buffered len connected unread more)
    · exact ⟨by simp [receive, tlsRecv, connected], .inl (by simp [receive, tlsRecv, connected])⟩

def clearRecord (type : UInt8) : Record where
  type := type
  version := (3, 3)
  payload := [0, 0]
  behind _ := 0
  fits := by decide

def greeted : Session := sendClientHello checksums tlsNew ownKey [1, 0, 0, 0]

def twoBytes : Record where
  type := 23
  version := (3, 3)
  payload := [155, 157, 171] ++ List.replicate 16 235
  behind _ := 0
  fits := by decide

end ViperDos.Tls
