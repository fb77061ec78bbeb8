import Btls.Limit.Sealed

/-!
# Limit — Server

What holds of the server in each of its phases (`ServerOk`): the limits in force are those that
follow from what it has pending and from its keys, which read and write keys it may have, and that
it writes no 0-RTT.

Each lemma is one thing that the server does or reads of an honest client.  A ClientHello is where
it takes the offer and decides on 0-RTT (`ServerOk.serverHello`); the second one is checked against
the first and passes (`ServerOk.serverSecondHello`).
-/

namespace Btls.Limit.Peers

open Btls.Support Btls.Tls Btls.Limit

/-- The server in any stage. -/
structure ServerOk (C : Config) (server : Side ServerPhase) (accepted : Bool) : Prop where
  holds : server.Holds (if server.phase = .waitHello then 0 else C.toServerLimit)
    (if server.phase = .waitHello then 0 else C.toClientLimit)
  stream : server.ssl.isDtls = false
  config : server.ssl.configRecordSizeLimit = C.serverLimit
  waiting : server.phase = .waitHello →
    server.readEpoch = .hello ∧ server.ssl.skipEarlyData = false ∧ accepted = false
  waitingSecond : server.phase = .waitSecondHello → server.readEpoch = .retry
  hello : server.phase ≠ .waitHello → server.ssl.hs.recordSizeLimit = C.serverLimit
    ∧ server.ssl.hs.peerRecordSizeLimit = C.peerLimit ∧ server.ssl.protocolVersion = C.version
  read : server.readEpoch.level ≠ .initial → server.phase = .negotiated
  write : if server.phase = .sentHello then server.writeEpoch = .handshake
    else server.phase = .negotiated ∨ server.writeEpoch = .hello
  neverEarly : server.writeEpoch ≠ .earlyData
  early : server.readEpoch = .earlyData → accepted = true
  accepted : accepted = true → tls13Version ≤ C.version
    ∧ (C.toServerLimit = 0 ∨ recordSizeLimitMaxForVersion C.version ≤ C.toServerLimit)

section Server

variable {C : Config} {server server' : Side ServerPhase} {accepted : Bool} {inLen : Nat}
  {message : Message} {r : SealedRecord}

theorem ServerOk.initial (C : Config) : ServerOk C (World.initial C).server false where
  holds := ⟨rfl, rfl, rfl, rfl, rfl, rfl, rfl⟩
  stream := rfl
  config := rfl
  waiting _ := ⟨rfl, rfl, rfl⟩
  waitingSecond h := by cases h
  hello h := absurd rfl h
  read h := absurd rfl h
  write := .inr rfl
  neverEarly h := by cases h
  early h := by cases h
  accepted h := by cases h

/-- What a server has pending once it has read a ClientHello. -/
theorem ServerOk.answers (h : ServerOk C server accepted) (hphase : server.phase ≠ .waitHello) :
    server.Holds C.toServerLimit C.toClientLimit := by
  have holds := h.holds
  rwa [if_neg hphase, if_neg hphase] at holds

theorem ServerOk.writeEpoch_limited (h : ServerOk C server accepted)
    (hlimited : server.writeEpoch.limited = true) : server.phase ≠ .waitHello := by
  intro hphase
  have hwrite := h.write
  rw [hphase, if_neg (by decide)] at hwrite
  rw [hwrite.resolve_left (by decide)] at hlimited
  cases hlimited

theorem ServerOk.sealRecord (h : ServerOk C server accepted)
    (hseal : server.sealRecord C inLen message = some r) :
    r.epoch = server.writeEpoch ∧ r.message = message ∧ Sized C C.toClientLimit r := by
  refine sealRecord_sized h.holds hseal ?_ ?_ ?_
  · intro hlimited
    exact (h.hello (h.writeEpoch_limited hlimited)).2.2
  · intro hearly
    exact absurd hearly h.neverEarly
  · intro hlimited
    exact .inr (.inl (if_neg (h.writeEpoch_limited hlimited)))

theorem ServerOk.addServerhello (h : ServerOk C server accepted) (hphase : server.phase ≠ .waitHello) :
    server.ssl.addServerhello = C.answer := by
  obtain ⟨hlimit, hpeer, hversion⟩ := h.hello hphase
  exact addServerhello_answer hlimit hpeer hversion

/-- 0-RTT is accepted only where the limit of the records to the server allows any. -/
theorem allowsEarlyData_of_pending {s : Ssl} (hpending : s.pendingReadRecordSizeLimit = C.toServerLimit)
    (hversion : s.protocolVersion = C.version) (hallows : s.allowsEarlyData = true) :
    C.toServerLimit = 0 ∨ recordSizeLimitMaxForVersion C.version ≤ C.toServerLimit := by
  unfold Ssl.allowsEarlyData at hallows
  rw [hpending, hversion] at hallows
  simpa using hallows

/-- **The first ClientHello is read.** -/
theorem ServerOk.serverHello (hvalid : C.Valid) (h : ServerOk C server accepted)
    (hphase : server.phase = .waitHello) {wanted accepted' : Bool}
    (hserver : serverHello C server C.offer wanted = some (server', accepted')) :
    ServerOk C server' accepted' ∧ server'.phase = .answering
      ∧ (C.offersEarlyData = true → server'.ssl.skipEarlyData = true ∨ accepted' = true) := by
  obtain ⟨hread, -, -⟩ := h.waiting hphase
  have hwrite : server.writeEpoch = .hello := by
    have hwrite := h.write
    rw [hphase, if_neg (by decide)] at hwrite
    exact hwrite.resolve_left (by decide)
  have holds := h.holds
  unfold Peers.serverHello at hserver
  rw [parseClienthello_offer (s := { server.ssl with protocolVersion := C.version }) hvalid h.stream
    holds.stream h.config rfl] at hserver
  dsimp only at hserver
  obtain ⟨rfl, haccepted⟩ := Prod.mk.inj (Option.some.inj hserver)
  refine ⟨?_, rfl, fun hoffers => ?_⟩
  · exact { h with
      holds := { holds with
        pendingRead := rfl
        pendingWrite := rfl
        read := by
          have hnone := holds.read
          rw [hread] at hnone ⊢
          exact hnone
        write := by
          have hnone := holds.write
          rw [hwrite] at hnone ⊢
          exact hnone }
      waiting := fun hwaiting => by cases hwaiting
      waitingSecond := fun hwaiting => by cases hwaiting
      hello := fun _ => ⟨rfl, rfl, rfl⟩
      read := fun hkeys => absurd (congrArg Epoch.level hread) hkeys
      write := .inr hwrite
      early := fun hepoch => by cases hread.symm.trans hepoch
      accepted := fun haccepts => by
        rw [← haccepted] at haccepts
        simp only [Bool.and_eq_true, decide_eq_true_eq] at haccepts
        obtain ⟨⟨-, htls13⟩, hallows⟩ := haccepts
        exact ⟨htls13, allowsEarlyData_of_pending rfl rfl hallows⟩ }
  · show (C.offersEarlyData && !_) = true ∨ _
    rw [haccepted, hoffers]
    cases accepted'
    · exact .inl rfl
    · exact .inr rfl

/-- Once it has read what it waits for, a server goes on to answer; its handshake is done with the answer. -/
theorem ServerOk.setPhase (h : ServerOk C server accepted) {phase : ServerPhase}
    (hphase : server.phase = .waitSecondHello ∧ phase = .answeringSecond
      ∨ server.phase ≠ .waitHello ∧ phase = .negotiated) :
    ServerOk C { server with phase } accepted := by
  have hne : server.phase ≠ .waitHello := by
    rcases hphase with ⟨hwaits, -⟩ | ⟨hne, -⟩
    · rw [hwaits]
      decide
    · exact hne
  exact { h with
    holds := by
      have holds := h.answers hne
      rcases hphase with ⟨-, rfl⟩ | ⟨-, rfl⟩ <;> exact { holds with }
    waiting := fun hwaiting => by
      change phase = _ at hwaiting
      rcases hphase with ⟨-, rfl⟩ | ⟨-, rfl⟩ <;> cases hwaiting
    waitingSecond := fun hwaiting => by
      change phase = _ at hwaiting
      rcases hphase with ⟨-, rfl⟩ | ⟨-, rfl⟩ <;> cases hwaiting
    hello := fun _ => h.hello hne
    read := fun hkeys => by
      rcases hphase with ⟨hwaits, -⟩ | ⟨-, rfl⟩
      · cases hwaits.symm.trans (h.read hkeys)
      · rfl
    write := by
      rcases hphase with ⟨hwaits, rfl⟩ | ⟨-, rfl⟩
      · have hwrite := h.write
        rw [hwaits, if_neg (by decide)] at hwrite
        exact .inr (hwrite.resolve_left (by decide))
      · exact .inl rfl }

/-- **The second ClientHello is read**, and it is not refused. -/
theorem ServerOk.serverSecondHello (h : ServerOk C server accepted)
    (hphase : server.phase = .waitSecondHello) :
    serverSecondHello server C.offer = some { server with phase := .answeringSecond }
      ∧ ServerOk C { server with phase := .answeringSecond } accepted := by
  obtain ⟨hlimit, hpeer, -⟩ := h.hello (by rw [hphase]; decide)
  refine ⟨?_, h.setPhase (.inl ⟨hphase, rfl⟩)⟩
  unfold Peers.serverSecondHello
  rw [checkSecondClienthello_offer hlimit hpeer]

/-- A HelloRetryRequest. -/
theorem ServerOk.sendRetry (h : ServerOk C server accepted) (hphase : server.phase = .answering) :
    ServerOk C { server with phase := .waitSecondHello, readEpoch := .retry } accepted := by
  have hne : server.phase ≠ .waitHello := by rw [hphase]; decide
  have holds := h.answers hne
  have hinitial : server.readEpoch.level = .initial := by
    by_contra hkeys
    cases hphase.symm.trans (h.read hkeys)
  have hlimited : server.readEpoch.limited = false := Bool.eq_false_iff.mpr fun hlimited =>
    Epoch.level_initial_of_limited hlimited hinitial
  exact { h with
    holds := { holds with
      read := by
        have hread := holds.read
        rw [hlimited] at hread
        exact hread
      readNull := holds.readNull.trans (decide_eq_true hinitial) }
    waiting := fun hwaiting => by cases hwaiting
    waitingSecond := fun _ => rfl
    hello := fun _ => h.hello hne
    read := fun hkeys => absurd rfl hkeys
    write := by
      have hwrite := h.write
      rw [hphase, if_neg (by decide)] at hwrite
      exact .inr (hwrite.resolve_left (by decide))
    early := fun hepoch => by cases hepoch }

/-- A ServerHello of TLS 1.3: EncryptedExtensions go under the handshake keys. -/
theorem ServerOk.sendServerHello (h : ServerOk C server accepted)
    (hphase : server.phase = .answering ∨ server.phase = .answeringSecond) :
    ServerOk C (Side.installWrite { server with phase := .sentHello } .handshake) accepted := by
  have hne : server.phase ≠ .waitHello := by rcases hphase with hphase | hphase <;> rw [hphase] <;> decide
  have holds : Side.Holds { server with phase := ServerPhase.sentHello } C.toServerLimit C.toClientLimit :=
    { h.answers hne with }
  exact { h with
    holds := holds.installWrite fun hinitial => by cases hinitial
    waiting := fun hwaiting => by cases hwaiting
    waitingSecond := fun hwaiting => by cases hwaiting
    hello := fun _ => h.hello hne
    read := fun hkeys => by rcases hphase with hphase | hphase <;> cases hphase.symm.trans (h.read hkeys)
    write := rfl
    neverEarly := fun hepoch => by cases hepoch }

theorem ServerOk.installWrite (h : ServerOk C server accepted) (hphase : server.phase = .negotiated)
    {epoch : Epoch} (hlimited : epoch.limited = true) : ServerOk C (server.installWrite epoch) accepted :=
  { h with
    holds := h.holds.installWrite fun hinitial => absurd hinitial (Epoch.level_initial_of_limited hlimited)
    write := by
      have hphase' : (server.installWrite epoch).phase = .negotiated := hphase
      rw [hphase', if_neg (by decide)]
      exact .inl rfl
    neverEarly := fun hepoch => by
      change epoch = .earlyData at hepoch
      rw [hepoch] at hlimited
      cases hlimited }

theorem ServerOk.installRead (h : ServerOk C server accepted) (hphase : server.phase = .negotiated)
    {epoch : Epoch} (hkeys : epoch.level ≠ .initial) (hearly : epoch = .earlyData → accepted = true) :
    ServerOk C (server.installRead epoch) accepted :=
  { h with
    holds := h.holds.installRead fun hinitial => absurd hinitial hkeys
    waiting := fun hwaiting => by cases hphase.symm.trans hwaiting
    waitingSecond := fun hwaiting => by cases hphase.symm.trans hwaiting
    read := fun _ => hphase
    early := hearly }

theorem ServerOk.opened (h : ServerOk C server accepted)
    (hopened : server.openRecord C r = .opened server') : ServerOk C server' accepted
      ∧ r.epoch = server.readEpoch ∧ server'.phase = server.phase := by
  obtain ⟨hepoch, exceeded, rfl, -⟩ := openRecord_opened hopened
  refine ⟨?_, hepoch, rfl⟩
  exact { h with
    holds := { h.holds with }
    waiting := fun hwaiting => ⟨(h.waiting hwaiting).1, rfl, (h.waiting hwaiting).2.2⟩ }

end Server

end Btls.Limit.Peers
