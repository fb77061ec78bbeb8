import Btls.Limit.Sealed

/-!
# Limit — Client

What holds of the client from its first ClientHello on (`ClientOk`): the limits in force are those
that follow from what it has pending and from its keys, and what it has pending is what the
configuration offers and the server's answer.

Each lemma is one thing that the client does or reads of an honest server: its first and its second
ClientHello, a HelloRetryRequest, a ServerHello, EncryptedExtensions, and what it sends and installs
besides.  `ClientOk.clientExtensions` is where the limits change: the answer is confirmed, and the
keys under which the client writes get their limit.
-/

namespace Btls.Limit.Peers

open Btls.Support Btls.Tls Btls.Limit

/-- The client in any stage. -/
structure ClientOk (C : Config) (client : Side ClientPhase) : Prop where
  holds : client.Holds (if client.phase = .negotiated then C.toClientLimit else 0)
    (if client.phase = .negotiated then C.toServerLimit else 0)
  stream : client.ssl.isDtls = false
  config : client.ssl.configRecordSizeLimit = C.clientLimit
  decrypts : client.ssl.skipEarlyData = false
  start : client.phase = .start → client.writeEpoch = .hello
  hello : client.phase ≠ .start →
    client.ssl.hs.recordSizeLimit = C.clientLimit ∧ client.ssl.hs.maxVersion = C.clientMaxVersion
  retry : client.phase = .retrying ∨ client.phase = .sentSecondHello → client.writeEpoch = .retry
  version : client.phase = .waitExtensions ∨ client.phase = .negotiated →
    client.ssl.protocolVersion = C.version
  waiting : client.phase = .waitExtensions → tls13Version ≤ C.version ∧ client.readEpoch = .handshake
    ∧ (client.writeEpoch = .handshake ∨ client.writeEpoch = .earlyData)
  early : client.ssl.hs.inEarlyData = true ↔ client.writeEpoch = .earlyData
  earlyVersion : client.writeEpoch = .earlyData →
    C.offersEarlyData = true ∧ tls13Version ≤ client.ssl.protocolVersion
  read : client.readEpoch.limited = true → client.phase = .waitExtensions ∨ client.phase = .negotiated
  write : client.writeEpoch.limited = true → client.phase = .waitExtensions ∨ client.phase = .negotiated
  unconfirmed : client.ssl.unconfirmedReadRecordSizeLimit ≠ 0 → client.readEpoch.limited = true
    ∧ client.ssl.unconfirmedReadRecordSizeLimit = recordSizeLimitForVersion C.clientLimit C.version
  exceeded : client.ssl.unconfirmedReadRecordSizeLimitExceeded = true → C.toClientLimit = 0

section Client

variable {C : Config} {client client' : Side ClientPhase} {inLen : Nat} {message : Message}
  {r : SealedRecord}

theorem Config.toServerLimit_ge (C : Config) : C.toServerLimit = 0 ∨ kMinRecordSizeLimit ≤ C.toServerLimit := by
  unfold Config.toServerLimit
  split
  · exact .inr (recordSizeLimitForVersion_bounds _ _).1
  · exact .inl rfl

/-- What the client seals, where under its first handshake keys that is an alert. -/
theorem ClientOk.sealRecord (h : ClientOk C client) (hseal : client.sealRecord C inLen message = some r)
    (halert : client.phase = .waitExtensions → client.writeEpoch = .handshake → inLen ≤ 2) :
    r.epoch = client.writeEpoch ∧ r.message = message ∧ Sized C C.toServerLimit r := by
  refine sealRecord_sized h.holds hseal ?_ ?_ ?_
  · intro hlimited
    exact h.version (h.write hlimited)
  · intro hearly
    exact (h.earlyVersion hearly).2
  · intro hlimited
    rcases h.write hlimited with hwaiting | hnegotiated
    · rcases (h.waiting hwaiting).2.2 with hepoch | hepoch
      · exact C.toServerLimit_ge.imp_right fun hge => .inr ⟨halert hwaiting hepoch, hge⟩
      · rw [hepoch] at hlimited
        cases hlimited
    · exact .inr (.inl (if_pos hnegotiated))

/-- Until it has an answer a client has no keys that limits apply to. -/
theorem ClientOk.unlimited (h : ClientOk C client)
    (hphase : client.phase ≠ .waitExtensions ∧ client.phase ≠ .negotiated) :
    client.readEpoch.limited = false ∧ client.writeEpoch.limited = false :=
  ⟨Bool.eq_false_iff.mpr fun hread => (h.read hread).elim hphase.1 hphase.2,
    Bool.eq_false_iff.mpr fun hwrite => (h.write hwrite).elim hphase.1 hphase.2⟩

/-- A client that has sent a ClientHello waits for the answer. -/
theorem ClientPhase.of_sent {phase : ClientPhase} (h : phase = .sentHello ∨ phase = .sentSecondHello) :
    phase ≠ .start ∧ phase ≠ .waitExtensions ∧ phase ≠ .negotiated := by
  rcases h with rfl | rfl <;> decide

theorem ClientOk.initial (C : Config) : ClientOk C (World.initial C).client where
  holds := ⟨rfl, rfl, rfl, rfl, rfl, rfl, rfl⟩
  stream := rfl
  config := rfl
  decrypts := rfl
  start _ := rfl
  hello h := absurd rfl h
  retry h := by rcases h with h | h <;> cases h
  version h := by rcases h with h | h <;> cases h
  waiting h := by cases h
  early := ⟨fun h => (by cases h), fun h => (by cases h)⟩
  earlyVersion h := by cases h
  read h := by cases h
  write h := by cases h
  unconfirmed h := absurd rfl h
  exceeded h := by cases h

/-- A client that has not heard of an answer has nothing pending. -/
theorem ClientOk.unanswered (h : ClientOk C client) (hphase : client.phase ≠ .negotiated) :
    client.Holds 0 0 := by
  have holds := h.holds
  rwa [if_neg hphase, if_neg hphase] at holds

theorem ClientOk.startConnect (h : ClientOk C client) (hphase : client.phase = .start) :
    ClientOk C (startConnect C client) where
  holds := by
    have hpending := h.unanswered (by rw [hphase]; decide)
    exact { hpending with }
  stream := h.stream
  config := h.config
  decrypts := h.decrypts
  start hstart := by cases hstart
  hello _ := by
    refine ⟨?_, rfl⟩
    show (if client.ssl.isDtls then 0 else client.ssl.configRecordSizeLimit) = _
    rw [h.stream, h.config]
    rfl
  retry hretry := by rcases hretry with hretry | hretry <;> cases hretry
  version hversion := by rcases hversion with hversion | hversion <;> cases hversion
  waiting hwaiting := by cases hwaiting
  early := h.early
  earlyVersion := h.earlyVersion
  read hread := by
    have hnone := (h.unlimited (by rw [hphase]; decide)).1
    cases hnone.symm.trans hread
  write hwrite := by
    have hnone := (h.unlimited (by rw [hphase]; decide)).2
    cases hnone.symm.trans hwrite
  unconfirmed := h.unconfirmed
  exceeded := h.exceeded

theorem ClientOk.enterEarlyData (h : ClientOk C client) (hphase : client.phase = .sentHello)
    (hoffers : C.offersEarlyData = true) : ClientOk C (enterEarlyData client) where
  holds := by
    have hpending := h.unanswered (by rw [hphase]; decide)
    have hstored : Side.Holds { client with ssl := { client.ssl with
        protocolVersion := tls13Version, hs := { client.ssl.hs with inEarlyData := true } } } 0 0 :=
      { hpending with }
    have hphase' : (Peers.enterEarlyData client).phase = .sentHello := hphase
    rw [hphase']
    exact hstored.installWrite fun hinitial => by cases hinitial
  stream := h.stream
  config := h.config
  decrypts := h.decrypts
  start hstart := by cases hphase.symm.trans hstart
  hello _ := h.hello (by rw [hphase]; decide)
  retry hretry := by rcases hretry with hretry | hretry <;> cases hphase.symm.trans hretry
  version hversion := by rcases hversion with hversion | hversion <;> cases hphase.symm.trans hversion
  waiting hwaiting := by cases hphase.symm.trans hwaiting
  early := ⟨fun _ => rfl, fun _ => rfl⟩
  earlyVersion _ := ⟨hoffers, Nat.le_refl _⟩
  read := h.read
  write hwrite := by cases hwrite
  unconfirmed := h.unconfirmed
  exceeded := h.exceeded

theorem ClientOk.addClienthello (h : ClientOk C client) (hphase : client.phase ≠ .start) :
    client.ssl.addClienthello = C.offer := by
  obtain ⟨hlimit, hversion⟩ := h.hello hphase
  unfold Ssl.addClienthello Config.offer
  rw [hlimit, hversion]

/-- **The first ClientHello.** -/
theorem ClientOk.sendHello (h : ClientOk C client) (hphase : client.phase = .start)
    (hsend : sendHello C client inLen = some (client', r)) :
    ClientOk C client' ∧ client'.phase = .sentHello
      ∧ (client'.writeEpoch = .hello ∨ client'.writeEpoch = .earlyData ∧ C.offersEarlyData = true)
      ∧ r.epoch = .hello ∧ r.message = .clientHello C.offer ∧ Sized C C.toServerLimit r := by
  obtain ⟨r', hseal, heq⟩ := Option.map_eq_some_iff.mp hsend
  obtain ⟨rfl, rfl⟩ := Prod.mk.inj heq
  have hstarted := h.startConnect hphase
  have hepoch : (Peers.startConnect C client).writeEpoch = .hello := h.start hphase
  obtain ⟨hr, hmessage, hsized⟩ := hstarted.sealRecord hseal fun hwaiting => by cases hwaiting
  rw [hstarted.addClienthello fun hstart => by cases hstart] at hmessage
  refine ⟨?_, ?_, ?_, hr.trans hepoch, hmessage, hsized⟩
  · split
    · exact hstarted.enterEarlyData rfl ‹_›
    · exact hstarted
  · split <;> rfl
  · split
    · exact .inr ⟨rfl, ‹_›⟩
    · exact .inl hepoch

/-- **The second ClientHello.** -/
theorem ClientOk.sendSecondHello (h : ClientOk C client) (hphase : client.phase = .retrying)
    (hsend : sendSecondHello C client inLen = some (client', r)) :
    ClientOk C client' ∧ client' = { client with phase := .sentSecondHello }
      ∧ r.epoch = .retry ∧ r.message = .clientHello C.offer ∧ Sized C C.toServerLimit r := by
  obtain ⟨r', hseal, heq⟩ := Option.map_eq_some_iff.mp hsend
  obtain ⟨rfl, rfl⟩ := Prod.mk.inj heq
  obtain ⟨hr, hmessage, hsized⟩ := h.sealRecord hseal fun hwaiting => by cases hphase.symm.trans hwaiting
  have hepoch := h.retry (.inl hphase)
  have hne : client.phase ≠ .start := by rw [hphase]; decide
  rw [h.addClienthello hne] at hmessage
  refine ⟨?_, rfl, hr.trans hepoch, hmessage, hsized⟩
  exact { h with
    holds := { h.unanswered (by rw [hphase]; decide) with }
    start := fun hstart => by cases hstart
    hello := fun _ => h.hello hne
    retry := fun _ => hepoch
    version := fun hversion => by rcases hversion with hversion | hversion <;> cases hversion
    waiting := fun hwaiting => by cases hwaiting
    read := fun hread => by
      rcases h.read hread with hphase' | hphase' <;> cases hphase.symm.trans hphase'
    write := fun hwrite => by
      rcases h.write hwrite with hphase' | hphase' <;> cases hphase.symm.trans hphase' }

/-- 0-RTT ends with a HelloRetryRequest, or once the answer is read. -/
theorem ClientOk.closeEarlyData (h : ClientOk C client) {epoch : Epoch}
    (hphase : client.phase = .sentHello ∧ epoch = .retry
      ∨ client.phase = .negotiated ∧ epoch.limited = true) :
    ClientOk C (closeEarlyData client epoch) where
  holds := by
    have hclosed : Side.Holds { client with
        ssl := { client.ssl with hs := { client.ssl.hs with inEarlyData := false } } }
        (if client.phase = .negotiated then C.toClientLimit else 0)
        (if client.phase = .negotiated then C.toServerLimit else 0) := { h.holds with }
    refine hclosed.installWrite fun hinitial => ?_
    rcases hphase with ⟨hsent, -⟩ | ⟨-, hlimited⟩
    · rw [hsent]
      rfl
    · exact absurd hinitial (Epoch.level_initial_of_limited hlimited)
  stream := h.stream
  config := h.config
  decrypts := h.decrypts
  start hstart := by rcases hphase with ⟨hsent, -⟩ | ⟨hsent, -⟩ <;> cases hsent.symm.trans hstart
  hello := h.hello
  retry hretry := by
    rcases hphase with ⟨hsent, -⟩ | ⟨hsent, -⟩ <;> rcases hretry with hretry | hretry <;>
      cases hsent.symm.trans hretry
  version := h.version
  waiting hwaiting := by rcases hphase with ⟨hsent, -⟩ | ⟨hsent, -⟩ <;> cases hsent.symm.trans hwaiting
  early := by
    refine ⟨fun hclosed => (by cases hclosed), fun hepoch => ?_⟩
    change epoch = .earlyData at hepoch
    rcases hphase with ⟨-, rfl⟩ | ⟨-, hlimited⟩
    · cases hepoch
    · rw [hepoch] at hlimited
      cases hlimited
  earlyVersion hepoch := by
    change epoch = .earlyData at hepoch
    rcases hphase with ⟨-, rfl⟩ | ⟨-, hlimited⟩
    · cases hepoch
    · rw [hepoch] at hlimited
      cases hlimited
  read := h.read
  write hwrite := by
    rcases hphase with ⟨-, rfl⟩ | ⟨hnegotiated, -⟩
    · cases hwrite
    · exact .inr hnegotiated
  unconfirmed := h.unconfirmed
  exceeded := h.exceeded

/-- Without 0-RTT in progress a client that has not heard of an answer writes under no keys. -/
theorem ClientOk.writeEpoch_initial (h : ClientOk C client)
    (hphase : client.phase ≠ .waitExtensions ∧ client.phase ≠ .negotiated)
    (hearly : client.ssl.hs.inEarlyData = false) : client.writeEpoch.level = .initial := by
  rcases client.writeEpoch.kinds with hinitial | hepoch | hlimited
  · exact hinitial
  · cases hearly.symm.trans (h.early.mpr hepoch)
  · cases (h.unlimited hphase).2.symm.trans hlimited

/-- The keys of 0-RTT are given up before the second ClientHello. -/
theorem ClientOk.retryKeys (h : ClientOk C client) (hphase : client.phase = .sentHello)
    (hclient : (if client.ssl.hs.inEarlyData then Peers.closeEarlyData client .retry
      else { client with writeEpoch := .retry }) = client') :
    ClientOk C client' ∧ client'.phase = .sentHello ∧ client'.writeEpoch = .retry := by
  obtain ⟨-, hunread⟩ := ClientPhase.of_sent (.inl hphase)
  have hunanswered := h.unanswered hunread.2
  subst hclient
  split
  · exact ⟨h.closeEarlyData (.inl ⟨hphase, rfl⟩), hphase, rfl⟩
  · rename_i hearly
    have hearly := Bool.eq_false_iff.mpr hearly
    have hinitial := h.writeEpoch_initial hunread hearly
    refine ⟨?_, hphase, rfl⟩
    exact { h with
      holds := { h.holds with
        write := by
          have hwrite := hunanswered.write
          rw [(h.unlimited hunread).2] at hwrite
          exact hwrite
        writeNull := hunanswered.writeNull.trans (decide_eq_true hinitial) }
      start := fun hstart => by cases hphase.symm.trans hstart
      retry := fun _ => rfl
      waiting := fun hwaiting => by cases hphase.symm.trans hwaiting
      early := ⟨fun hopen => (by cases hearly.symm.trans hopen), fun hepoch => (by cases hepoch)⟩
      earlyVersion := fun hepoch => by cases hepoch
      write := fun hlimited => by cases hlimited }

/-- **A HelloRetryRequest.** -/
theorem ClientOk.clientRetry (h : ClientOk C client) (hphase : client.phase = .sentHello) :
    ClientOk C (clientRetry client) ∧ (clientRetry client).phase = .retrying
      ∧ (clientRetry client).writeEpoch = .retry := by
  obtain ⟨h₁, hphase₁, hepoch₁⟩ := h.retryKeys hphase rfl
  obtain ⟨hstart, hunread⟩ := ClientPhase.of_sent (.inl hphase₁)
  obtain ⟨hread, hwrite⟩ := h₁.unlimited hunread
  refine ⟨?_, rfl, hepoch₁⟩
  exact { h₁ with
    holds := { h₁.unanswered hunread.2 with }
    start := fun hstart => by cases hstart
    hello := fun _ => h₁.hello hstart
    retry := fun _ => hepoch₁
    version := fun hversion => by rcases hversion with hversion | hversion <;> cases hversion
    waiting := fun hwaiting => by cases hwaiting
    read := fun hlimited => by cases hread.symm.trans hlimited
    write := fun hlimited => by cases hwrite.symm.trans hlimited }

/-- A limit is only held unconfirmed under handshake keys, and it is what the client offered. -/
theorem setReadState_unconfirmed {s : Ssl} {level : Ssl.Level}
    (h : (s.setReadState level).unconfirmedReadRecordSizeLimit ≠ 0) : level = .handshake
      ∧ (s.setReadState level).unconfirmedReadRecordSizeLimit
        = recordSizeLimitForVersion s.hs.recordSizeLimit s.protocolVersion := by
  obtain ⟨hunconfirmed, -⟩ := ite_ne_right_iff.mp h
  exact ⟨hunconfirmed.1, if_pos hunconfirmed⟩

theorem ClientOk.installRead (h : ClientOk C client) {epoch : Epoch} (hlimited : epoch.limited = true)
    (hphase : client.phase = .waitExtensions ∧ epoch = .handshake ∨ client.phase = .negotiated) :
    ClientOk C (client.installRead epoch) where
  holds := h.holds.installRead fun hinitial => absurd hinitial (Epoch.level_initial_of_limited hlimited)
  stream := h.stream
  config := h.config
  decrypts := h.decrypts
  start := h.start
  hello := h.hello
  retry := h.retry
  version := h.version
  waiting hwaiting := by
    obtain ⟨hversion, -, hwrite⟩ := h.waiting hwaiting
    rcases hphase with ⟨-, hepoch⟩ | hnegotiated
    · exact ⟨hversion, hepoch, hwrite⟩
    · cases hnegotiated.symm.trans hwaiting
  early := h.early
  earlyVersion := h.earlyVersion
  read _ := hphase.imp_left And.left
  write := h.write
  unconfirmed hunconfirmed := by
    obtain ⟨-, heq⟩ := setReadState_unconfirmed hunconfirmed
    refine ⟨hlimited, heq.trans ?_⟩
    have hne : client.phase ≠ .start := by rcases hphase with ⟨hphase, -⟩ | hphase <;> rw [hphase] <;> decide
    rw [← (h.hello hne).1, ← h.version (hphase.imp_left And.left)]
  exceeded hexceeded := by cases hexceeded

/-- The client hears of TLS 1.3: handshake keys, for its writes only once 0-RTT is over. -/
theorem ClientOk.waitExtensions {ext : Option Bytes} (h : ClientOk C client)
    (hphase : client.phase = .sentHello ∨ client.phase = .sentSecondHello)
    (htls13 : tls13Version ≤ C.version) (hserver : clientServerHello C client ext = some client') :
    ClientOk C client' ∧ client'.phase = .waitExtensions
      ∧ (client'.writeEpoch = client.writeEpoch ∨ client'.writeEpoch = .handshake) := by
  obtain ⟨hstart, hunread⟩ := ClientPhase.of_sent hphase
  unfold clientServerHello at hserver
  dsimp only at hserver
  rw [if_pos htls13] at hserver
  generalize hclient₁ : ({ client with
    ssl := { client.ssl with protocolVersion := C.version }, phase := .waitExtensions } :
      Side ClientPhase) = client₁ at hserver
  have hunanswered := h.unanswered hunread.2
  have holds₁ : client₁.Holds 0 0 := hclient₁ ▸ { hunanswered with }
  have holds₂ : (client₁.installRead .handshake).Holds 0 0 := holds₁.installRead fun _ => rfl
  have hunconfirmed : (client₁.installRead .handshake).ssl.unconfirmedReadRecordSizeLimit ≠ 0 →
      (client₁.installRead .handshake).ssl.unconfirmedReadRecordSizeLimit
        = recordSizeLimitForVersion C.clientLimit C.version := by
    intro hne
    rw [← (h.hello hstart).1]
    subst hclient₁
    exact (setReadState_unconfirmed hne).2
  have hearly : (client₁.installRead .handshake).ssl.hs.inEarlyData = client.ssl.hs.inEarlyData :=
    hclient₁ ▸ rfl
  rw [hearly] at hserver
  -- While 0-RTT lasts, the client goes on writing under its early keys.
  by_cases hopen : client.ssl.hs.inEarlyData = true
  · rw [if_pos hopen] at hserver
    have hepoch := h.early.mp hopen
    subst hclient₁
    cases hserver
    refine ⟨?_, rfl, .inl rfl⟩
    exact { h with
      holds := holds₂
      start := fun hstart => by cases hstart
      hello := fun _ => h.hello hstart
      retry := fun hretry => by rcases hretry with hretry | hretry <;> cases hretry
      version := fun _ => rfl
      waiting := fun _ => ⟨htls13, rfl, .inr hepoch⟩
      earlyVersion := fun _ => ⟨(h.earlyVersion hepoch).1, htls13⟩
      read := fun _ => .inl rfl
      write := fun _ => .inl rfl
      unconfirmed := fun hne => ⟨rfl, hunconfirmed hne⟩
      exceeded := fun hexceeded => by cases hexceeded }
  · rw [if_neg hopen] at hserver
    subst hclient₁
    cases hserver
    refine ⟨?_, rfl, .inr rfl⟩
    exact { h with
      holds := holds₂.installWrite fun _ => rfl
      start := fun hstart => by cases hstart
      hello := fun _ => h.hello hstart
      retry := fun hretry => by rcases hretry with hretry | hretry <;> cases hretry
      version := fun _ => rfl
      waiting := fun _ => ⟨htls13, rfl, .inl rfl⟩
      early := ⟨fun hopen' => absurd hopen' hopen, fun hepoch => (by cases hepoch)⟩
      earlyVersion := fun hepoch => by cases hepoch
      read := fun _ => .inl rfl
      write := fun _ => .inl rfl
      unconfirmed := fun hne => ⟨rfl, hunconfirmed hne⟩
      exceeded := fun hexceeded => by cases hexceeded }

/-- What is read of the answer in TLS 1.2 puts nothing in force yet. -/
theorem ClientOk.hearAnswer (h : ClientOk C client)
    (hphase : client.phase = .sentHello ∨ client.phase = .sentSecondHello)
    (htls12 : ¬ tls13Version ≤ C.version) (hserver : clientServerHello C client C.answer = some client') :
    ClientOk C client' ∧ client'.phase = .negotiated ∧ client'.writeEpoch = client.writeEpoch := by
  obtain ⟨hstart, hunread⟩ := ClientPhase.of_sent hphase
  have hunanswered := h.unanswered hunread.2
  obtain ⟨hreads, hwrites⟩ := h.unlimited hunread
  have hread : client.ssl.readRecordSizeLimit = 0 := by rw [hunanswered.read, hreads]; rfl
  have hwrite : client.ssl.writeRecordSizeLimit = 0 := by rw [hunanswered.write, hwrites]; rfl
  unfold clientServerHello at hserver
  dsimp only at hserver
  rw [if_neg htls12] at hserver
  obtain ⟨hopen, hserver⟩ := Option.ite_none_left_eq_some.mp hserver
  rw [parseServerhello_answer (s := { client.ssl with protocolVersion := C.version }) hunanswered.stream
    (h.hello hstart).1 rfl h.exceeded hread hwrite] at hserver
  dsimp only at hserver
  cases hserver
  refine ⟨?_, rfl, rfl⟩
  exact { h with
    holds := { hunanswered with
      pendingRead := rfl
      pendingWrite := rfl
      read := by
        rw [hreads]
        exact if_neg htls12
      write := by
        rw [hwrites]
        exact if_neg fun hversion => htls12 hversion.1 }
    start := fun hstart => by cases hstart
    hello := fun _ => h.hello hstart
    retry := fun hretry => by rcases hretry with hretry | hretry <;> cases hretry
    version := fun _ => rfl
    waiting := fun hwaiting => by cases hwaiting
    earlyVersion := fun hepoch => absurd (h.early.mpr hepoch) hopen
    read := fun _ => .inr rfl
    write := fun _ => .inr rfl
    unconfirmed := fun hunconfirmed => absurd rfl hunconfirmed
    exceeded := fun hexceeded => by cases hexceeded }

/-- **EncryptedExtensions** put the limits in force, that of the writes once they are under handshake
keys. -/
theorem ClientOk.clientExtensions {accepted : Bool} (h : ClientOk C client)
    (hphase : client.phase = .waitExtensions)
    (hextensions : clientExtensions client C.answer accepted = some client') :
    ClientOk C client' ∧ client'.phase = .negotiated
      ∧ (client'.writeEpoch = client.writeEpoch ∨ client'.writeEpoch = .handshake) := by
  have hstart : client.phase ≠ .start := by rw [hphase]; decide
  have hunanswered := h.unanswered (by rw [hphase]; decide)
  obtain ⟨htls13, hreads, hwrites⟩ := h.waiting hphase
  have hversion := h.version (.inl hphase)
  have hread : client.ssl.readRecordSizeLimit = 0 := by rw [hunanswered.read, ite_self]
  have hwrite : client.ssl.writeRecordSizeLimit = 0 := by rw [hunanswered.write, ite_self]
  unfold Peers.clientExtensions at hextensions
  rw [parseServerhello_answer hunanswered.stream (h.hello hstart).1 hversion h.exceeded hread
    hwrite] at hextensions
  dsimp only at hextensions
  generalize hclient₁ : ({ client with ssl := _, phase := .negotiated } : Side ClientPhase) = client₁
    at hextensions
  have h₁ : ClientOk C client₁ := by
    subst hclient₁
    exact { h with
      holds := { hunanswered with
        pendingRead := rfl
        pendingWrite := rfl
        read := by
          rw [hreads]
          exact if_pos htls13
        write := by
          rcases hwrites with hepoch | hepoch
          · have hopen : client.ssl.hs.inEarlyData = false := Bool.eq_false_iff.mpr fun hopen => by
              cases hepoch.symm.trans (h.early.mp hopen)
            rw [hepoch]
            exact if_pos ⟨htls13, hopen⟩
          · have hopen := h.early.mpr hepoch
            rw [hepoch]
            exact if_neg fun hclosed => by cases hopen.symm.trans hclosed.2 }
      start := fun hstart => by cases hstart
      hello := fun _ => h.hello hstart
      retry := fun hretry => by rcases hretry with hretry | hretry <;> cases hretry
      version := fun _ => hversion
      waiting := fun hwaiting => by cases hwaiting
      read := fun _ => .inr rfl
      write := fun _ => .inr rfl
      unconfirmed := fun hunconfirmed => absurd rfl hunconfirmed
      exceeded := fun hexceeded => by cases hexceeded }
  have hepoch₁ : client₁.writeEpoch = client.writeEpoch := hclient₁ ▸ rfl
  have hphase₁ : client₁.phase = .negotiated := hclient₁ ▸ rfl
  -- Where 0-RTT was rejected, the writes move to handshake keys here.
  split at hextensions
  · cases hextensions
    exact ⟨h₁.closeEarlyData (.inr ⟨hphase₁, rfl⟩), hphase₁, .inr rfl⟩
  · cases hextensions
    exact ⟨h₁, hphase₁, .inl hepoch₁⟩

/-- What the client opens changes nothing but whether it has seen its offer exceeded, and it has not. -/
theorem ClientOk.opened (h : ClientOk C client) (hopened : client.openRecord C r = .opened client')
    (hsized : Sized C C.toClientLimit r) : ClientOk C client' ∧ r.epoch = client.readEpoch
      ∧ client'.phase = client.phase ∧ client'.readEpoch = client.readEpoch
      ∧ client'.writeEpoch = client.writeEpoch := by
  obtain ⟨hepoch, exceeded, rfl, hexceeded⟩ := openRecord_opened hopened
  refine ⟨?_, hepoch, rfl, rfl, rfl⟩
  exact { h with
    holds := { h.holds with }
    decrypts := rfl
    exceeded := fun hnow => by
      rcases hexceeded hnow with hbefore | ⟨hunconfirmed, hlt⟩
      · exact h.exceeded hbefore
      · obtain ⟨hlimited, hoffer⟩ := h.unconfirmed hunconfirmed
        obtain ⟨n, -, -, -, hlimit⟩ := hsized.limited (hepoch ▸ hlimited)
        refine hlimit.resolve_right fun hle => ?_
        by_cases hneg : C.Negotiates
        · rw [Config.toClientLimit, if_pos hneg] at hle
          exact Nat.not_lt.mpr hle (hoffer ▸ hlt)
        · rw [Config.toClientLimit, if_neg hneg] at hle
          exact Nat.not_lt_zero _ (Nat.lt_of_lt_of_le hlt hle) }

end Client

end Btls.Limit.Peers
