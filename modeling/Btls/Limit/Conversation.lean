import Btls.Limit.Client
import Btls.Limit.Server

/-!
# Limit — Conversation

Every reachable state of the two peers is a stage of one conversation (`Stage`), in which each side
holds the limits that are agreed and each record in flight keeps the limit of its keys (`Agreed`).

`limits_agree` is what follows.  The second ClientHello passes; both sides see the same negotiation;
the limits of a direction agree under the same keys, also between two states of one configuration,
so whatever is in flight while the keys change; and no check rejects a record of the other side.

`Agreed` has a part for each thing that a step may disturb.  `client` and `server` are what each
side knows (`ClientOk`, `ServerOk`); `stage` is what is said under no keys, which is all that
decides how the two go on; `toServer` and `toClient` are the sizes of what is in flight; and `order`
and `early` are about the keys of what the client sends, which only get later, with 0-RTT in flight
only while the server waits for it, skips it or accepts it.  There is one lemma for each action, and
`Agreed.step` puts them together.
-/

namespace Btls.Limit.Peers

open Btls.Support Btls.Tls Btls.Limit

/-! ### Stages -/

/-- The records under no keys, with what they say. -/
def plain (records : List SealedRecord) : List (Epoch × Message) :=
  (records.filter fun r => r.epoch.level = Ssl.Level.initial).map fun r => (r.epoch, r.message)

section Plain

variable {r : SealedRecord} {records : List SealedRecord}

theorem plain_append (records more : List SealedRecord) : plain (records ++ more) = plain records ++ plain more := by
  simp [plain]

theorem plain_cons : plain (r :: records) = plain [r] ++ plain records := plain_append [r] records

/-- A record under no keys is seen with what it says. -/
theorem plain_of_initial (h : r.epoch.level = .initial) : plain [r] = [(r.epoch, r.message)] := by
  simp [plain, h]

/-- A record in flight under no keys is among those that the stage speaks of. -/
theorem mem_plain (hr : r ∈ records) (h : r.epoch.level = .initial) : (r.epoch, r.message) ∈ plain records :=
  List.mem_map.mpr ⟨r, List.mem_filter.mpr ⟨hr, decide_eq_true h⟩, rfl⟩

/-- What a record under keys says is not seen. -/
theorem plain_of_keys (h : r.epoch.level ≠ .initial) : plain [r] = [] := by simp [plain, h]

end Plain

/-- How far the two have come, and the records under no keys in flight to the server and to the client. -/
inductive Stage (C : Config) :
    ClientPhase → ServerPhase → (toServer toClient : List (Epoch × Message)) → Prop where
  | start : Stage C .start .waitHello [] []
  | hello : Stage C .sentHello .waitHello [(.hello, .clientHello C.offer)] []
  | answering : Stage C .sentHello .answering [] []
  | retry : Stage C .sentHello .waitSecondHello [] [(.hello, .helloRetryRequest)]
  | retrying : Stage C .retrying .waitSecondHello [] []
  | secondHello : Stage C .sentSecondHello .waitSecondHello [(.retry, .clientHello C.offer)] []
  | answeringSecond : Stage C .sentSecondHello .answeringSecond [] []
  | answered {client : ClientPhase} {server : ServerPhase}
      (hclient : client = .sentHello ∨ client = .sentSecondHello)
      (hserver : server = .sentHello ∨ server = .negotiated) :
      Stage C client server [] [(.hello, .serverHello C.helloAnswer)]
  | settled {client : ClientPhase} {server : ServerPhase}
      (hclient : client = .waitExtensions ∨ client = .negotiated)
      (hserver : server = .sentHello ∨ server = .negotiated) : Stage C client server [] []

section Stages

variable {C : Config} {c : ClientPhase} {s : ServerPhase} {m : Epoch × Message}
  {toServer toClient : List (Epoch × Message)}

/-- Nothing is in flight before the first ClientHello. -/
theorem Stage.of_start (h : Stage C .start s toServer toClient) :
    s = .waitHello ∧ toServer = [] ∧ toClient = [] := by
  cases h with
  | start => exact ⟨rfl, rfl, rfl⟩
  | answered hclient => rcases hclient with hclient | hclient <;> cases hclient
  | settled hclient => rcases hclient with hclient | hclient <;> cases hclient

/-- Nothing is in flight between the HelloRetryRequest and the second ClientHello. -/
theorem Stage.of_retrying (h : Stage C .retrying s toServer toClient) :
    s = .waitSecondHello ∧ toServer = [] ∧ toClient = [] := by
  cases h with
  | retrying => exact ⟨rfl, rfl, rfl⟩
  | answered hclient => rcases hclient with hclient | hclient <;> cases hclient
  | settled hclient => rcases hclient with hclient | hclient <;> cases hclient

/-- The server answers the first ClientHello with nothing in flight. -/
theorem Stage.of_answering (h : Stage C c .answering toServer toClient) :
    c = .sentHello ∧ toServer = [] ∧ toClient = [] := by
  cases h with
  | answering => exact ⟨rfl, rfl, rfl⟩
  | answered _ hserver => rcases hserver with hserver | hserver <;> cases hserver
  | settled _ hserver => rcases hserver with hserver | hserver <;> cases hserver

/-- And the second. -/
theorem Stage.of_answeringSecond (h : Stage C c .answeringSecond toServer toClient) :
    c = .sentSecondHello ∧ toServer = [] ∧ toClient = [] := by
  cases h with
  | answeringSecond => exact ⟨rfl, rfl, rfl⟩
  | answered _ hserver => rcases hserver with hserver | hserver <;> cases hserver
  | settled _ hserver => rcases hserver with hserver | hserver <;> cases hserver

/-- The server goes on once its ServerHello is sent, whatever the client has read of it. -/
theorem Stage.serverFinishes (h : Stage C c .sentHello toServer toClient) :
    Stage C c .negotiated toServer toClient := by
  cases h with
  | answered hclient => exact .answered hclient (.inr rfl)
  | settled hclient => exact .settled hclient (.inr rfl)

/-- The client finishes with the EncryptedExtensions, which say nothing under no keys. -/
theorem Stage.clientFinishes (h : Stage C .waitExtensions s toServer toClient) :
    Stage C .negotiated s toServer toClient := by
  cases h with
  | answered hclient => rcases hclient with hclient | hclient <;> cases hclient
  | settled _ hserver => exact .settled (.inr rfl) hserver

/-- A record under no keys in flight to the server is a ClientHello that the server waits for, and
is alone. -/
theorem Stage.of_toServer (h : Stage C c s (m :: toServer) toClient) :
    toServer = [] ∧ toClient = [] ∧ m.2 = .clientHello C.offer
      ∧ (c = .sentHello ∧ s = .waitHello ∧ m.1 = .hello
        ∨ c = .sentSecondHello ∧ s = .waitSecondHello ∧ m.1 = .retry) := by
  cases h with
  | hello => exact ⟨rfl, rfl, rfl, .inl ⟨rfl, rfl, rfl⟩⟩
  | secondHello => exact ⟨rfl, rfl, rfl, .inr ⟨rfl, rfl, rfl⟩⟩

/-- One in flight to the client is a HelloRetryRequest or a ServerHello that the client waits for,
and is alone. -/
theorem Stage.of_toClient (h : Stage C c s toServer (m :: toClient)) :
    toServer = [] ∧ toClient = []
      ∧ (c = .sentHello ∧ s = .waitSecondHello ∧ m.2 = .helloRetryRequest
        ∨ (c = .sentHello ∨ c = .sentSecondHello) ∧ (s = .sentHello ∨ s = .negotiated)
          ∧ m.2 = .serverHello C.helloAnswer) := by
  cases h with
  | retry => exact ⟨rfl, rfl, .inl ⟨rfl, rfl, rfl⟩⟩
  | answered hclient hserver => exact ⟨rfl, rfl, .inr ⟨hclient, hserver, rfl⟩⟩

/-- A client past the ServerHello has a server that sent it. -/
theorem Stage.of_answered (h : Stage C c s toServer toClient)
    (hclient : c = .waitExtensions ∨ c = .negotiated) :
    toClient = [] ∧ (s = .sentHello ∨ s = .negotiated) := by
  cases h with
  | settled _ hserver => exact ⟨rfl, hserver⟩
  | answered hclient' => rcases hclient' with rfl | rfl <;> rcases hclient with hclient | hclient <;> cases hclient
  | _ => rcases hclient with hclient | hclient <;> cases hclient

/-- No ClientHello is in flight to a server that is done. -/
theorem Stage.of_negotiated (h : Stage C c .negotiated toServer toClient) : toServer = [] := by
  cases h with
  | answered => rfl
  | settled => rfl

/-- A client says nothing under no keys but its offer. -/
theorem Stage.message_toServer (h : Stage C c s toServer toClient) (hm : m ∈ toServer) :
    m.2 = .clientHello C.offer := by
  cases h with
  | hello => rw [List.mem_singleton.mp hm]
  | secondHello => rw [List.mem_singleton.mp hm]
  | _ => cases hm

/-- A server says nothing under no keys but its retry request and its answer. -/
theorem Stage.message_toClient (h : Stage C c s toServer toClient) (hm : m ∈ toClient) :
    m.2 = .helloRetryRequest ∨ m.2 = .serverHello C.helloAnswer := by
  cases h with
  | retry => exact .inl (by rw [List.mem_singleton.mp hm])
  | answered => exact .inr (by rw [List.mem_singleton.mp hm])
  | _ => cases hm

end Stages

/-! ### The invariant -/

/-- The keys of what is in flight to the server, and of what will be. -/
def World.pipeline (w : World) : List Epoch := w.toServer.map (·.epoch) ++ [w.client.writeEpoch]

/-- The invariant of the two peers. -/
structure Agreed (C : Config) (w : World) : Prop where
  client : ClientOk C w.client
  server : ServerOk C w.server w.earlyDataAccepted
  stage : Stage C w.client.phase w.server.phase (plain w.toServer) (plain w.toClient)
  toServer : ∀ r ∈ w.toServer, Sized C C.toServerLimit r ∧ (r.epoch.level ≠ .initial → r.message = .other)
  toClient : ∀ r ∈ w.toClient, Sized C C.toClientLimit r ∧ (r.epoch.level ≠ .initial → r.epoch.limited = true
    ∧ (r.message = .other ∨ ∃ accepted, r.message = .encryptedExtensions C.answer accepted))
  order : w.pipeline.Pairwise fun e e' => e.rank ≤ e'.rank
  early : .earlyData ∈ w.pipeline → C.offersEarlyData = true ∧ (w.server.phase = .waitHello
    ∨ w.server.ssl.skipEarlyData = true ∨ w.earlyDataAccepted = true)

section Both

variable {C : Config} {w w' : World} {inLen : Nat} {r : SealedRecord}

/-- Before the first ClientHello there is nothing to disagree on. -/
theorem Agreed.initial (C : Config) : Agreed C (World.initial C) where
  client := .initial C
  server := .initial C
  stage := .start
  toServer r hr := by cases hr
  toClient r hr := by cases hr
  order := List.pairwise_singleton _ _
  early h := by cases List.mem_singleton.mp h

/-- The keys of the pipeline are those of a record in flight, or the client's own. -/
theorem World.mem_pipeline {e : Epoch} :
    e ∈ w.pipeline ↔ (∃ r ∈ w.toServer, r.epoch = e) ∨ e = w.client.writeEpoch := by
  simp [World.pipeline]

/-- The client sends a record, and maybe goes on to later keys. -/
theorem Agreed.clientSends (h : Agreed C w) {client : Side ClientPhase} (hclient : ClientOk C client)
    (hr : r.epoch = w.client.writeEpoch) (hsized : Sized C C.toServerLimit r)
    (hother : r.epoch.level ≠ .initial → r.message = .other)
    (hstage : Stage C client.phase w.server.phase (plain w.toServer ++ plain [r]) (plain w.toClient))
    (hrank : w.client.writeEpoch.rank ≤ client.writeEpoch.rank)
    (hearly : client.writeEpoch = .earlyData → client.writeEpoch = w.client.writeEpoch
      ∨ C.offersEarlyData = true ∧ w.server.phase = .waitHello) :
    Agreed C { w with client, toServer := w.toServer ++ [r] } where
  client := hclient
  server := h.server
  stage := by
    dsimp only
    rwa [plain_append]
  toServer r' hr' := by
    rcases List.mem_append.mp hr' with hr' | hr'
    · exact h.toServer r' hr'
    · rw [List.mem_singleton.mp hr']
      exact ⟨hsized, hother⟩
  toClient := h.toClient
  order := by
    have horder := h.order
    unfold World.pipeline at horder ⊢
    dsimp only
    rw [List.map_append, List.map_singleton, hr, List.pairwise_append]
    refine ⟨horder, List.pairwise_singleton _ _, ?_⟩
    intro e he e' he'
    rw [List.mem_singleton.mp he']
    rcases List.mem_append.mp he with he | he
    · exact Nat.le_trans ((List.pairwise_append.mp horder).2.2 e he _ (List.mem_singleton_self _)) hrank
    · rwa [List.mem_singleton.mp he]
  early he := by
    have hold : .earlyData ∈ w.pipeline → C.offersEarlyData = true ∧ (w.server.phase = .waitHello
        ∨ w.server.ssl.skipEarlyData = true ∨ w.earlyDataAccepted = true) := h.early
    rcases World.mem_pipeline.mp he with ⟨r', hr', he⟩ | he
    · refine hold (World.mem_pipeline.mpr ?_)
      rcases List.mem_append.mp hr' with hr' | hr'
      · exact .inl ⟨r', hr', he⟩
      · rw [List.mem_singleton.mp hr', hr] at he
        exact .inr he.symm
    · rcases hearly he.symm with heq | ⟨hoffers, hwaiting⟩
      · exact hold (World.mem_pipeline.mpr (.inr (he.trans heq)))
      · exact ⟨hoffers, .inl hwaiting⟩

/-- The client reads what is in flight, and maybe goes on to later keys. -/
theorem Agreed.clientMoves (h : Agreed C w) {client : Side ClientPhase} {toClient : List SealedRecord}
    (hclient : ClientOk C client) (hrest : toClient ⊆ w.toClient)
    (hstage : Stage C client.phase w.server.phase (plain w.toServer) (plain toClient))
    (hrank : w.client.writeEpoch.rank ≤ client.writeEpoch.rank)
    (hearly : client.writeEpoch = .earlyData → client.writeEpoch = w.client.writeEpoch) :
    Agreed C { w with client, toClient } where
  client := hclient
  server := h.server
  stage := hstage
  toServer := h.toServer
  toClient r' hr' := h.toClient r' (hrest hr')
  order := by
    obtain ⟨hpast, -, hnow⟩ := List.pairwise_append.mp h.order
    refine List.pairwise_append.mpr ⟨hpast, List.pairwise_singleton _ _, ?_⟩
    intro e he e' he'
    rw [List.mem_singleton.mp he']
    exact Nat.le_trans (hnow e he _ (List.mem_singleton_self _)) hrank
  early he := by
    refine h.early (World.mem_pipeline.mpr ?_)
    rcases World.mem_pipeline.mp he with hr' | he
    · exact .inl hr'
    · exact .inr (he.trans (hearly he.symm))

/-- The server sends records, or goes on to later keys. -/
theorem Agreed.serverMoves (h : Agreed C w) {server : Side ServerPhase} {more : List SealedRecord}
    (hserver : ServerOk C server w.earlyDataAccepted)
    (hmore : ∀ r ∈ more, Sized C C.toClientLimit r ∧ (r.epoch.level ≠ .initial → r.epoch.limited = true
      ∧ (r.message = .other ∨ ∃ accepted, r.message = .encryptedExtensions C.answer accepted)))
    (hstage : Stage C w.client.phase server.phase (plain w.toServer) (plain w.toClient ++ plain more))
    (hphase : w.server.phase ≠ .waitHello)
    (hskip : server.ssl.skipEarlyData = w.server.ssl.skipEarlyData) :
    Agreed C { w with server, toClient := w.toClient ++ more } where
  client := h.client
  server := hserver
  stage := by
    dsimp only
    rwa [plain_append]
  toServer := h.toServer
  toClient r' hr' := (List.mem_append.mp hr').elim (h.toClient r') (hmore r')
  order := h.order
  early he := by
    obtain ⟨hoffers, hskips⟩ := h.early he
    refine ⟨hoffers, .inr ?_⟩
    dsimp only
    rw [hskip]
    exact hskips.resolve_left hphase

/-- The server reads what is in flight. -/
theorem Agreed.serverReads (h : Agreed C w) {server : Side ServerPhase} {accepted : Bool}
    {rest : List SealedRecord} (hw : w.toServer = r :: rest) (hserver : ServerOk C server accepted)
    (hstage : Stage C w.client.phase server.phase (plain rest) (plain w.toClient))
    (hearly : C.offersEarlyData = true → .earlyData ∈ World.pipeline { w with toServer := rest } →
      server.phase = .waitHello ∨ server.ssl.skipEarlyData = true ∨ accepted = true) :
    Agreed C { w with server, earlyDataAccepted := accepted, toServer := rest } where
  client := h.client
  server := hserver
  stage := hstage
  toServer r' hr' := h.toServer r' (hw ▸ List.mem_cons_of_mem _ hr')
  toClient := h.toClient
  order := by
    have horder := h.order
    unfold World.pipeline at horder ⊢
    rw [hw] at horder
    exact (List.pairwise_cons.mp horder).2
  early he := by
    have hbefore : .earlyData ∈ w.pipeline := by
      unfold World.pipeline at he ⊢
      rw [hw]
      exact List.mem_cons_of_mem _ he
    exact ⟨(h.early hbefore).1, hearly (h.early hbefore).1 he⟩

/-! ### Steps -/

/-- The keys without a limit all come before those with one. -/
theorem Epoch.rank_le_of_unlimited {e : Epoch} (h : e.limited = false) : e.rank ≤ 2 := by
  cases e <;> first | decide | cases h

/-- And those with a limit after them. -/
theorem Epoch.le_rank_of_limited {e : Epoch} (h : e.limited = true) : 3 ≤ e.rank := by
  cases e with
  | handshake => decide
  | application n => exact Nat.le_add_right_of_le (by decide)
  | _ => cases h

/-- New keys always have a limit. -/
theorem Epoch.next_limited {e : Epoch} : (e.next (.application 0)).limited = true := by
  cases e <;> rfl

/-- New keys come later than the old. -/
theorem Epoch.rank_le_next {e : Epoch} : e.rank ≤ (e.next (.application 0)).rank := by
  cases e with
  | application n => exact Nat.le_succ (4 + n)
  | _ => decide

/-- The first ClientHello, or the second after a HelloRetryRequest. -/
theorem Agreed.sendClientHello (h : Agreed C w) (hstep : w.step C (.sendClientHello inLen) = some w') :
    Agreed C w' := by
  have hstage := h.stage
  simp only [World.step] at hstep
  split at hstep
  · rename_i hphase
    obtain ⟨⟨client, r⟩, hsend, rfl⟩ := Option.map_eq_some_iff.mp hstep
    rw [hphase] at hstage
    obtain ⟨hserver, htoServer, htoClient⟩ := hstage.of_start
    obtain ⟨hclient, hsent, hepoch, hr, hmessage, hsized⟩ := h.client.sendHello hphase hsend
    have hold := h.client.start hphase
    refine h.clientSends hclient (hr.trans hold.symm) hsized (fun hkeys => ?_) ?_ ?_ ?_
    · rw [hr] at hkeys
      exact absurd rfl hkeys
    · rw [plain_of_initial (by rw [hr]; rfl), hsent, hserver, htoServer, htoClient, hr, hmessage]
      exact .hello
    · rw [hold]
      exact Nat.zero_le _
    · intro hearly
      rcases hepoch with hepoch | ⟨-, hoffers⟩
      · cases hepoch.symm.trans hearly
      · exact .inr ⟨hoffers, hserver⟩
  · obtain ⟨hphase, hstep⟩ := Option.ite_none_right_eq_some.mp hstep
    obtain ⟨⟨client, r⟩, hsend, rfl⟩ := Option.map_eq_some_iff.mp hstep
    rw [hphase] at hstage
    obtain ⟨hserver, htoServer, htoClient⟩ := hstage.of_retrying
    obtain ⟨hclient, rfl, hr, hmessage, hsized⟩ := h.client.sendSecondHello hphase hsend
    have hold := h.client.retry (.inl hphase)
    refine h.clientSends hclient (hr.trans hold.symm) hsized (fun hkeys => ?_) ?_ (Nat.le_refl _)
      fun _ => .inl rfl
    · rw [hr] at hkeys
      exact absurd rfl hkeys
    · rw [plain_of_initial (by rw [hr]; rfl), hserver, htoServer, htoClient, hr, hmessage]
      exact .secondHello

/-- The server asks for a second ClientHello. -/
theorem Agreed.sendHelloRetryRequest (h : Agreed C w)
    (hstep : w.step C (.sendHelloRetryRequest inLen) = some w') : Agreed C w' := by
  have hstage := h.stage
  simp only [World.step] at hstep
  obtain ⟨⟨hphase, -, -⟩, hstep⟩ := Option.ite_none_right_eq_some.mp hstep
  obtain ⟨r, hseal, rfl⟩ := Option.map_eq_some_iff.mp hstep
  have hne : w.server.phase ≠ .waitHello := by rw [hphase]; decide
  have hwrite : w.server.writeEpoch = .hello := by
    have hwrite := h.server.write
    rw [hphase, if_neg (by decide)] at hwrite
    exact hwrite.resolve_left (by decide)
  rw [hphase] at hstage
  obtain ⟨hclient, htoServer, htoClient⟩ := hstage.of_answering
  obtain ⟨hr, hmessage, hsized⟩ := h.server.sealRecord hseal
  rw [hwrite] at hr
  refine h.serverMoves (h.server.sendRetry hphase) (fun r' hr' => ?_) ?_ hne rfl
  · rw [List.mem_singleton.mp hr']
    exact ⟨hsized, fun hkeys => absurd (by rw [hr]; rfl) hkeys⟩
  · rw [plain_of_initial (by rw [hr]; rfl), hclient, htoServer, htoClient, hr, hmessage]
    exact .retry

/-- In TLS 1.3 handshake keys follow the ServerHello; before it the answer is in it, and the
negotiation is over. -/
theorem Agreed.sendServerHello (h : Agreed C w)
    (hstep : w.step C (.sendServerHello inLen) = some w') : Agreed C w' := by
  have hstage := h.stage
  simp only [World.step] at hstep
  obtain ⟨hphase, hstep⟩ := Option.ite_none_right_eq_some.mp hstep
  have hne : w.server.phase ≠ .waitHello := by rcases hphase with hphase | hphase <;> rw [hphase] <;> decide
  have hwrite : w.server.writeEpoch = .hello := by
    have hwrite := h.server.write
    rcases hphase with hphase | hphase <;> rw [hphase, if_neg (by decide)] at hwrite <;>
      exact hwrite.resolve_left (by decide)
  have hstage : (w.client.phase = .sentHello ∨ w.client.phase = .sentSecondHello)
      ∧ plain w.toServer = [] ∧ plain w.toClient = [] := by
    rcases hphase with hphase | hphase
    · rw [hphase] at hstage
      exact hstage.of_answering.imp_left .inl
    · rw [hphase] at hstage
      exact hstage.of_answeringSecond.imp_left .inr
  obtain ⟨hclient, htoServer, htoClient⟩ := hstage
  split at hstep
  · rename_i htls13
    obtain ⟨r, hseal, rfl⟩ := Option.map_eq_some_iff.mp hstep
    obtain ⟨hr, hmessage, hsized⟩ := h.server.sealRecord hseal
    rw [hwrite] at hr
    refine h.serverMoves (h.server.sendServerHello hphase) (fun r' hr' => ?_) ?_ hne rfl
    · rw [List.mem_singleton.mp hr']
      exact ⟨hsized, fun hkeys => absurd (by rw [hr]; rfl) hkeys⟩
    · rw [plain_of_initial (by rw [hr]; rfl), htoServer, htoClient, hr, hmessage,
        ← Config.helloAnswer_tls13 htls13]
      exact .answered hclient (.inl rfl)
  · rename_i htls12
    obtain ⟨r, hseal, rfl⟩ := Option.map_eq_some_iff.mp hstep
    obtain ⟨hr, hmessage, hsized⟩ := h.server.sealRecord hseal
    rw [hwrite] at hr
    refine h.serverMoves (h.server.setPhase (.inr ⟨hne, rfl⟩)) (fun r' hr' => ?_) ?_ hne rfl
    · rw [List.mem_singleton.mp hr']
      exact ⟨hsized, fun hkeys => absurd (by rw [hr]; rfl) hkeys⟩
    · rw [plain_of_initial (by rw [hr]; rfl), htoServer, htoClient, hr, hmessage,
        h.server.addServerhello hne, ← Config.helloAnswer_tls12 htls12]
      exact .answered hclient (.inr rfl)

/-- The answer in TLS 1.3, sent under the first keys with a limit. -/
theorem Agreed.sendEncryptedExtensions (h : Agreed C w)
    (hstep : w.step C (.sendEncryptedExtensions inLen) = some w') : Agreed C w' := by
  have hstage := h.stage
  simp only [World.step] at hstep
  obtain ⟨hphase, hstep⟩ := Option.ite_none_right_eq_some.mp hstep
  obtain ⟨r, hseal, rfl⟩ := Option.map_eq_some_iff.mp hstep
  have hne : w.server.phase ≠ .waitHello := by rw [hphase]; decide
  have hwrite := h.server.write
  rw [if_pos hphase] at hwrite
  obtain ⟨hr, hmessage, hsized⟩ := h.server.sealRecord hseal
  rw [hwrite] at hr
  rw [h.server.addServerhello hne] at hmessage
  refine h.serverMoves (h.server.setPhase (.inr ⟨hne, rfl⟩)) (fun r' hr' => ?_) ?_ hne rfl
  · rw [List.mem_singleton.mp hr']
    exact ⟨hsized, fun _ => ⟨by rw [hr]; rfl, .inr ⟨_, hmessage⟩⟩⟩
  · rw [plain_of_keys (by rw [hr]; decide), List.append_nil]
    rw [hphase] at hstage
    exact hstage.serverFinishes

/-- Under handshake keys that it has no limit for yet a client sends only alerts. -/
theorem Agreed.clientSendsOther (h : Agreed C w) (hstep : w.step C (.clientSends inLen) = some w') :
    Agreed C w' := by
  simp only [World.step] at hstep
  obtain ⟨⟨hnull, halert⟩, hstep⟩ := Option.ite_none_right_eq_some.mp hstep
  obtain ⟨r, hseal, rfl⟩ := Option.map_eq_some_iff.mp hstep
  obtain ⟨hr, hmessage, hsized⟩ := h.client.sealRecord hseal halert
  have hkeys : r.epoch.level ≠ .initial := by
    rw [hr]
    exact of_decide_eq_false (h.client.holds.writeNull.symm.trans hnull)
  refine h.clientSends h.client hr hsized (fun _ => hmessage) ?_ (Nat.le_refl _) fun _ => .inl rfl
  rw [plain_of_keys hkeys, List.append_nil]
  exact h.stage

/-- What else a server sends, it sends under keys with a limit. -/
theorem Agreed.serverSendsOther (h : Agreed C w) (hstep : w.step C (.serverSends inLen) = some w') :
    Agreed C w' := by
  simp only [World.step] at hstep
  obtain ⟨hnull, hstep⟩ := Option.ite_none_right_eq_some.mp hstep
  obtain ⟨r, hseal, rfl⟩ := Option.map_eq_some_iff.mp hstep
  obtain ⟨hr, hmessage, hsized⟩ := h.server.sealRecord hseal
  have hkeys : w.server.writeEpoch.level ≠ .initial :=
    of_decide_eq_false (h.server.holds.writeNull.symm.trans hnull)
  have hlimited : w.server.writeEpoch.limited = true :=
    (w.server.writeEpoch.kinds.resolve_left hkeys).resolve_left h.server.neverEarly
  refine h.serverMoves h.server (fun r' hr' => ?_) ?_ (h.server.writeEpoch_limited hlimited) rfl
  · rw [List.mem_singleton.mp hr']
    exact ⟨hsized, fun _ => ⟨hr ▸ hlimited, .inl hmessage⟩⟩
  · rw [plain_of_keys (hr ▸ hkeys), List.append_nil]
    exact h.stage

/-- A record is passed over only under other keys, while the server skips 0-RTT. -/
theorem openRecord_discarded {Phase : Type} {side : Side Phase}
    (hdiscarded : side.openRecord C r = .discarded) :
    r.epoch ≠ side.readEpoch ∧ side.ssl.skipEarlyData = true := by
  unfold Side.openRecord at hdiscarded
  split at hdiscarded
  · cases hdiscarded
  · dsimp only at hdiscarded
    split at hdiscarded
    · split at hdiscarded <;> cases hdiscarded
    · rename_i hepoch
      split at hdiscarded
      · exact ⟨hepoch, ‹_›⟩
      · cases hdiscarded

/-- What the client makes of a record that it opens. -/
theorem Agreed.clientReceives (h : Agreed C w) {rest : List SealedRecord} {client client' : Side ClientPhase}
    (hw : w.toClient = r :: rest) (hopened : w.client.openRecord C r = .opened client)
    (hreceive : clientReceive C client r.message = some client') :
    Agreed C { w with client := client', toClient := rest } := by
  have hstage := h.stage
  obtain ⟨hsized, hsealed⟩ := h.toClient r (by rw [hw]; exact List.mem_cons_self)
  obtain ⟨hclient, hepoch, hphase, hread, hwrite⟩ := h.client.opened hopened hsized
  have hrest : rest ⊆ w.toClient := by
    rw [hw]
    exact List.subset_cons_self _ _
  rw [hw, plain_cons, ← hphase] at hstage
  -- In the clear there are only the server's hellos, and the stage says which one is due.
  by_cases hinitial : r.epoch.level = .initial
  · rw [plain_of_initial hinitial, List.singleton_append] at hstage
    obtain ⟨htoServer, hnone, hmessages⟩ := hstage.of_toClient
    rcases hmessages with ⟨hsent, hserver, hmessage⟩ | ⟨hsent, hserver, hmessage⟩
    · have hmessage : r.message = .helloRetryRequest := hmessage
      rw [hmessage] at hreceive
      obtain ⟨-, hretry⟩ := Option.ite_none_right_eq_some.mp hreceive
      obtain rfl := Option.some.inj hretry
      obtain ⟨hclient', hphase', hepoch'⟩ := hclient.clientRetry hsent
      have hunlimited := (hclient.unlimited (ClientPhase.of_sent (.inl hsent)).2).2
      refine h.clientMoves hclient' hrest ?_ ?_ fun hearly => by cases hepoch'.symm.trans hearly
      · rw [hphase', hserver, htoServer, hnone]
        exact .retrying
      · rw [hepoch', ← hwrite]
        exact Epoch.rank_le_of_unlimited hunlimited
    · have hmessage : r.message = .serverHello C.helloAnswer := hmessage
      rw [hmessage] at hreceive
      obtain ⟨-, hserverHello⟩ := Option.ite_none_right_eq_some.mp hreceive
      by_cases htls13 : tls13Version ≤ C.version
      · obtain ⟨hclient', hphase', hepoch'⟩ := hclient.waitExtensions hsent htls13 hserverHello
        have hunlimited := (hclient.unlimited (ClientPhase.of_sent hsent).2).2
        refine h.clientMoves hclient' hrest ?_ ?_ ?_
        · rw [hphase', htoServer, hnone]
          exact .settled (.inl rfl) hserver
        · rw [← hwrite]
          rcases hepoch' with hepoch' | hepoch'
          · exact Nat.le_of_eq (congrArg Epoch.rank hepoch'.symm)
          · rw [hepoch']
            exact Nat.le_succ_of_le (Epoch.rank_le_of_unlimited hunlimited)
        · intro hearly
          rcases hepoch' with hepoch' | hepoch'
          · exact hepoch'.trans hwrite
          · cases hepoch'.symm.trans hearly
      · rw [Config.helloAnswer_tls12 htls13] at hserverHello
        obtain ⟨hclient', hphase', hepoch'⟩ := hclient.hearAnswer hsent htls13 hserverHello
        refine h.clientMoves hclient' hrest ?_ ?_ fun _ => hepoch'.trans hwrite
        · rw [hphase', htoServer, hnone]
          exact .settled (.inr rfl) hserver
        · exact Nat.le_of_eq (congrArg Epoch.rank (hepoch'.trans hwrite).symm)
  -- Under keys there is data, or EncryptedExtensions.
  · rw [plain_of_keys hinitial, List.nil_append] at hstage
    obtain ⟨hlimited, hmessage | ⟨accepted, hmessage⟩⟩ := hsealed hinitial
    · rw [hmessage] at hreceive
      cases hreceive
      exact h.clientMoves hclient hrest hstage (Nat.le_of_eq (by rw [hwrite])) fun _ => hwrite
    · rw [hmessage] at hreceive
      obtain ⟨hwaiting, hextensions⟩ := Option.ite_none_right_eq_some.mp hreceive
      obtain ⟨hclient', hnegotiated, hepoch'⟩ := hclient.clientExtensions hwaiting hextensions
      have hbefore := (hclient.waiting hwaiting).2.2
      rw [hwaiting] at hstage
      refine h.clientMoves hclient' hrest (hnegotiated ▸ hstage.clientFinishes) ?_ ?_
      · rw [← hwrite]
        rcases hepoch' with hepoch' | hepoch'
        · exact Nat.le_of_eq (congrArg Epoch.rank hepoch'.symm)
        · rw [hepoch']
          rcases hbefore with hbefore | hbefore
          · exact Nat.le_of_eq (congrArg Epoch.rank hbefore)
          · rw [hbefore]
            decide
      · intro hearly
        rcases hepoch' with hepoch' | hepoch'
        · exact hepoch'.trans hwrite
        · cases hepoch'.symm.trans hearly

/-- The client reads the next record in flight to it. -/
theorem Agreed.clientReads (h : Agreed C w) (hstep : w.step C .clientReads = some w') : Agreed C w' := by
  simp only [World.step] at hstep
  split at hstep
  · cases hstep
  · rename_i r rest hw
    split at hstep
    · rename_i client hopened
      obtain ⟨client', hreceive, rfl⟩ := Option.map_eq_some_iff.mp hstep
      exact h.clientReceives hw hopened hreceive
    · rename_i hdiscarded
      cases h.client.decrypts.symm.trans (openRecord_discarded hdiscarded).2
    · cases hstep
    · cases hstep

/-- What the server opens has no 0-RTT behind it, unless that is read too. -/
theorem Agreed.opens_last (h : Agreed C w) {rest : List SealedRecord} (hw : w.toServer = r :: rest)
    (hrank : Epoch.rank .earlyData < r.epoch.rank) : .earlyData ∉ World.pipeline { w with toServer := rest } := by
  intro hearly
  have horder := h.order
  unfold World.pipeline at horder hearly
  rw [hw] at horder
  exact Nat.not_lt.mpr ((List.pairwise_cons.mp horder).1 _ hearly) hrank

/-- What the server makes of a record that it opens. -/
theorem Agreed.serverReceives (hvalid : C.Valid) (h : Agreed C w) {rest : List SealedRecord}
    {server server' : Side ServerPhase} {wanted accepted : Bool} (hw : w.toServer = r :: rest)
    (hopened : w.server.openRecord C r = .opened server)
    (hreceive : w.serverReceive C server wanted r.message = some (server', accepted)) :
    Agreed C { w with server := server', earlyDataAccepted := accepted, toServer := rest } := by
  have hstage := h.stage
  obtain ⟨hsized, hsealed⟩ := h.toServer r (by rw [hw]; exact List.mem_cons_self)
  obtain ⟨hserver, hepoch, hphase⟩ := h.server.opened hopened
  rw [hw, plain_cons, ← hphase] at hstage
  by_cases hinitial : r.epoch.level = .initial
  · rw [plain_of_initial hinitial, List.singleton_append] at hstage
    obtain ⟨hnone, htoClient, hmessage, hphases⟩ := hstage.of_toServer
    have hmessage : r.message = .clientHello C.offer := hmessage
    rw [hmessage] at hreceive
    unfold World.serverReceive at hreceive
    dsimp only at hreceive
    rcases hphases with ⟨hclient, hwaits, -⟩ | ⟨hclient, hwaits, hretry⟩
    · rw [if_pos hwaits] at hreceive
      obtain ⟨hserver', hphase', hskips⟩ := hserver.serverHello hvalid hwaits hreceive
      refine h.serverReads hw hserver' ?_ fun hoffers _ => .inr (hskips hoffers)
      rw [hclient, hphase', hnone, htoClient]
      exact .answering
    · rw [if_neg (by rw [hwaits]; decide), if_pos hwaits] at hreceive
      obtain ⟨hpasses, hserver'⟩ := hserver.serverSecondHello hwaits
      rw [hpasses] at hreceive
      cases hreceive
      have hretry : r.epoch = .retry := hretry
      refine h.serverReads hw hserver' ?_ fun _ hearly => ?_
      · rw [hclient, hnone, htoClient]
        exact .answeringSecond
      · exact absurd hearly (h.opens_last hw (by rw [hretry]; decide))
  · rw [plain_of_keys hinitial, List.nil_append] at hstage
    rw [hsealed hinitial] at hreceive
    cases hreceive
    refine h.serverReads hw hserver hstage fun _ hearly => ?_
    rcases r.epoch.kinds with hlevel | hepoch' | hlimited
    · exact absurd hlevel hinitial
    · exact .inr (.inr (h.server.early (hepoch.symm.trans hepoch')))
    · refine absurd hearly (h.opens_last hw ?_)
      exact Nat.lt_of_lt_of_le (by decide) (Epoch.le_rank_of_limited hlimited)

/-- The server reads the next record, and skips 0-RTT that it did not accept. -/
theorem Agreed.serverReadsNext (hvalid : C.Valid) (h : Agreed C w) {wants : Bool}
    (hstep : w.step C (.serverReads wants) = some w') : Agreed C w' := by
  simp only [World.step] at hstep
  split at hstep
  · cases hstep
  · rename_i r rest hw
    split at hstep
    · rename_i server hopened
      obtain ⟨⟨server', accepted⟩, hreceive, rfl⟩ := Option.map_eq_some_iff.mp hstep
      exact h.serverReceives hvalid hw hopened hreceive
    · rename_i hdiscarded
      obtain ⟨hepoch, hskip⟩ := openRecord_discarded hdiscarded
      cases hstep
      have hstage := h.stage
      rw [hw, plain_cons] at hstage
      refine h.serverReads hw h.server ?_ fun _ _ => .inr (.inl hskip)
      by_cases hinitial : r.epoch.level = .initial
      · -- A ClientHello in flight is the one that the server waits for.
        rw [plain_of_initial hinitial, List.singleton_append] at hstage
        obtain ⟨-, -, -, ⟨-, hwaits, -⟩ | ⟨-, hwaits, hretry⟩⟩ := hstage.of_toServer
        · cases (h.server.waiting hwaits).2.1.symm.trans hskip
        · exact absurd (Eq.trans hretry (h.server.waitingSecond hwaits).symm) hepoch
      · rwa [plain_of_keys hinitial, List.nil_append] at hstage
    · cases hstep
    · cases hstep

/-- The client's write keys go on once it has read the answer; 0-RTT that was accepted ends there. -/
theorem Agreed.newClientWriteKeys (h : Agreed C w) (hstep : w.step C .newClientWriteKeys = some w') :
    Agreed C w' := by
  obtain ⟨⟨hphase, -⟩, hstep⟩ := Option.ite_none_right_eq_some.mp hstep
  cases hstep
  refine h.clientMoves (h.client.closeEarlyData (.inr ⟨hphase, Epoch.next_limited⟩)) (List.Subset.refl _)
    h.stage Epoch.rank_le_next fun hearly => ?_
  have hlimited := Epoch.next_limited (e := w.client.writeEpoch)
  rw [show w.client.writeEpoch.next (.application 0) = .earlyData from hearly] at hlimited
  cases hlimited

/-- And its read keys. -/
theorem Agreed.newClientReadKeys (h : Agreed C w) (hstep : w.step C .newClientReadKeys = some w') :
    Agreed C w' := by
  obtain ⟨⟨hphase, -⟩, hstep⟩ := Option.ite_none_right_eq_some.mp hstep
  cases hstep
  exact h.clientMoves (h.client.installRead Epoch.next_limited (.inr hphase)) (List.Subset.refl _) h.stage
    (Nat.le_refl _) fun _ => rfl

/-- The server changes nothing that is in flight. -/
theorem Agreed.serverChanges (h : Agreed C w) {server : Side ServerPhase}
    (hserver : ServerOk C server w.earlyDataAccepted) (hsame : server.phase = w.server.phase)
    (hphase : w.server.phase ≠ .waitHello)
    (hskip : server.ssl.skipEarlyData = w.server.ssl.skipEarlyData) : Agreed C { w with server } := by
  have hstage : Stage C w.client.phase server.phase (plain w.toServer) (plain w.toClient ++ plain []) := by
    rw [hsame, show plain [] = [] from rfl, List.append_nil]
    exact h.stage
  have hmoves := h.serverMoves hserver (fun r hr => by cases hr) hstage hphase hskip
  rwa [List.append_nil] at hmoves

/-- The server's write keys go on once its answer is sent. -/
theorem Agreed.newServerWriteKeys (h : Agreed C w) (hstep : w.step C .newServerWriteKeys = some w') :
    Agreed C w' := by
  obtain ⟨⟨hphase, -⟩, hstep⟩ := Option.ite_none_right_eq_some.mp hstep
  cases hstep
  exact h.serverChanges (h.server.installWrite hphase Epoch.next_limited) rfl (by rw [hphase]; decide) rfl

/-- And its read keys, which are of 0-RTT first where it was accepted. -/
theorem Agreed.newServerReadKeys (h : Agreed C w) (hstep : w.step C .newServerReadKeys = some w') :
    Agreed C w' := by
  obtain ⟨⟨hphase, -⟩, hstep⟩ := Option.ite_none_right_eq_some.mp hstep
  cases hstep
  have hfirst : (w.firstServerReadKeys C).level ≠ .initial
      ∧ (w.firstServerReadKeys C = .earlyData → w.earlyDataAccepted = true) := by
    unfold World.firstServerReadKeys
    split
    · exact ⟨by decide, fun hearly => by cases hearly⟩
    · split
      · exact ⟨by decide, fun _ => ‹_›⟩
      · exact ⟨by decide, fun hearly => by cases hearly⟩
  have hnext : (w.server.readEpoch.next (w.firstServerReadKeys C)).level ≠ .initial
      ∧ (w.server.readEpoch.next (w.firstServerReadKeys C) = .earlyData → w.earlyDataAccepted = true) := by
    cases w.server.readEpoch with
    | hello => exact hfirst
    | retry => exact hfirst
    | earlyData | handshake | application =>
      exact ⟨fun hlevel => (by cases hlevel), fun hearly => (by cases hearly)⟩
  exact h.serverChanges (h.server.installRead hphase hnext.1 hnext.2) rfl (by rw [hphase]; decide) rfl

/-- **Every step keeps the agreement.** -/
theorem Agreed.step (hvalid : C.Valid) (h : Agreed C w) {a : Action} (hstep : w.step C a = some w') :
    Agreed C w' := by
  cases a with
  | sendClientHello => exact h.sendClientHello hstep
  | sendHelloRetryRequest => exact h.sendHelloRetryRequest hstep
  | sendServerHello => exact h.sendServerHello hstep
  | sendEncryptedExtensions => exact h.sendEncryptedExtensions hstep
  | clientSends => exact h.clientSendsOther hstep
  | serverSends => exact h.serverSendsOther hstep
  | clientReads => exact h.clientReads hstep
  | serverReads => exact h.serverReadsNext hvalid hstep
  | newClientWriteKeys => exact h.newClientWriteKeys hstep
  | newClientReadKeys => exact h.newClientReadKeys hstep
  | newServerWriteKeys => exact h.newServerWriteKeys hstep
  | newServerReadKeys => exact h.newServerReadKeys hstep

/-- Every reachable state keeps to the agreement. -/
theorem agreed_of_reached (hvalid : C.Valid) (h : World.Reached C w) : Agreed C w :=
  h.invariant (fun _ hinitial => by cases hinitial; exact .initial C) fun _ _ _ h hstep => h.step hvalid hstep

/-! ### What is agreed -/

/-- A write limit that a read limit covers; `0` is none. -/
def Within (writes reads : Nat) : Prop := reads = 0 ∨ writes ≠ 0 ∧ writes ≤ reads

/-- A limit covers itself. -/
theorem Within.refl (limit : Nat) : Within limit limit := by
  by_cases hzero : limit = 0
  · exact .inl hzero
  · exact .inr ⟨hzero, Nat.le_refl _⟩

/-- The agreed limit is one that the version allows, in this direction. -/
theorem Config.toServerLimit_le (C : Config) : C.toServerLimit ≤ recordSizeLimitMaxForVersion C.version := by
  unfold Config.toServerLimit
  split
  · exact (recordSizeLimitForVersion_bounds _ _).2
  · exact Nat.zero_le _

/-- And in the other. -/
theorem Config.toClientLimit_le (C : Config) : C.toClientLimit ≤ recordSizeLimitMaxForVersion C.version := by
  unfold Config.toClientLimit
  split
  · exact (recordSizeLimitForVersion_bounds _ _).2
  · exact Nat.zero_le _

/-- The limit of what the server writes under some keys covers what the client reads under them. -/
theorem Agreed.toClient_within (h : Agreed C w) (h' : Agreed C w')
    (hepoch : w.server.writeEpoch = w'.client.readEpoch) :
    Within w.server.ssl.writeRecordSizeLimit w'.client.ssl.readRecordSizeLimit := by
  rw [h.server.holds.write, h'.client.holds.read, ← hepoch]
  by_cases hlimited : w.server.writeEpoch.limited = true
  · rw [if_pos hlimited, if_pos hlimited, if_neg (h.server.writeEpoch_limited hlimited)]
    split
    · exact .refl _
    · exact .inl rfl
  · rw [if_neg hlimited, if_neg hlimited]
    exact .refl 0

/-- And the other way, but for the client's first handshake keys. -/
theorem Agreed.toServer_within (h : Agreed C w) (h' : Agreed C w')
    (hepoch : w.client.writeEpoch = w'.server.readEpoch)
    (hextensions : w.client.phase = .waitExtensions → w.client.writeEpoch ≠ .handshake) :
    Within w.client.ssl.writeRecordSizeLimit w'.server.ssl.readRecordSizeLimit := by
  rw [h.client.holds.write, h'.server.holds.read, ← hepoch]
  by_cases hlimited : w.client.writeEpoch.limited = true
  · have hread := h'.server.read (hepoch ▸ Epoch.level_initial_of_limited hlimited)
    have hne : w'.server.phase ≠ .waitHello := by rw [hread]; decide
    have hphase : w.client.phase ≠ .waitExtensions := by
      intro hphase
      have hearly := (h.client.waiting hphase).2.2.resolve_left (hextensions hphase)
      rw [hearly] at hlimited
      cases hlimited
    rw [if_pos hlimited, if_pos hlimited, if_pos ((h.client.write hlimited).resolve_left hphase), if_neg hne]
    exact .refl _
  · rw [if_neg hlimited, if_neg hlimited]
    exact .refl 0

/-- What keeps a limit keeps to none. -/
theorem Sized.mono {limit : Nat} (h : Sized C limit r) : Sized C 0 r where
  plain := h.plain
  early := h.early
  limited hlimited := by
    obtain ⟨n, hn, hlen, hlength, -⟩ := h.limited hlimited
    exact ⟨n, hn, hlen, hlength, .inl rfl⟩

/-- The client rejects nothing that is in flight to it. -/
theorem Agreed.client_accepts (hvalid : C.Valid) (h : Agreed C w) (hr : r ∈ w.toClient) (e : LimitError) :
    w.client.openRecord C r ≠ .rejected e := by
  obtain ⟨hsized, hsealed⟩ := h.toClient r hr
  have hneverEarly : r.epoch ≠ .earlyData := by
    intro hepoch
    have hlimited := (hsealed (by rw [hepoch]; decide)).1
    rw [hepoch] at hlimited
    cases hlimited
  refine openRecord_accepts hvalid h.client.holds ?_ ?_ (fun hlimited => h.client.version (h.client.read hlimited))
    (fun hepoch _ => absurd hepoch hneverEarly) (fun hlimited _ hinitial => ?_)
    (fun _ hepoch => absurd hepoch hneverEarly) e
  · split
    · exact hsized
    · exact hsized.mono
  · split
    · exact C.toClientLimit_le
    · exact Nat.zero_le _
  · have hnone := (h.stage.of_answered (h.client.read hlimited)).1
    have hmem := mem_plain hr hinitial
    rw [hnone] at hmem
    cases hmem

/-- Nor does the server. -/
theorem Agreed.server_accepts (hvalid : C.Valid) (h : Agreed C w) (hr : r ∈ w.toServer) (e : LimitError) :
    w.server.openRecord C r ≠ .rejected e := by
  obtain ⟨hsized, -⟩ := h.toServer r hr
  have hnegotiated : w.server.readEpoch.level ≠ .initial →
      w.server.phase = .negotiated ∧ w.server.phase ≠ .waitHello := by
    intro hkeys
    have hread := h.server.read hkeys
    exact ⟨hread, by rw [hread]; decide⟩
  refine openRecord_accepts hvalid h.server.holds ?_ ?_ (fun hlimited => ?_) (fun hearly hepoch => ?_)
    (fun hlimited _ hinitial => ?_) (fun hlimited hearly => ?_) e
  · split
    · exact hsized.mono
    · exact hsized
  · split
    · exact Nat.zero_le _
    · exact C.toServerLimit_le
  · exact (h.server.hello (hnegotiated (Epoch.level_initial_of_limited hlimited)).2).2.2
  · have hread : w.server.readEpoch = .earlyData := hepoch.symm.trans hearly
    rw [(h.server.hello (hnegotiated (by rw [hread]; decide)).2).2.2]
    exact (h.server.accepted (h.server.early hread)).1
  · have hnone := h.stage
    rw [(hnegotiated (Epoch.level_initial_of_limited hlimited)).1] at hnone
    have hmem := mem_plain hr hinitial
    rw [hnone.of_negotiated] at hmem
    cases hmem
  · -- What is in flight under the keys of 0-RTT is skipped, or was accepted and so has no limit.
    have hne := (hnegotiated (Epoch.level_initial_of_limited hlimited)).2
    rw [if_neg hne]
    rcases (h.early (World.mem_pipeline.mpr (.inl ⟨r, hr, hearly⟩))).2 with hwaits | hskip | haccepted
    · exact absurd hwaits hne
    · exact .inl hskip
    · obtain ⟨htls13, hnone | hmax⟩ := h.server.accepted haccepted
      · exact .inr (.inl hnone)
      · exact .inr (.inr ⟨htls13, hmax⟩)

/-- An honest second ClientHello passes. -/
theorem Agreed.second_hello (h : Agreed C w) (hphase : w.server.phase = .waitSecondHello)
    (hr : r ∈ w.toServer) {ext : Option Bytes} (hmessage : r.message = .clientHello ext) :
    w.server.ssl.checkSecondClienthello ext = .ok () := by
  obtain ⟨hlimit, hpeer, -⟩ := h.server.hello (by rw [hphase]; decide)
  have hinitial : r.epoch.level = .initial := by
    by_contra hkeys
    cases hmessage.symm.trans ((h.toServer r hr).2 hkeys)
  have hoffer := hmessage.symm.trans (h.stage.message_toServer (mem_plain hr hinitial))
  cases hoffer
  exact checkSecondClienthello_offer hlimit hpeer

/-- The client takes the answer. -/
theorem Agreed.answer (h : Agreed C w) (hstart : w.client.phase ≠ .start)
    (hphase : w.client.phase ≠ .negotiated) (hr : r ∈ w.toClient) {ext : Option Bytes}
    (hmessage : r.message = .serverHello ext ∨ ∃ accepted, r.message = .encryptedExtensions ext accepted) :
    ({ w.client.ssl with protocolVersion := C.version }.parseServerhello ext).1 = .ok () := by
  have hext : ext = none ∨ ext = C.answer := by
    by_cases hinitial : r.epoch.level = .initial
    · have hplain := h.stage.message_toClient (mem_plain hr hinitial)
      dsimp only at hplain
      rcases hmessage with hmessage | ⟨accepted, hmessage⟩ <;> rw [hmessage] at hplain
      · rcases hplain with hplain | hplain <;> cases hplain
        unfold Config.helloAnswer
        split
        · exact .inl rfl
        · exact .inr rfl
      · rcases hplain with hplain | hplain <;> cases hplain
    · obtain ⟨-, hother | ⟨accepted, hanswer⟩⟩ := (h.toClient r hr).2 hinitial
      · rcases hmessage with hmessage | ⟨accepted, hmessage⟩ <;> cases hother.symm.trans hmessage
      · rcases hmessage with hmessage | ⟨accepted', hmessage⟩ <;> cases hanswer.symm.trans hmessage
        exact .inr rfl
  rcases hext with rfl | rfl
  · rfl
  · have hunanswered := h.client.unanswered hphase
    rw [parseServerhello_answer (s := { w.client.ssl with protocolVersion := C.version }) hunanswered.stream
      (h.client.hello hstart).1 rfl h.client.exceeded]
    · exact hunanswered.read.trans (ite_self 0)
    · exact hunanswered.write.trans (ite_self 0)

/-- What each side holds to have been negotiated: the client by what it has pending, the server also by
what it has recorded of the offer. -/
structure SameView (C : Config) (w : World) : Prop where
  toClient : w.client.ssl.pendingReadRecordSizeLimit = w.server.ssl.pendingWriteRecordSizeLimit
  toServer : w.client.ssl.pendingWriteRecordSizeLimit = w.server.ssl.pendingReadRecordSizeLimit
  clientReads : w.client.ssl.pendingReadRecordSizeLimit ≠ 0 ↔ C.Negotiates
  clientWrites : w.client.ssl.pendingWriteRecordSizeLimit ≠ 0 ↔ C.Negotiates
  serverAnswers : w.server.ssl.hs.peerRecordSizeLimit ≠ 0 ↔ C.Negotiates

/-- Once the client is done, both hold the same to have been negotiated. -/
theorem Agreed.sameView (h : Agreed C w) (hphase : w.client.phase = .negotiated) : SameView C w := by
  have hserver : w.server.phase ≠ .waitHello := by
    rcases (h.stage.of_answered (.inr hphase)).2 with hserver | hserver <;> rw [hserver] <;> decide
  have hclient := h.client.holds
  rw [if_pos hphase, if_pos hphase] at hclient
  have hanswers := h.server.answers hserver
  exact {
    toClient := hclient.pendingRead.trans hanswers.pendingWrite.symm
    toServer := hclient.pendingWrite.trans hanswers.pendingRead.symm
    clientReads := hclient.pendingRead ▸ Config.ite_negotiates_ne_zero
    clientWrites := hclient.pendingWrite ▸ Config.ite_negotiates_ne_zero
    serverAnswers := (h.server.hello hserver).2.1 ▸ Config.ite_negotiates_ne_zero }

/-- What holds of the limits in a state: neither side refuses the other's negotiation, they see the same,
and neither rejects a record of the other. -/
structure Agreement (C : Config) (w : World) : Prop where
  secondHello : w.server.phase = .waitSecondHello → ∀ r ∈ w.toServer, ∀ ext,
    r.message = .clientHello ext → w.server.ssl.checkSecondClienthello ext = .ok ()
  answer : w.client.phase ≠ .start → w.client.phase ≠ .negotiated → ∀ r ∈ w.toClient, ∀ ext,
    (r.message = .serverHello ext ∨ ∃ accepted, r.message = .encryptedExtensions ext accepted) →
      ({ w.client.ssl with protocolVersion := C.version }.parseServerhello ext).1 = .ok ()
  view : w.client.phase = .negotiated → SameView C w
  toClient : ∀ r ∈ w.toClient, ∀ e, w.client.openRecord C r ≠ .rejected e
  toServer : ∀ r ∈ w.toServer, ∀ e, w.server.openRecord C r ≠ .rejected e

end Both

/-- **The limits agree** in every reachable state, and between any two of one configuration: under the
same keys what one side writes is limited to what the other reads, but for the handshake keys that a
client has before EncryptedExtensions. -/
theorem limits_agree {C : Config} {w w' : World} (hvalid : C.Valid) (h : World.Reached C w)
    (h' : World.Reached C w') :
    Agreement C w
      ∧ (w.server.writeEpoch = w'.client.readEpoch →
        Within w.server.ssl.writeRecordSizeLimit w'.client.ssl.readRecordSizeLimit)
      ∧ (w.client.writeEpoch = w'.server.readEpoch →
        (w.client.phase = .waitExtensions → w.client.writeEpoch ≠ .handshake) →
        Within w.client.ssl.writeRecordSizeLimit w'.server.ssl.readRecordSizeLimit) := by
  have hagreed := agreed_of_reached hvalid h
  have hagreed' := agreed_of_reached hvalid h'
  refine ⟨?_, hagreed.toClient_within hagreed', hagreed.toServer_within hagreed'⟩
  exact {
    secondHello := fun hphase r hr ext hmessage => hagreed.second_hello hphase hr hmessage
    answer := fun hstart hphase r hr ext hmessage => hagreed.answer hstart hphase hr hmessage
    view := hagreed.sameView
    toClient := fun r hr => hagreed.client_accepts hvalid hr
    toServer := fun r hr => hagreed.server_accepts hvalid hr }

/-! ### Two runs -/

/-- The least limit on either side, in TLS 1.3. -/
def tightConfig (offersEarlyData : Bool) : Config :=
  ⟨64, 64, tls13Version, tls13Version, offersEarlyData, fun inLen extraLen => some (inLen + extraLen + 16)⟩

theorem tightConfig_valid (offersEarlyData : Bool) : (tightConfig offersEarlyData).Valid where
  version := Nat.le_refl _
  defined n e _ _ := ⟨n + e + 16, rfl⟩
  mono m n e lenM lenN hle hm hn := by
    cases hm
    cases hn
    exact Nat.add_le_add_right (Nat.add_le_add_right hle _) _

/-- 0-RTT is rejected by a HelloRetryRequest; then keys are updated in both directions. -/
def retriedRun : List Action :=
  [.sendClientHello 100, .clientSends 16384, .serverReads true, .sendHelloRetryRequest 50, .clientReads,
    .sendClientHello 100, .serverReads true, .serverReads true, .sendServerHello 90,
    .sendEncryptedExtensions 40, .serverSends 63, .newServerWriteKeys, .newServerReadKeys, .clientReads,
    .clientReads, .clientReads, .newClientReadKeys, .clientSends 63, .newClientWriteKeys, .serverReads true,
    .newServerReadKeys, .clientSends 63, .newClientWriteKeys, .serverReads true, .newServerReadKeys]

/-- The run ends under updated keys in both directions, where the two limits are the ones agreed. -/
theorem limits_agree_retried : ∃ w, World.Reached (tightConfig true) w
    ∧ w.client.writeEpoch = .application 1 ∧ w.server.readEpoch = .application 1
    ∧ w.server.ssl.readRecordSizeLimit = 64 ∧ Agreement (tightConfig true) w
    ∧ Within w.client.ssl.writeRecordSizeLimit w.server.ssl.readRecordSizeLimit := by
  have hrun := Run.foldlM (World.step (tightConfig true)) (World.initial (tightConfig true)) retriedRun rfl
  have hreached : World.Reached (tightConfig true) _ := ⟨_, _, rfl, hrun⟩
  obtain ⟨hagreement, -, hwithin⟩ := limits_agree (tightConfig_valid true) hreached hreached
  exact ⟨_, hreached, rfl, rfl, rfl, hagreement, hwithin rfl fun hphase => by cases hphase⟩

/-- Before EncryptedExtensions a client may have handshake keys, and no limit on what it writes under them. -/
theorem not_within_before_extensions : ¬ ∀ C : Config, C.Valid → ∀ w, World.Reached C w →
    w.client.writeEpoch = w.server.readEpoch →
      Within w.client.ssl.writeRecordSizeLimit w.server.ssl.readRecordSizeLimit := by
  intro hwithin
  have hrun := Run.foldlM (World.step (tightConfig false)) (World.initial (tightConfig false))
    [.sendClientHello 100, .serverReads false, .sendServerHello 90, .sendEncryptedExtensions 40,
      .newServerReadKeys, .clientReads] rfl
  have hlimits : Within 0 64 := hwithin _ (tightConfig_valid false) _ ⟨_, _, rfl, hrun⟩ rfl
  exact absurd hlimits (by unfold Within; decide)

end Btls.Limit.Peers
