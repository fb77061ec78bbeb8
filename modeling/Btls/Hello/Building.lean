import Btls.Hello.Connection

/-!
# Hello — Building

What building a ClientHello comes to, as `ssl_encrypt_client_hello` and `ssl_add_client_hello` do
it.

A block carries the extension of the `ech_client_outer` that the handshake has afterwards, where the
rows before ECH end (`CarriesEch`).  This holds whether the extension was encoded in the loop
(`addClienthelloTlsext_carries`) or inserted once a policy had answered
(`addClienthelloTlsext_invoked`).

* `First` is what the first ClientHello of a handshake comes to: it fails, it invokes the policy in
  force, or it is sent without one.  Which of the last two it is follows from the configuration
  alone.
* `Later` is what a ClientHello after a HelloRetryRequest or a HelloVerifyRequest comes to: a policy
  is never pending then, and the `ech_client_outer` of before is sent again unless real ECH is
  encrypted anew.
* `About`: what is seen of the library is about the handshake of the moment, so a log of several
  handshakes can be read handshake by handshake (`World.advance_events`).
-/

namespace Btls.Hello

open Btls.Support

/-! ### The ECH extension of a block -/

/-- The block has `ech` where the rows before ECH end, and it is the extension of the handshake's
`ech_client_outer`. -/
def Handshake.CarriesEch (view : Handshake) (block : Block) (ech : Bytes) : Prop :=
  extEchAddClienthello block.echClientOuter = some ech
    ∧ ∃ pre slot post st after, view.order = pre ++ slot :: post
      ∧ (view.table.rows.get slot).value = kTypeEncryptedClientHello
      ∧ (∀ i ∈ pre, (view.table.rows.get i).value ≠ kTypeEncryptedClientHello)
      ∧ pre.foldlM (view.addExtension true) view.start = .ok st
      ∧ block.extensions = st.extensions ++ ech ++ after

section Encoder

variable {view : Handshake} {st st' : Encoder} {outer ech : Bytes} {block : Block}

/-- Bytes are only ever appended. -/
theorem addExtension_grows {i : Fin view.table.rows.length} {customEch : Bool}
    (h : view.addExtension customEch st i = .ok st') : ∃ more, st'.extensions = st.extensions ++ more := by
  unfold Handshake.addExtension at h
  dsimp only at h
  split at h
  · cases h
    exact ⟨[], (List.append_nil _).symm⟩
  · split at h
    · cases h
      exact ⟨[], (List.append_nil _).symm⟩
    · cases hwritten : (view.table.rows.get i).addClienthello view.echClientOuter with
      | none =>
          rw [hwritten] at h
          cases h
      | some written =>
          rw [hwritten] at h
          cases (Encoder.append_eq st i written).symm.trans h
          exact ⟨written, rfl⟩

/-- So does the whole of a loop. -/
theorem foldlM_grows {post : List (Fin view.table.rows.length)} {customEch : Bool}
    (h : post.foldlM (view.addExtension customEch) st = .ok st') :
    ∃ more, st'.extensions = st.extensions ++ more := by
  induction post generalizing st with
  | nil =>
      cases h
      exact ⟨[], (List.append_nil _).symm⟩
  | cons i post ih =>
      rw [List.foldlM_cons] at h
      obtain ⟨st₁, hst₁, h⟩ := bind_eq_ok.mp h
      obtain ⟨more, hmore⟩ := addExtension_grows hst₁
      obtain ⟨more', hmore'⟩ := ih h
      exact ⟨more ++ more', by rw [hmore', hmore, List.append_assoc]⟩

/-- The trailing GREASE extension comes behind the rows. -/
theorem addTrailingGrease_grows (view : Handshake) (st : Encoder) :
    ∃ more, (view.addTrailingGrease st).extensions = st.extensions ++ more := by
  unfold Handshake.addTrailingGrease
  cases view.grease with
  | none => exact ⟨[], (List.append_nil _).symm⟩
  | some exts => exact ⟨_, rfl⟩

/-- And padding behind that. -/
theorem withPadding_grows (extensions : Bytes) (len : Nat) :
    ∃ more, withPadding extensions len = extensions ++ more := by
  unfold withPadding
  split
  · exact ⟨_, rfl⟩
  · exact ⟨[], (List.append_nil _).symm⟩

/-- The slot of ECH in a loop that encodes it in place. -/
theorem foldlM_slot (h : view.order.foldlM (view.addExtension false) view.start = .ok st) :
    ∃ pre slot post st₁ ech after, view.order = pre ++ slot :: post
      ∧ (view.table.rows.get slot).value = kTypeEncryptedClientHello
      ∧ (∀ i ∈ pre, (view.table.rows.get i).value ≠ kTypeEncryptedClientHello)
      ∧ pre.foldlM (view.addExtension true) view.start = .ok st₁
      ∧ extEchAddClienthello view.echClientOuter = some ech
      ∧ st.extensions = st₁.extensions ++ ech ++ after := by
  obtain ⟨pre, slot, post, horder, hslot, hpre, -⟩ := view.order_split
  rw [horder, List.foldlM_append] at h
  obtain ⟨st₁, hst₁, h⟩ := bind_eq_ok.mp h
  rw [List.foldlM_cons] at h
  obtain ⟨st₂, hst₂, h⟩ := bind_eq_ok.mp h
  obtain ⟨after, hafter⟩ := foldlM_grows h
  have hbefore := (foldlM_pre view hpre view.echClientOuter view.start).symm.trans hst₁
  cases hech : extEchAddClienthello view.echClientOuter with
  | none =>
      have hnone : view.addExtension false st₁ slot
          = .error (.errorAddingExtension (view.table.rows.get slot).value) := by
        unfold Handshake.addExtension
        rw [if_neg (not_recordSizeLimit hslot), if_neg (fun hcustom => Bool.false_ne_true hcustom.1),
          Entry.addClienthello, if_pos hslot, hech]
        rfl
      cases hnone.symm.trans hst₂
  | some ech =>
      have hencoded := (addExtension_encoded view hslot hech st₁).symm.trans hst₂
      cases (Encoder.append_eq st₁ slot ech).symm.trans hencoded
      exact ⟨pre, slot, post, st₁, ech, after, horder, hslot, hpre, hbefore, rfl, hafter⟩

/-- A block that is finished carries the extension that the loop put in its slot. -/
theorem finish_carries (hst : view.addExtensions false = .ok st)
    (h : view.finish st view.echClientOuter = .ok block) :
    (∃ ech, view.CarriesEch block ech) ∧ block.echClientOuter = view.echClientOuter := by
  obtain ⟨st₀, hst₀, hst⟩ := bind_eq_ok.mp hst
  cases hst
  obtain ⟨pre, slot, post, st₁, ech, after, horder, hslot, hne, hpre, hech, hext⟩ := foldlM_slot hst₀
  obtain ⟨more, hmore⟩ := addTrailingGrease_grows view st₀
  obtain ⟨more', hmore'⟩ := withPadding_grows (view.addTrailingGrease st₀).extensions
    (view.padding (view.addTrailingGrease st₀))
  cases view.finish_ok h
  refine ⟨⟨ech, hech, pre, slot, post, st₁, after ++ more ++ more'
    ++ view.pskWriter.write view.offeredPsks, horder, hslot, hne, hpre, ?_⟩, rfl⟩
  show withPadding _ _ ++ _ = _
  rw [hmore', hmore, hext]
  simp only [List.append_assoc]

/-- Without a policy to invoke, the block carries the ECH extension that the handshake already has. -/
theorem addClienthelloTlsext_carries (hpending : view.echGreasePending = false)
    (h : view.addClienthelloTlsext = .ok block) :
    (∃ ech, view.CarriesEch block ech) ∧ block.echClientOuter = view.echClientOuter := by
  unfold Handshake.addClienthelloTlsext at h
  rw [hpending] at h
  obtain ⟨st, hst, h⟩ := bind_eq_ok.mp h
  exact finish_carries hst h

/-- With a policy, the block carries the extension that its answer made. -/
theorem addClienthelloTlsext_invoked (hpending : view.echGreasePending)
    (h : view.addClienthelloTlsext = .ok block) : ∃ ech, view.CarriesEch block ech := by
  unfold Handshake.addClienthelloTlsext at h
  rw [hpending] at h
  obtain ⟨st, hst, h⟩ := bind_eq_ok.mp h
  obtain ⟨inserted, hinsert, hfinish⟩ := bind_eq_ok.mp h
  obtain ⟨p, ech, hech, rfl⟩ := insertEchGrease_ok hinsert
  have hlen : 4 < ech.length := lt_length_ech (view.draw.length_echClientOuter p) hech
  obtain ⟨st₁, hst₁, hin⟩ := addExtensions_inPlace hech hlen hst
  obtain ⟨hext, hsent, hlast⟩ := hin.insert hlen
  have hplace := (finish_congr hext hsent hlast _ (view.draw.echClientOuter p)).symm.trans hfinish
  obtain ⟨⟨ech', hech', pre, slot, post, st₂, after, horder, hslot, hne, hpre, hblock⟩, -⟩ :=
    finish_carries hst₁ hplace
  -- the rows before ECH do not see `ech_client_outer`
  have hfalse := foldlM_pre view hne (view.draw.echClientOuter p) view.start
  have htrue := foldlM_pre (view.withOuter (view.draw.echClientOuter p)) hne
    (view.draw.echClientOuter p) view.start
  exact ⟨ech', hech', pre, slot, post, st₂, after, horder, hslot, hne,
    hfalse.symm.trans (htrue.trans hpre), hblock⟩

end Encoder

/-! ### How a ClientHello is built -/

variable {K P : Type}

section Build

variable {c : Connection K P} {config : Config P} {ctxCallback : Option P} {hs : Hs} {view t : Handshake}
  {selected : Bool} {maxVersion : Nat} {real : Option Bytes}

/-- A policy is pending in the first ClientHello that offers ECH GREASE, when there is a policy. -/
theorem echGreasePending_iff (view : Handshake) :
    view.echGreasePending ↔ view.usedHelloRetryRequest = false ∧ view.receivedHelloVerifyRequest = false
      ∧ view.selectedEchConfig = false ∧ view.greases ∧ view.echClientOuter = []
      ∧ (view.configCallback.isSome ∨ view.ctxCallback.isSome) := by
  simp only [Handshake.echGreasePending, Handshake.greases, Bool.and_eq_true, Bool.or_eq_true,
    Bool.not_eq_true', List.isEmpty_iff, decide_eq_true_eq]
  simp only [and_assoc]

/-- An answer does not decide whether a policy is pending. -/
theorem answering_pending (h : view.echGreasePending) (answer : Option Parameters) :
    (view.answering answer).echGreasePending := by
  obtain ⟨hused, hreceived, hselected, hgreases, houter, -⟩ := (echGreasePending_iff _).mp h
  exact (echGreasePending_iff _).mpr ⟨hused, hreceived, hselected, hgreases, houter, .inl rfl⟩

/-- The end of `ssl_add_client_hello`: the handshake fails, or its ClientHello is out. -/
theorem added_cases (c : Connection K P) (hs : Hs) (view : Handshake) :
    c.added hs view = c.fail hs
      ∨ ∃ block, view.addClienthelloTlsext = .ok block ∧ c.added hs view =
        ({ c with hs := some { hs with stage := .waiting, echClientOuter := block.echClientOuter } },
          [.hello c.handshakes view block]) := by
  unfold Connection.added
  cases view.addClienthelloTlsext with
  | error e => exact .inl rfl
  | ok block => exact .inr ⟨block, rfl, rfl⟩

/-- Without a pending policy the ClientHello is encoded at once. -/
theorem addClientHello_of_not_pending (h : (c.view config ctxCallback hs t).echGreasePending = false) :
    c.addClientHello config ctxCallback hs t = c.added hs (c.view config ctxCallback hs t) := by
  unfold Connection.addClientHello
  dsimp only
  rw [h]
  rfl

/-- With one the ClientHello stops for its answer, unless the size of the offer cannot be told. -/
theorem addClientHello_of_pending (h : (c.view config ctxCallback hs t).echGreasePending) :
    c.addClientHello config ctxCallback hs t = c.fail hs
      ∨ ∃ policy info, config.echGreaseCallback.or ctxCallback = some policy
        ∧ c.addClientHello config ctxCallback hs t =
          ({ c with hs := some { hs with stage := .running (c.view config ctxCallback hs t) } },
            [.invoked c.handshakes policy info]) := by
  unfold Connection.addClientHello
  dsimp only
  rw [if_pos h]
  cases (c.view config ctxCallback hs t).echGreaseOffer with
  | error e => exact .inl rfl
  | ok info =>
      cases config.echGreaseCallback.or ctxCallback with
      | none => exact .inl rfl
      | some policy => exact .inr ⟨policy, info, rfl, rfl⟩

/-- What the first ClientHello of a handshake comes to. -/
inductive First (c : Connection K P) (selected greases : Bool) (policy : Option P) :
    Connection K P × List (Event K P) → Prop where
  | failed {hs : Hs} (hstage : hs.stage = .failed) (hlocked : hs.echGreasePolicyLocked) :
      First c selected greases policy ({ c with hs := some hs }, [])
  | invoked {hs : Hs} {view : Handshake} {p : P} {info : SizeInfo} (hpolicy : policy = some p)
      (hselected : selected = false) (hgreases : greases = true) (hstage : hs.stage = .running view)
      (hlocked : hs.echGreasePolicyLocked) (hnot : hs.selectedEchConfig = false)
      (hpending : view.echGreasePending) :
      First c selected greases policy
        ({ c with hs := some hs }, [.invoked c.handshakes p info])
  | sent {hs : Hs} {view : Handshake} {block : Block}
      (hpolicy : ¬ (selected = false ∧ greases = true ∧ policy.isSome)) (hstage : hs.stage = .waiting)
      (hlocked : hs.echGreasePolicyLocked) (hselected : hs.selectedEchConfig = selected)
      (hech : ∃ ech, view.CarriesEch block ech) (houter : block.echClientOuter = hs.echClientOuter) :
      First c selected greases policy
        ({ c with hs := some hs }, [.hello c.handshakes view block])

/-- A policy in force is the connection's or the context's, whatever each is made into. -/
theorem isSome_map_or {α β γ : Type} (f : α → β) (g : α → γ) (x y : Option α) :
    ((x.map f).isSome ∨ (y.map g).isSome) ↔ (x.or y).isSome := by
  cases x with
  | none => simp
  | some a => simp

/-- Where a policy is pending with some `ech_client_outer`, it is with none. -/
theorem pending_of_outer {outer : Bytes}
    (h : (c.view config ctxCallback { hs with echClientOuter := outer } t).echGreasePending)
    (houter : hs.echClientOuter = []) : (c.view config ctxCallback hs t).echGreasePending := by
  obtain ⟨hused, hreceived, hselected, hgreases, -, hcallback⟩ := (echGreasePending_iff _).mp h
  exact (echGreasePending_iff _).mpr ⟨hused, hreceived, hselected, hgreases, houter, hcallback⟩

/-- ECH that a policy is to make is not encrypted beforehand. -/
theorem encryptClientHello_pending (h : view.echGreasePending) (real : Option Bytes) :
    view.encryptClientHello real = some view.echClientOuter := by
  obtain ⟨-, -, hselected, -⟩ := (echGreasePending_iff _).mp h
  unfold Handshake.encryptClientHello
  rw [hselected, h]
  rfl

/-- **The first ClientHello.** -/
theorem encryptThenAdd_first (hs : Hs) (hused : c.usedHelloRetryRequest = false)
    (hreceived : hs.receivedHelloVerifyRequest = false) (houter : hs.echClientOuter = [])
    (config : Config P) (ctxCallback : Option P) (real : Option Bytes) (t : Handshake) :
    First c hs.selectedEchConfig (c.view config ctxCallback hs t).greases
      (config.echGreaseCallback.or ctxCallback) (c.encryptThenAdd config ctxCallback hs real t) := by
  have hiff : (c.view config ctxCallback hs t).echGreasePending ↔ hs.selectedEchConfig = false
      ∧ (c.view config ctxCallback hs t).greases ∧ (config.echGreaseCallback.or ctxCallback).isSome := by
    rw [echGreasePending_iff]
    constructor
    · rintro ⟨-, -, hselected, hgreases, -, hcallback⟩
      exact ⟨hselected, hgreases, (isSome_map_or _ _ _ _).mp hcallback⟩
    · rintro ⟨hselected, hgreases, hcallback⟩
      exact ⟨hused, hreceived, hselected, hgreases, houter, (isSome_map_or _ _ _ _).mpr hcallback⟩
  unfold Connection.encryptThenAdd
  dsimp only
  cases hencrypt : (c.view config ctxCallback hs t).encryptClientHello real with
  | none => exact .failed rfl rfl
  | some outer =>
      dsimp only
      by_cases hpending : (c.view config ctxCallback hs t).echGreasePending
      · -- nothing is drawn for a pending policy
        obtain ⟨hselected, hgreases, -⟩ := hiff.mp hpending
        have hsame : hs.echClientOuter = outer :=
          Option.some.inj ((encryptClientHello_pending hpending real).symm.trans hencrypt)
        have hpending' : (c.view config ctxCallback { hs with
            echGreasePolicyLocked := true
            echClientOuter := outer } t).echGreasePending := by
          rw [← hsame]
          exact hpending
        rcases addClientHello_of_pending hpending' with hadd | ⟨policy, info, hpolicy, hadd⟩
        · rw [hadd]
          exact .failed rfl rfl
        · rw [hadd]
          exact .invoked hpolicy hselected hgreases rfl rfl hselected hpending'
      · have hpending' : (c.view config ctxCallback { hs with
            echGreasePolicyLocked := true
            echClientOuter := outer } t).echGreasePending = false :=
          Bool.eq_false_iff.mpr fun h => hpending (pending_of_outer h houter)
        rw [addClientHello_of_not_pending hpending']
        rcases added_cases c _ _ with hadd | ⟨block, hblock, hadd⟩
        · rw [hadd]
          exact .failed rfl rfl
        · rw [hadd]
          obtain ⟨hech, -⟩ := addClienthelloTlsext_carries hpending' hblock
          exact .sent (fun h => hpending (hiff.mpr h)) rfl rfl rfl hech rfl

/-- What a later ClientHello comes to: `outer` is the handshake's `ech_client_outer` before it. -/
inductive Later (c : Connection K P) (selected : Bool) (outer : Option Bytes) :
    Connection K P × List (Event K P) → Prop where
  | failed {hs : Hs} (hstage : hs.stage = .failed) (hlocked : hs.echGreasePolicyLocked) :
      Later c selected outer ({ c with hs := some hs }, [])
  | sent {hs : Hs} {view : Handshake} {block : Block} (hstage : hs.stage = .waiting)
      (hlocked : hs.echGreasePolicyLocked) (hselected : hs.selectedEchConfig = selected)
      (hech : ∃ ech, view.CarriesEch block ech) (houter : block.echClientOuter = hs.echClientOuter)
      (hsame : ∀ bytes, outer = some bytes → hs.echClientOuter = bytes) :
      Later c selected outer ({ c with hs := some hs }, [.hello c.handshakes view block])

/-- **A later ClientHello.**  A retry is never pending. -/
theorem addClientHello_later (c : Connection K P) (hs : Hs)
    (hretry : c.usedHelloRetryRequest ∨ hs.receivedHelloVerifyRequest)
    (hlocked : hs.echGreasePolicyLocked) (config : Config P) (ctxCallback : Option P) (t : Handshake) :
    Later c hs.selectedEchConfig (some hs.echClientOuter) (c.addClientHello config ctxCallback hs t) := by
  have hpending : (c.view config ctxCallback hs t).echGreasePending = false := by
    refine Bool.eq_false_iff.mpr fun h => ?_
    obtain ⟨hused, hreceived, -⟩ := (echGreasePending_iff _).mp h
    rcases hretry with hretry | hretry
    · exact Bool.false_ne_true (hused.symm.trans hretry)
    · exact Bool.false_ne_true (hreceived.symm.trans hretry)
  rw [addClientHello_of_not_pending hpending]
  rcases added_cases c hs (c.view config ctxCallback hs t) with hadd | ⟨block, hblock, hadd⟩
  · rw [hadd]
    exact .failed rfl hlocked
  · rw [hadd]
    obtain ⟨hech, houter⟩ := addClienthelloTlsext_carries hpending hblock
    refine .sent rfl hlocked rfl hech rfl fun bytes hbytes => ?_
    cases hbytes
    exact houter

/-- A later ClientHello, its `ech_client_outer` left open. -/
theorem Later.forget {outer : Option Bytes} {moved : Connection K P × List (Event K P)}
    (h : Later c selected outer moved) : Later c selected none moved := by
  cases h with
  | failed hstage hlocked => exact .failed hstage hlocked
  | sent hstage hlocked hselected hech houter hsame =>
      refine .sent hstage hlocked hselected hech houter fun bytes hbytes => ?_
      cases hbytes

/-- Real ECH encrypted again. -/
theorem encryptThenAdd_later (c : Connection K P) (hs : Hs) (hretry : c.usedHelloRetryRequest) (config : Config P)
    (ctxCallback : Option P) (real : Option Bytes) (t : Handshake) :
    Later c hs.selectedEchConfig none (c.encryptThenAdd config ctxCallback hs real t) := by
  unfold Connection.encryptThenAdd
  dsimp only
  cases (c.view config ctxCallback hs t).encryptClientHello real with
  | none => exact .failed rfl rfl
  | some outer =>
      exact (addClientHello_later c
        { hs with echGreasePolicyLocked := true, echClientOuter := outer }
        (.inl hretry) rfl config ctxCallback t).forget

end Build

/-! ### What is seen of the library -/

/-- Everything that was seen is about handshake `n`. -/
def About (n : Nat) (moved : Connection K P × List (Event K P)) : Prop :=
  ∀ e ∈ moved.2, e.handshake = some n

section Seen

variable {c : Connection K P} {config : Config P} {ctxCallback : Option P} {hs : Hs}

/-- A ClientHello is sent in the running handshake. -/
theorem about_added (view : Handshake) : About c.handshakes (c.added hs view) := by
  rcases added_cases c hs view with hadd | ⟨block, -, hadd⟩
  · rw [hadd]
    exact List.forall_mem_nil _
  · rw [hadd]
    exact List.forall_mem_singleton.mpr rfl

/-- So is a policy invoked. -/
theorem about_addClientHello (t : Handshake) :
    About c.handshakes (c.addClientHello config ctxCallback hs t) := by
  cases hpending : (c.view config ctxCallback hs t).echGreasePending with
  | true =>
      rcases addClientHello_of_pending hpending with hadd | ⟨policy, info, -, hadd⟩
      · rw [hadd]
        exact List.forall_mem_nil _
      · rw [hadd]
        exact List.forall_mem_singleton.mpr rfl
  | false =>
      rw [addClientHello_of_not_pending hpending]
      exact about_added _

/-- Encrypting for ECH shows nothing of its own. -/
theorem about_encryptThenAdd (real : Option Bytes) (t : Handshake) :
    About c.handshakes (c.encryptThenAdd config ctxCallback hs real t) := by
  unfold Connection.encryptThenAdd
  dsimp only
  split
  · exact List.forall_mem_nil _
  · exact about_addClientHello t

/-- An answer to a HelloRetryRequest stays within the handshake that it came to. -/
theorem about_helloRetryRequest (accepted : Option (Option Bytes)) (t : Handshake) :
    About c.handshakes (c.helloRetryRequest config ctxCallback hs accepted t) := by
  unfold Connection.helloRetryRequest
  cases accepted with
  | none => exact about_addClientHello (c := { c with usedHelloRetryRequest := true }) t
  | some real =>
      dsimp only
      split
      · exact List.forall_mem_cons.mpr
          ⟨rfl, about_encryptThenAdd (c := { c with usedHelloRetryRequest := true }) real t⟩
      · exact List.forall_mem_nil _

/-- **Whatever an application or a peer does, what is seen of it is about the handshake of the
moment.** -/
theorem about_advance (action : Action K P) :
    About c.handshakes (c.advance config ctxCallback hs action) := by
  have hquiet : ∀ c' : Connection K P, About c.handshakes (c', ([] : List (Event K P))) :=
    fun _ => List.forall_mem_nil _
  unfold Connection.advance
  cases action with
  | setEchGreaseCallback callback => exact hquiet _
  | setCtxEchGreaseCallback ctx callback => exact hquiet _
  | setSslCtx ctx => exact hquiet _
  | setEnableEchGrease enable => exact hquiet _
  | startConnect selected maxVersion real t =>
      dsimp only
      split
      · exact List.forall_mem_cons.mpr ⟨rfl, about_encryptThenAdd real t⟩
      · exact hquiet _
  | answer answer =>
      dsimp only
      split
      · exact about_added _
      · exact hquiet _
  | helloVerifyRequest t =>
      dsimp only
      split
      · exact about_addClientHello t
      · exact hquiet _
  | helloRetryRequest accepted t =>
      dsimp only
      split
      · exact about_helloRetryRequest accepted t
      · exact hquiet _
  | fail =>
      dsimp only
      split
      · exact hquiet _
      · exact hquiet _
  | finish shed =>
      dsimp only
      split
      · exact hquiet _
      · exact hquiet _
  | clear =>
      dsimp only
      split
      · exact hquiet _
      · exact hquiet _
  | renegotiate => exact hquiet _

/-- The trace only grows, and by events of the running handshake. -/
theorem World.advance_events (w : World K P) (action : Action K P) :
    ∃ events, (w.advance action).trace = w.trace ++ events
      ∧ ∀ e ∈ events, e.handshake = some w.connection.handshakes := by
  have hnil : w.trace = w.trace ++ [] := (List.append_nil _).symm
  unfold World.advance
  split
  · exact ⟨[], hnil, List.forall_mem_nil _⟩
  · exact ⟨_, rfl, about_advance action⟩
  · split
    · exact ⟨[], rfl, List.forall_mem_nil _⟩
    · split
      · exact ⟨[], hnil, List.forall_mem_nil _⟩
      · exact ⟨[], rfl, List.forall_mem_nil _⟩
    · exact ⟨[], hnil, List.forall_mem_nil _⟩

end Seen

end Btls.Hello
