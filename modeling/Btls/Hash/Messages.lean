import Btls.Hash.Hasher

/-!
# Hash — Messages

What hashers are for: each has a message (`messages`), and a digest is that of the message.  The
message is read off what a program called and what it got; a hasher's context holds it, unless the
hasher is `Finalized` and the message is empty (`Fits`).

A clone takes the message of the original with it, a digest begins a new one, and a call that fails
leaves the context where the next call begins anew.  `digests_served` is over every run of any
number of hashers, with any of the calls failing.
-/

namespace Btls.Hash

open Btls.Support

variable {D C σ α β : Type}

/-- The algorithm of each hasher, and what it took since its last digest. -/
abbrev Messages (D : Type) : Type := Nat → Option (D × Bytes)

/-- What comes of the messages with a call. -/
def note (m : Messages D) : Call D × Ret → Messages D
  | (.new ty, .made i) => Function.update m i (some (ty, []))
  | (.update i data, .unit) => Function.update m i ((m i).map fun x => (x.1, x.2 ++ data))
  | (.finish i, .digest _) | (.finishXof i _, .filled _) =>
      Function.update m i ((m i).map fun x => (x.1, []))
  | (.clone i, .made j) => Function.update m j (m i)
  | (.drop i, _) => Function.update m i none
  | _ => m

def messages (ls : List (Call D × Ret)) : Messages D := ls.foldl note fun _ => none

/-- What a program may be told, with these messages. -/
inductive Served (digest : D → Bytes → Bytes) (xof : D → Bytes → Nat → Bytes) (m : Messages D) :
    Call D → Ret → Prop where
  | made {ty : D} {i : Nat} (hnew : m i = none) : Served digest xof m (.new ty) (.made i)
  | took {i : Nat} {data : Bytes} : Served digest xof m (.update i data) .unit
  | digest {i : Nat} {d : D} {bs : Bytes} {b : DigestBytes} (hm : m i = some (d, bs))
      (hb : b.deref = some (digest d bs)) : Served digest xof m (.finish i) (.digest b)
  | filled {i : Nat} {d : D} {bs buf : Bytes} (hm : m i = some (d, bs)) :
      Served digest xof m (.finishXof i buf) (.filled (xof d bs buf.length))
  | cloned {i j : Nat} (hnew : m j = none) : Served digest xof m (.clone i) (.made j)
  | panicked {i : Nat} : Served digest xof m (.clone i) .panic
  | dropped {i : Nat} : Served digest xof m (.drop i) .unit
  | hashed {t : D} {data : Bytes} {b : DigestBytes} (hb : b.deref = some (digest t data)) :
      Served digest xof m (.hash t data) (.digest b)
  | hashedXof {t : D} {data buf : Bytes} :
      Served digest xof m (.hashXof t data buf) (.filled (xof t data buf.length))
  | failed {c : Call D} (hclone : ∀ i, c ≠ .clone i) (hdrop : ∀ i, c ≠ .drop i) :
      Served digest xof m c .err

/-! ### One hasher -/

variable (ffi : EvpDigest D C σ) (absorbed : C → Option (D × Bytes))

/-- The hasher has this message. -/
structure Fits (h : Hasher D C) (m : D × Bytes) : Prop where
  md : h.md = m.1
  finalized : h.state = .finalized → m.2 = []
  absorbed : h.state ≠ .finalized → absorbed h.ctx = some m

/-- The call goes right, and ends as `Q` says. -/
def Ended.Within (x : Ended D C σ α) (Q : Option α → Hasher D C → Prop) : Prop :=
  ∃ r h s, x = some (r, h, s) ∧ Q r h

/-- A value as `Q` says and the next message, or an error and the same one. -/
def Turns (Q : α → Prop) (next m : D × Bytes) : Option α → Hasher D C → Prop
  | some a, h => Q a ∧ Fits absorbed h next
  | none, h => Fits absorbed h m

variable {ffi absorbed} {digest : D → Bytes → Bytes} {xof : D → Bytes → Nat → Bytes} {h : Hasher D C}
  {m : D × Bytes}

theorem Ended.Within.andThen {x : Ended D C σ α} {f : α → Hasher D C → σ → Ended D C σ β}
    {P : Option α → Hasher D C → Prop} {Q : Option β → Hasher D C → Prop} (hx : x.Within P)
    (hok : ∀ a h s, P (some a) h → (f a h s).Within Q) (herr : ∀ h, P none h → Q none h) :
    (x.andThen f).Within Q := by
  obtain ⟨r, h, s, rfl, hP⟩ := hx
  cases r with
  | some a => exact hok a h s hP
  | none => exact ⟨none, h, s, rfl, herr h hP⟩

theorem Ended.Within.of_turns {x : Ended D C σ α} {Q : α → Prop} {next : D × Bytes}
    (hx : x.Within (Turns absorbed Q next m)) :
    x.Within fun r h => (∀ a, r = some a → Q a) ∧ ∃ m', Fits absorbed h m' := by
  obtain ⟨r, h, s, rfl, hturns⟩ := hx
  cases r with
  | some a => exact ⟨_, _, _, rfl, fun _ ha => Option.some.inj ha ▸ hturns.1, _, hturns.2⟩
  | none => exact ⟨_, _, _, rfl, nofun, _, hturns⟩

/-- A hasher that is not `Finalized`. -/
theorem Fits.of_absorbed (hc : absorbed h.ctx = some m) (hmd : h.md = m.1) (hst : h.state ≠ .finalized) :
    Fits absorbed h m := ⟨hmd, fun h => absurd h hst, fun _ => hc⟩

theorem Fits.of_finalized {d : D} (hmd : h.md = d) (hst : h.state = .finalized) :
    Fits absorbed h (d, []) := ⟨hmd, fun _ => rfl, fun h => absurd hst h⟩

/-- A call that fails leaves the hasher its message. -/
theorem Fits.kept (hm : Fits absorbed h m) {ctx : C}
    (hctx : h.state ≠ .finalized → absorbed ctx = some m) : Fits absorbed { h with ctx := ctx } m :=
  ⟨hm.md, hm.finalized, hctx⟩

/-- Before a call that needs an initialised context. -/
theorem ready_within (hffi : ffi.Computes absorbed digest xof) (hm : Fits absorbed h m) (s : σ) :
    (ready ffi h s).Within fun r h' => Fits absorbed h' m ∧ (r = some () → absorbed h'.ctx = some m) := by
  by_cases hst : h.state = .finalized
  · have hmsg : m = (h.md, []) := Prod.ext hm.md.symm (hm.finalized hst)
    have hinit := hffi.init h.ctx h.md s
    rw [ready, if_pos hst, initEx]
    rcases hcall : ffi.initEx h.ctx h.md s with ⟨ok, ctx, s'⟩
    rw [hcall] at hinit
    cases ok with
    | true =>
        have hc : absorbed ctx = some m := hmsg ▸ hinit rfl
        exact ⟨_, _, _, rfl, .of_absorbed hc hm.md nofun, fun _ => hc⟩
    | false => exact ⟨_, _, _, rfl, hm.kept fun h => absurd hst h, nofun⟩
  · rw [ready, if_neg hst]
    exact ⟨_, _, _, rfl, hm, fun _ => hm.absorbed hst⟩

theorem finish_within (hffi : ffi.Computes absorbed digest xof) (hm : Fits absorbed h m) (s : σ) :
    (finish ffi h s).Within (Turns absorbed (fun b => b.deref = some (digest m.1 m.2)) (m.1, []) m) := by
  refine (ready_within hffi hm s).andThen (fun _ h' s' hr => ?_) fun h' hr => hr.1
  obtain ⟨out, ctx, s'', hfin, hout⟩ := hffi.final (hr.2 rfl) s'
  rw [hfin]
  rcases hout with rfl | ⟨rfl, hc⟩
  · have hfits : 0 + (digest m.1 m.2).length ≤ (List.replicate ffi.maxMdSize (0 : UInt8)).length := by
      rw [Nat.zero_add, List.length_replicate]
      exact hffi.size m.1 m.2
    simp only [Option.bind_some, copyInto_of_le hfits, Option.map_some]
    have hlen : (digest m.1 m.2).length
        ≤ (splice (List.replicate ffi.maxMdSize 0) 0 (digest m.1 m.2)).length := by
      rw [length_splice hfits]
      omega
    refine ⟨_, _, _, rfl, ?_, .of_finalized hr.1.md rfl⟩
    exact (sliceTo_of_le hlen).trans (by rw [splice, List.take_zero, List.nil_append, List.take_left])
  · exact ⟨_, _, _, rfl, hr.1.kept fun _ => hc⟩

theorem finishXof_within (hffi : ffi.Computes absorbed digest xof) (hm : Fits absorbed h m) (buf : Bytes)
    (s : σ) :
    (finishXof ffi h buf s).Within (Turns absorbed (· = xof m.1 m.2 buf.length) (m.1, []) m) := by
  refine (ready_within hffi hm s).andThen (fun _ h' s' hr => ?_) fun h' hr => hr.1
  obtain ⟨out, ctx, s'', hfin, hout⟩ := hffi.finalXof (hr.2 rfl) buf.length s'
  rw [hfin]
  rcases hout with rfl | ⟨rfl, hc⟩
  · have hsize := hffi.xofSize m.1 m.2 buf.length
    have hfits : 0 + (xof m.1 m.2 buf.length).length ≤ buf.length := by omega
    simp only [Option.bind_some, copyInto_of_le hfits, Option.map_some]
    refine ⟨_, _, _, rfl, ?_, .of_finalized hr.1.md rfl⟩
    rw [splice, hsize, List.take_zero, List.nil_append, Nat.zero_add, List.drop_length, List.append_nil]
  · exact ⟨_, _, _, rfl, hr.1.kept fun _ => hc⟩

theorem update_within (hffi : ffi.Computes absorbed digest xof) (hm : Fits absorbed h m) (data : Bytes)
    (s : σ) :
    (update ffi h data s).Within (Turns absorbed (fun _ => True) (m.1, m.2 ++ data) m) := by
  refine (ready_within hffi hm s).andThen (fun _ h' s' hr => ?_) fun h' hr => hr.1
  obtain ⟨ok, ctx, s'', hupd, hc⟩ := hffi.update (hr.2 rfl) data s'
  rw [hupd]
  cases ok with
  | true => exact ⟨_, _, _, rfl, trivial, .of_absorbed hc hr.1.md nofun⟩
  | false => exact ⟨_, _, _, rfl, hr.1.kept fun _ => hc⟩

/-- A hasher can be dropped at any time. -/
theorem drop_right (hffi : ffi.Computes absorbed digest xof) (hm : Fits absorbed h m) (s : σ) :
    ∃ s', drop ffi h s = some s' := by
  rw [drop]
  split
  · exact ⟨_, rfl⟩
  · obtain ⟨r, h', s', hfin, -⟩ := finish_within hffi hm s
    rw [hfin]
    exact ⟨_, rfl⟩

/-- `init` is what a call does for a hasher that is not ready; only of an `Updated` one would it be more. -/
theorem ready_eq (h : Hasher D C) (s : σ) :
    ready ffi h s = if h.state = .finalized then init ffi h s else some (some (), h, s) := by
  rw [ready]
  split
  · next hst => rw [init, hst]
  · rfl

theorem new_right (hffi : ffi.Computes absorbed digest xof) (ty : D) (s : σ) :
    ∃ r s', new ffi ty s = some (r, s') ∧ ∀ h, r = some h → Fits absorbed h (ty, []) := by
  rw [new]
  rcases ffi.ctxNew s with ⟨- | ctx, s₁⟩
  · exact ⟨_, _, rfl, nofun⟩
  · have hm : Fits absorbed ⟨ctx, ty, .finalized⟩ (ty, []) := .of_finalized rfl rfl
    obtain ⟨r, h, s₂, hr, hfits, -⟩ := ready_within hffi hm s₁
    rw [ready_eq, if_pos rfl] at hr
    simp only [hr, Option.bind_some]
    cases r with
    | some _ => exact ⟨_, _, rfl, fun h' hh => Option.some.inj hh ▸ hfits⟩
    | none =>
        obtain ⟨s₃, hs₃⟩ := drop_right hffi hfits s₂
        simp only [hs₃, Option.map_some]
        exact ⟨_, _, rfl, nofun⟩

theorem clone_fits (hffi : ffi.Computes absorbed digest xof) (hm : Fits absorbed h m) {s s' : σ}
    {h' : Hasher D C} (hc : clone ffi h s = (some h', s')) : Fits absorbed h' m := by
  unfold clone at hc
  split at hc
  · cases hc
  · next c₀ s₁ _ =>
      have hcopy := fun ha => hffi.copy (hm.absorbed ha) c₀ s₁
      split at hc
      · next hcall =>
          cases hc
          rw [hcall] at hcopy
          exact ⟨hm.md, hm.finalized, fun ha => hcopy ha rfl⟩
      · cases hc

/-- A hasher for one message. -/
theorem oneShot_right (hffi : ffi.Computes absorbed digest xof) (ty : D) (data : Bytes)
    {fin : Hasher D C → σ → Ended D C σ α} {Q : α → Prop} {next : D × Bytes}
    (hfin : ∀ h s, Fits absorbed h (ty, data) →
      (fin h s).Within (Turns absorbed Q next (ty, data))) (s : σ) :
    ∃ r s', oneShot ffi ty data fin s = some (r, s') ∧ ∀ a, r = some a → Q a := by
  obtain ⟨r, s₁, hnew, hfits⟩ := new_right hffi ty s
  rw [oneShot, hnew, Option.bind_some]
  cases r with
  | none => exact ⟨_, _, rfl, nofun⟩
  | some h =>
      have hrun : ((update ffi h data s₁).andThen fun _ h s => fin h s).Within fun r h' =>
          (∀ a, r = some a → Q a) ∧ ∃ m', Fits absorbed h' m' :=
        (update_within hffi (hfits h rfl) data s₁).andThen (fun _ h s hu => (hfin h s hu.2).of_turns)
          fun h hu => ⟨nofun, _, hu⟩
      obtain ⟨r, h', s₂, hr, hQ, m', hm'⟩ := hrun
      obtain ⟨s₃, hs₃⟩ := drop_right hffi hm' s₂
      simp only [hr, Option.bind_some, hs₃, Option.map_some]
      exact ⟨_, _, rfl, hQ⟩

/-! ### All of them -/

variable {w w' : World D C σ} {ms : Messages D}

variable (absorbed) in
/-- Each hasher has its message, under a number given out before. -/
structure Follows (w : World D C σ) (ms : Messages D) : Prop where
  fits : ∀ i, Option.Rel (Fits absorbed) (w.hashers i) (ms i)
  given : ∀ i, w.hashers i ≠ none → i < w.next

theorem Follows.start (s : σ) : Follows absorbed (World.start s) fun _ => none := ⟨fun _ => .none, nofun⟩

theorem Follows.env (hw : Follows absorbed w ms) (s : σ) : Follows absorbed { w with env := s } ms :=
  ⟨hw.fits, hw.given⟩

theorem Follows.message (hw : Follows absorbed w ms) {i : Nat} (hi : w.hashers i ≠ none) :
    ∃ h x, w.hashers i = some h ∧ ms i = some x ∧ Fits absorbed h x := by
  have hfits := hw.fits i
  cases hh : w.hashers i with
  | none => exact absurd hh hi
  | some h =>
      rw [hh] at hfits
      rcases hx : ms i with - | x
      · rw [hx] at hfits
        cases hfits
      · rw [hx] at hfits
        cases hfits with
        | some hfits => exact ⟨h, x, rfl, rfl, hfits⟩

/-- The next number is nobody's. -/
theorem Follows.unused (hw : Follows absorbed w ms) : ms w.next = none := by
  have hfits := hw.fits w.next
  have hnone : w.hashers w.next = none := by
    by_contra hne
    exact Nat.lt_irrefl _ (hw.given _ hne)
  rw [hnone] at hfits
  rcases hx : ms w.next with - | x
  · rfl
  · rw [hx] at hfits
    cases hfits

/-- One hasher changes, or goes. -/
theorem Follows.put (hw : Follows absorbed w ms) {i : Nat} (hi : w.hashers i ≠ none)
    {h : Option (Hasher D C)} {ms' : Messages D} (hfits : Option.Rel (Fits absorbed) h (ms' i))
    (hms : ∀ j, j ≠ i → ms' j = ms j) (s : σ) : Follows absorbed (w.put i h s) ms' := by
  refine ⟨fun j => ?_, fun j hj => ?_⟩
  · by_cases hji : j = i
    · subst hji
      simp only [World.put, Function.update_self]
      exact hfits
    · simp only [World.put, Function.update_of_ne hji, hms j hji]
      exact hw.fits j
  · by_cases hji : j = i
    · subst hji
      exact hw.given j hi
    · simp only [World.put, Function.update_of_ne hji] at hj
      exact hw.given j hj

/-- One more. -/
theorem Follows.add (hw : Follows absorbed w ms) {h : Hasher D C} {x : D × Bytes}
    (hfits : Fits absorbed h x) (s : σ) :
    Follows absorbed (w.add h s) (Function.update ms w.next (some x)) := by
  refine ⟨fun j => ?_, fun j hj => ?_⟩
  · by_cases hj : j = w.next
    · subst hj
      simp only [World.add, Function.update_self]
      exact .some hfits
    · simp only [World.add, Function.update_of_ne hj]
      exact hw.fits j
  · by_cases hjn : j = w.next
    · exact hjn ▸ Nat.lt_succ_self _
    · simp only [World.add, Function.update_of_ne hjn] at hj
      exact Nat.lt_succ_of_lt (hw.given j hj)

/-- A call on one hasher: what it comes to, and what comes of its message. -/
theorem Follows.onHasher (hw : Follows absorbed w ms) {i : Nat} (hi : w.hashers i ≠ none) {c : Call D}
    {f : Hasher D C → σ → Ended D C σ α} {ret : α → Ret} {after : D × Bytes → D × Bytes}
    {Q : D × Bytes → α → Prop}
    (hf : ∀ h x s, Fits absorbed h x → (f h s).Within (Turns absorbed (Q x) (after x) x))
    (hdone : ∀ a, note ms (c, ret a) = Function.update ms i ((ms i).map after))
    (hserved : ∀ x a, ms i = some x → Q x a → Served digest xof ms c (ret a))
    (herr : note ms (c, .err) = ms) (hfailed : Served digest xof ms c .err) :
    ∃ r w', Hash.onHasher i f ret w = some (r, w') ∧ Served digest xof ms c r
      ∧ Follows absorbed w' (note ms (c, r)) := by
  obtain ⟨h, x, hh, hx, hfits⟩ := hw.message hi
  obtain ⟨r, h', s', hr, hr'⟩ := hf h x w.env hfits
  rw [Hash.onHasher, hh, Option.bind_some, hr]
  cases r with
  | some a =>
      refine ⟨_, _, rfl, hserved x a hx hr'.1, hw.put hi ?_ (fun j hj => ?_) s'⟩
      · rw [Option.map_some, Option.getD_some, hdone, Function.update_self, hx]
        exact .some hr'.2
      · rw [Option.map_some, Option.getD_some, hdone, Function.update_of_ne hj]
  | none =>
      refine ⟨_, _, rfl, hfailed, hw.put hi ?_ (fun j _ => ?_) s'⟩
      · rw [Option.map_none, Option.getD_none, herr, hx]
        exact .some hr'
      · rw [Option.map_none, Option.getD_none, herr]

/-- One call. -/
theorem Follows.exec (hffi : ffi.Computes absorbed digest xof) (hw : Follows absorbed w ms) (c : Call D)
    (hc : c.Allowed w) :
    ∃ r w', Hash.exec ffi c w = some (r, w') ∧ Served digest xof ms c r
      ∧ Follows absorbed w' (note ms (c, r)) := by
  cases c with
  | new ty =>
      obtain ⟨r, s', hnew, hfits⟩ := new_right hffi ty w.env
      rw [Hash.exec, hnew]
      cases r with
      | some h => exact ⟨_, _, rfl, .made hw.unused, hw.add (hfits h rfl) s'⟩
      | none => exact ⟨_, _, rfl, .failed nofun nofun, hw.env s'⟩
  | update i data =>
      exact hw.onHasher hc (fun h x s hfits => update_within hffi hfits data s) (fun _ => rfl)
        (fun _ _ _ _ => .took) rfl (.failed nofun nofun)
  | finish i =>
      exact hw.onHasher hc (fun h x s hfits => finish_within hffi hfits s) (fun _ => rfl)
        (fun _ _ hx hb => .digest hx hb) rfl (.failed nofun nofun)
  | finishXof i buf =>
      exact hw.onHasher hc (fun h x s hfits => finishXof_within hffi hfits buf s) (fun _ => rfl)
        (fun _ _ hx hb => hb ▸ .filled hx) rfl (.failed nofun nofun)
  | clone i =>
      obtain ⟨h, x, hh, hx, hfits⟩ := hw.message hc
      rw [Hash.exec, hh, Option.map_some]
      rcases hclone : clone ffi h w.env with ⟨- | h', s'⟩
      · exact ⟨_, _, rfl, .panicked, hw.env s'⟩
      · refine ⟨_, _, rfl, .cloned hw.unused, ?_⟩
        rw [note, hx]
        exact hw.add (clone_fits hffi hfits hclone) s'
  | drop i =>
      obtain ⟨h, x, hh, hx, hfits⟩ := hw.message hc
      obtain ⟨s', hdrop⟩ := drop_right hffi hfits w.env
      rw [Hash.exec, hh, Option.bind_some, hdrop]
      refine ⟨_, _, rfl, .dropped, hw.put hc ?_ (fun j hj => ?_) s'⟩
      · rw [note, Function.update_self]
        exact .none
      · rw [note, Function.update_of_ne hj]
  | hash t data =>
      obtain ⟨r, s', hr, hb⟩ := oneShot_right hffi t data
        (fun h s hfits => finish_within hffi hfits s) w.env
      rw [Hash.exec, Hash.hash, hr]
      cases r with
      | some b => exact ⟨_, _, rfl, .hashed (hb b rfl), hw.env s'⟩
      | none => exact ⟨_, _, rfl, .failed nofun nofun, hw.env s'⟩
  | hashXof t data buf =>
      obtain ⟨r, s', hr, hb⟩ := oneShot_right hffi t data
        (fun h s hfits => finishXof_within hffi hfits buf s) w.env
      rw [Hash.exec, Hash.hashXof, hr]
      cases r with
      | some b => exact ⟨_, _, rfl, hb b rfl ▸ .hashedXof, hw.env s'⟩
      | none => exact ⟨_, _, rfl, .failed nofun nofun, hw.env s'⟩

/-- Any calls. -/
theorem Follows.run (hffi : ffi.Computes absorbed digest xof) {s : σ} {ls : List (Call D × Ret)}
    (h : Run (Step ffi) (World.start s) ls w) : Follows absorbed w (messages ls) := by
  induction h with
  | nil => exact Follows.start s
  | snoc _ hstep ih =>
      obtain ⟨hallowed, hdone⟩ := hstep
      obtain ⟨r, w', hexec, -, hfollows⟩ := ih.exec hffi _ hallowed
      rw [hexec] at hdone
      cases Option.some.inj hdone
      rw [messages, List.foldl_append]
      exact hfollows

/-- **A digest is of its hasher's message.**  After any calls, on any hashers, a call on one that is there goes
right, and a digest is of what the hasher took since its last one, after what it was cloned with. -/
theorem digests_served (hffi : ffi.Computes absorbed digest xof) {s : σ} {ls : List (Call D × Ret)}
    (h : Run (Step ffi) (World.start s) ls w) (c : Call D) (hc : c.Allowed w) :
    ∃ r w', Hash.exec ffi c w = some (r, w') ∧ Served digest xof (messages ls) c r := by
  obtain ⟨r, w', hexec, hserved, -⟩ := (Follows.run hffi h).exec hffi c hc
  exact ⟨r, w', hexec, hserved⟩

/-! ### Sums -/

/-- Whether the next call is to succeed. -/
def next : List Bool → Bool × List Bool
  | [] => (true, [])
  | ok :: rest => (ok, rest)

def sum (bs : Bytes) : UInt8 := bs.foldl (· + ·) 0

/-- Sums and lengths for digests, the calls that fail listed. -/
def summing : EvpDigest Bool (Option (Bool × Bytes)) (List Bool) where
  maxMdSize := 1
  ctxNew s := (if (next s).1 then some none else none, (next s).2)
  initEx _ d s := ((next s).1, if (next s).1 then some (d, []) else none, (next s).2)
  update c data s := c.map fun x =>
    ((next s).1, some (x.1, if (next s).1 then x.2 ++ data else x.2), (next s).2)
  finalEx c s := c.map fun x =>
    if (next s).1 then (some [if x.1 then sum x.2 else .ofNat x.2.length], none, (next s).2)
    else (none, some x, (next s).2)
  finalXof c n s := c.map fun x =>
    if (next s).1 then (some (List.replicate n (sum x.2)), none, (next s).2) else (none, some x, (next s).2)
  copyEx _ c s := ((next s).1, c, (next s).2)
  free _ s := s

theorem summing_computes : summing.Computes id (fun d bs => [if d then sum bs else .ofNat bs.length])
    fun _ bs n => List.replicate n (sum bs) where
  init c d s h := if_pos h
  update h data s := ⟨_, _, _, congrArg (Option.map _) h, rfl⟩
  final {c d bs} h s := by
    cases h
    rcases hok : next s with ⟨- | _, rest⟩
    · exact ⟨none, some (d, bs), rest, by simp [summing, hok], .inr ⟨rfl, rfl⟩⟩
    · exact ⟨_, none, rest, by simp [summing, hok], .inl rfl⟩
  finalXof {c d bs} h n s := by
    cases h
    rcases hok : next s with ⟨- | _, rest⟩
    · exact ⟨none, some (d, bs), rest, by simp [summing, hok], .inr ⟨rfl, rfl⟩⟩
    · exact ⟨_, none, rest, by simp [summing, hok], .inl rfl⟩
  copy h _ _ _ := h
  size _ _ := Nat.le_refl 1
  xofSize _ _ _ := List.length_replicate

/-- A hasher is cloned, the clone updated when that fails and again, and the first one finished. -/
def clonedAndFed : List (Call Bool × Ret) :=
  [] ++ [(.new true, .made 0)] ++ [(.update 0 [1, 2], .unit)] ++ [(.clone 0, .made 1)]
    ++ [(.update 1 [9], .err)] ++ [(.update 1 [3], .unit)] ++ [(.finish 0, .digest ⟨[3], 1⟩)]

theorem clonedAndFed_run :
    ∃ w, Run (Step summing) (World.start [true, true, true, true, true, false]) clonedAndFed w
      ∧ w.hashers 1 ≠ none :=
  ⟨_, .snoc (.snoc (.snoc (.snoc (.snoc (.snoc (.nil _) ⟨trivial, rfl⟩) ⟨nofun, rfl⟩) ⟨nofun, rfl⟩)
    ⟨nofun, rfl⟩) ⟨nofun, rfl⟩) ⟨nofun, rfl⟩, nofun⟩

theorem digests_served_summing :
    messages clonedAndFed 1 = some (true, [1, 2, 3])
      ∧ ∃ w, Run (Step summing) (World.start [true, true, true, true, true, false]) clonedAndFed w
        ∧ ∃ r w', Hash.exec summing (.finish 1) w = some (r, w')
          ∧ Served (fun d bs => [if d then sum bs else .ofNat bs.length])
            (fun _ bs n => List.replicate n (sum bs)) (messages clonedAndFed) (.finish 1) r := by
  refine ⟨rfl, ?_⟩
  obtain ⟨w, hr, hw⟩ := clonedAndFed_run
  exact ⟨w, hr, digests_served summing_computes hr (.finish 1) hw⟩

end Btls.Hash
