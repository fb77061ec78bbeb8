import Btls.Errors.ErrorStack
import Mathlib.Tactic.Common

/-!
# Errors — Returned

What an error stack is for: the errors that were put on the queue since they were last taken off,
the oldest first, as many as there is room for (`ledger`).  An error that was on the queue is seen
as it was before, but for a text of the crate's with a NUL in it (`Error.crossed`).

`View` is all that the accessors can show of an error, and `Sound` an error that the queue gives
back under the code, file and line that it was put with; those that come from the queue are sound,
and so are the crate's own.  `ledger` is read off the calls of a run alone.  The world follows it
(`Follows`), call by call (`Follows.exec`), and so after any calls.

* `getLoop_eq`: `get` empties the queue, the oldest error first.
* `put_eq`: putting a stack back is putting back the entries that its errors came from.
* `errors_returned`: after any calls, what `get` gets is what the ledger has, and a stack that is
  put back and got again is seen as before.
-/

namespace Btls.Errors

open Btls.Support

/-! ### What is seen of an error -/

/-- All that the accessors of an error are read off. -/
structure View where
  code : Nat
  file : File
  line : Nat
  text : Option String
  deriving DecidableEq

namespace Error

def view (e : Error) : View := ⟨e.code, e.file, e.line, e.text⟩

/-- What the queue is given. -/
def entry (e : Error) : Entry := ⟨e.code, e.file, e.line, e.dataCstr⟩

/-- What is seen of an error that was on the queue. -/
def crossed (e : Error) : View :=
  { e.view with text := e.text.filter fun s => 0 ∉ s.toByteArray.data }

end Error

/-- A C string is the bytes of its text. -/
theorem CString.toByteArray_of_toStr {c : CString} {s : String} (h : c.toStr = some s) :
    s.toByteArray = c.bytes := by
  unfold toStr String.fromUTF8? at h
  split at h
  · exact Option.some.inj h ▸ rfl
  · cases h

/-- A string without NUL is read back as it was. -/
theorem CString.toStr_of_new {c : CString} {s : String} (h : CString.new s = some c) :
    c.toStr = some s := by
  unfold CString.new at h
  split at h
  · cases h
  · cases h
    exact dif_pos s.isValidUTF8

/-- The text of an error is that of its entry, where there is one. -/
theorem Error.text_ofEntry (e : Entry) : (ofEntry e).text = e.data.bind CString.toStr := by
  rw [ofEntry, text]
  cases e.data <;> rfl

/-- What comes back from the queue. -/
theorem Error.view_ofEntry (e : Error) : (ofEntry e.entry).view = e.crossed := by
  suffices htext : e.dataCstr.bind CString.toStr = e.text.filter fun s => 0 ∉ s.toByteArray.data by
    rw [view, text_ofEntry, entry, htext]
    rfl
  have hown : ∀ s, (CString.new s).bind CString.toStr
      = (some s).filter fun s => 0 ∉ s.toByteArray.data := by
    intro s
    cases hs : CString.new s with
    | none =>
        have hnul : 0 ∈ s.toByteArray.data := by
          by_contra hno
          rw [CString.new, dif_neg hno] at hs
          cases hs
        rw [Option.filter_some_neg (by simpa using hnul), Option.bind_none]
    | some c =>
        have hno : 0 ∉ s.toByteArray.data := by
          rw [CString.toByteArray_of_toStr (CString.toStr_of_new hs)]
          exact c.noNul
        rw [Option.filter_some_pos (by simpa using hno), Option.bind_some, CString.toStr_of_new hs]
  unfold dataCstr text
  cases e.data with
  | none => rfl
  | string s => exact hown s
  | «static» s => exact hown s
  | cString c =>
      change c.toStr = c.toStr.filter _
      cases hc : c.toStr with
      | none => rfl
      | some s =>
          have hno : 0 ∉ s.toByteArray.data := CString.toByteArray_of_toStr hc ▸ c.noNul
          rw [Option.filter_some_pos (by simpa using hno)]

/-- A stack is displayed by what is seen of its errors. -/
theorem ErrorStack.fmt_eq {libError reasonError : Nat → Option String} {s s' : ErrorStack}
    (h : s.map Error.view = s'.map Error.view) :
    ErrorStack.fmt libError reasonError s = ErrorStack.fmt libError reasonError s' := by
  let shown : View → String := fun v =>
    let internal := v.file == .boringInternal
    let reason := if internal then v.text else reasonError v.code
    let library := if internal then none else (libError v.code).filter (· ≠ "unknown library")
    "[" ++ ((reason.or library).getD "unknown reason") ++ "]"
  have hfmt : ∀ s : ErrorStack, ErrorStack.fmt libError reasonError s
      = if (s.map Error.view).isEmpty then "unknown BoringSSL error"
        else " ".intercalate ((s.map Error.view).map shown) := by
    intro s
    rw [List.map_map, List.isEmpty_map]
    rfl
  rw [hfmt, hfmt, h]

/-! ### Codes -/

/-- A code is its library and its reason, packed. -/
theorem errPack_eq {library reason : Nat} (hlib : library < 256) (hreason : reason < 4096) :
    errPack library 0 reason = library * 0x1000000 + reason := by
  have h : library &&& 0x0FF = library := by
    rw [show (0x0FF : Nat) = 2 ^ 8 - 1 from rfl, Nat.and_two_pow_sub_one_eq_mod]
    exact Nat.mod_eq_of_lt hlib
  have h' : reason &&& 0xFFF = reason := by
    rw [show (0xFFF : Nat) = 2 ^ 12 - 1 from rfl, Nat.and_two_pow_sub_one_eq_mod]
    exact Nat.mod_eq_of_lt hreason
  have hlt : reason < 2 ^ 24 := Nat.lt_of_lt_of_le hreason (by decide)
  rw [errPack, h, h', Nat.zero_and, Nat.zero_shiftLeft, Nat.or_zero,
    ← Nat.shiftLeft_add_eq_or_of_lt hlt, Nat.shiftLeft_eq]

/-- The library is read back. -/
theorem errGetLib_errPack {library reason : Nat} (hlib : library < 256) (hreason : reason < 4096) :
    errGetLib (errPack library 0 reason) = library := by
  rw [errGetLib, errPack_eq hlib hreason, Nat.shiftRight_eq_div_pow,
    show (0x0FF : Nat) = 2 ^ 8 - 1 from rfl, Nat.and_two_pow_sub_one_eq_mod]
  omega

/-- And the reason. -/
theorem errGetReason_errPack {library reason : Nat} (hlib : library < 256) (hreason : reason < 4096) :
    errGetReason (errPack library 0 reason) = reason := by
  rw [errGetReason, errPack_eq hlib hreason, show (0xFFF : Nat) = 2 ^ 12 - 1 from rfl,
    Nat.and_two_pow_sub_one_eq_mod]
  omega

/-! ### The queue -/

section

variable {Q : Type} {ffi : ErrQueue Q} {contents : Q → List Entry} {keptLine : Nat → Nat} {q : Q}

/-- What was dropped before is dropped anyway. -/
theorem rtake_append_rtake {α : Type} (n : Nat) (xs ys : List α) :
    (xs.rtake n ++ ys).rtake n = (xs ++ ys).rtake n := by
  have hdrop : xs.rtake n ++ ys = (xs ++ ys).drop (xs.length - n) := by
    rw [List.rtake, List.drop_append_of_le_length (Nat.sub_le _ _)]
  rw [hdrop, List.rtake, List.rtake, List.drop_drop, List.length_drop, List.length_append]
  congr 1
  omega

/-- Where there is room nothing is dropped. -/
theorem rtake_of_length_le {α : Type} {n : Nat} {xs : List α} (h : xs.length ≤ n) : xs.rtake n = xs := by
  rw [List.rtake, Nat.sub_eq_zero_of_le h, List.drop_zero]

/-- Dropping does not look at what is dropped. -/
theorem map_rtake {α β : Type} (f : α → β) (n : Nat) (xs : List α) :
    (xs.rtake n).map f = (xs.map f).rtake n := by
  rw [List.rtake, List.rtake, List.map_drop, List.length_map]

variable (ffi keptLine) in
/-- An error that the queue gives back under the code, file and line that it was put with. -/
structure Sound (e : Error) : Prop where
  packed : errPack (errGetLib e.code) 0 (errGetReason e.code) = e.code
  code : e.code ≠ 0
  sys : ¬ (errGetLib e.code = ffi.errLibSys ∧ errGetReason e.code = 0)
  file : e.file ≠ .null
  line : keptLine e.line = e.line

/-- An error that is packed from a library and a reason is put as it was. -/
theorem Sound.of_packed {library reason : Nat} {file : File} {line : Nat} (hzero : library ≠ 0)
    (hlib : library < 256) (hreason : reason < 4096) (hsys : ¬ (library = ffi.errLibSys ∧ reason = 0))
    (hfile : file ≠ .null) (hline : keptLine line = line) (data : Data) :
    Sound ffi keptLine ⟨errPack library 0 reason, file, line, data⟩ where
  packed := by rw [errGetLib_errPack hlib hreason, errGetReason_errPack hlib hreason]
  code := by
    change errPack library 0 reason ≠ 0
    rw [errPack_eq hlib hreason]
    omega
  sys := by rwa [errGetLib_errPack hlib hreason, errGetReason_errPack hlib hreason]
  file := hfile
  line := hline

/-- What comes back can go again. -/
theorem Sound.entry {e : Error} (he : Sound ffi keptLine e) : Sound ffi keptLine (.ofEntry e.entry) where
  packed := he.packed
  code := he.code
  sys := he.sys
  file := he.file
  line := he.line

/-- The crate's own errors. -/
theorem Sound.internal (hffi : ffi.Keeps contents keptLine) (msg : Data) :
    Sound ffi keptLine (.newInternal ffi msg) := by
  have hsys : ¬ (ffi.errLibNone = ffi.errLibSys ∧ 0 = 0) := fun h => hffi.libNone.2.2 h.1
  have hfile : File.boringInternal ≠ .null := nofun
  exact .of_packed hffi.libNone.1 hffi.libNone.2.1 (by decide) hsys hfile hffi.lineZero msg

/-- An empty queue gives no error. -/
theorem get_none (h : (ffi.getErrorLineData q).1.code = 0) :
    Error.get ffi q = (none, (ffi.getErrorLineData q).2) := if_pos h

/-- Any other gives its oldest. -/
theorem get_some (h : (ffi.getErrorLineData q).1.code ≠ 0) :
    Error.get ffi q = (some (.ofEntry (ffi.getErrorLineData q).1), (ffi.getErrorLineData q).2) := if_neg h

/-- **`ErrorStack::get` empties the queue**, oldest first. -/
theorem getLoop_eq (hffi : ffi.Keeps contents keptLine) {n : Nat} {es : List Entry}
    (hq : contents q = es) (hcodes : ∀ e ∈ es, e.code ≠ 0) (hn : es.length < n) :
    ∃ q', ErrorStack.getLoop ffi n q = some (es.map Error.ofEntry, q') ∧ contents q' = [] := by
  induction es generalizing n q with
  | nil =>
      obtain ⟨n, rfl⟩ := Nat.exists_eq_succ_of_ne_zero (Nat.ne_of_gt hn)
      obtain ⟨hcode, hempty⟩ := hffi.getNil hq
      exact ⟨_, by rw [ErrorStack.getLoop, get_none hcode]; rfl, hempty⟩
  | cons e es ih =>
      obtain ⟨n, rfl⟩ := Nat.exists_eq_succ_of_ne_zero (Nat.ne_of_gt (Nat.zero_lt_of_lt hn))
      obtain ⟨he, hrest⟩ := hffi.getCons hq
      obtain ⟨q', hloop, hempty⟩ := ih hrest (fun e he => hcodes e (List.mem_cons_of_mem _ he))
        (Nat.lt_of_succ_lt_succ hn)
      refine ⟨q', ?_, hempty⟩
      rw [ErrorStack.getLoop, get_some (he ▸ hcodes e List.mem_cons_self)]
      simp only [hloop, Option.map_some, he, List.map_cons]

/-- All of the queue. -/
theorem get_eq (hffi : ffi.Keeps contents keptLine) (hcodes : ∀ e ∈ contents q, e.code ≠ 0) :
    ∃ q', ErrorStack.get ffi q = some ((contents q).map Error.ofEntry, q') ∧ contents q' = [] :=
  getLoop_eq hffi rfl hcodes (Nat.lt_succ_of_le (hffi.bounded q))

/-- An error and then its data. -/
theorem put_data (hffi : ffi.Keeps contents keptLine) {library reason : Nat} {file : File}
    (hsys : ¬ (library = ffi.errLibSys ∧ reason = 0)) (hfile : file ≠ .null) (func line : Nat) (q : Q)
    (data : Option CString) :
    contents (data.elim (ffi.putError library func reason file line q)
        (ffi.addErrorData · (ffi.putError library func reason file line q)))
      = (contents q ++ [Entry.mk (errPack library 0 reason) file (keptLine line) data]).rtake
        ffi.maxErrors := by
  have hput : contents (ffi.putError library func reason file line q) = _ := hffi.put line q hsys hfile
  cases data with
  | none => exact hput
  | some d =>
      obtain ⟨k, hk⟩ := Nat.exists_eq_succ_of_ne_zero (Nat.ne_of_gt hffi.room)
      rw [hk, List.rtake_concat_succ] at hput
      rw [Option.elim_some, hffi.add d hput, hk, List.rtake_concat_succ]

/-- **An error is put back as the entry it came from.** -/
theorem put_error (hffi : ffi.Keeps contents keptLine) {e : Error} (he : Sound ffi keptLine e) (q : Q) :
    contents (e.put ffi q) = (contents q ++ [e.entry]).rtake ffi.maxErrors := by
  have hput := put_data hffi he.sys he.file (errGetFunc e.code) e.line q e.dataCstr
  have hdata : e.put ffi q = e.dataCstr.elim
      (ffi.putError (errGetLib e.code) (errGetFunc e.code) (errGetReason e.code) e.file e.line q)
      (ffi.addErrorData · (ffi.putError (errGetLib e.code) (errGetFunc e.code) (errGetReason e.code)
        e.file e.line q)) := by
    rw [Error.put]
    cases e.dataCstr <;> rfl
  rw [he.packed, he.line] at hput
  rw [hdata]
  exact hput

/-- One by one is all at once. -/
theorem put_eq (hffi : ffi.Keeps contents keptLine) {s : ErrorStack}
    (hs : ∀ e ∈ s, Sound ffi keptLine e) :
    contents (s.put ffi q) = (contents q ++ s.map Error.entry).rtake ffi.maxErrors := by
  induction s generalizing q with
  | nil =>
      rw [List.map_nil, List.append_nil, rtake_of_length_le (hffi.bounded q)]
      rfl
  | cons e s ih =>
      have hrest := ih (q := e.put ffi q) fun e he => hs e (List.mem_cons_of_mem _ he)
      rw [put_error hffi (hs e List.mem_cons_self), rtake_append_rtake, List.append_assoc] at hrest
      exact hrest

/-! ### A thread -/

/-- What was left on the queue, and the stacks that the program has. -/
structure Ledger where
  pending : List Entry
  held : Nat → Option ErrorStack

/-- More on the queue, of which the last `n` stay. -/
def Ledger.push (n : Nat) (es : List Entry) (l : Ledger) : Ledger :=
  { l with pending := (l.pending ++ es).rtake n }

variable (ffi keptLine) in
/-- What comes of them with a call. -/
def note (l : Ledger) : Call × Ret → Ledger
  | (.report library reason file line data, _) =>
      l.push ffi.maxErrors [⟨errPack library 0 reason, .other file, keptLine line, data⟩]
  | (.get, .stack i s) => ⟨[], Function.update l.held i (some s)⟩
  | (.put i, _) => l.push ffi.maxErrors (((l.held i).getD []).map Error.entry)
  | (.internalError _, .stack i s) | (.internalErrorStr _, .stack i s) =>
      { l with held := Function.update l.held i (some s) }
  | (.clear, _) => { l with pending := [] }
  | _ => l

variable (ffi keptLine) in
def ledger (ls : List (Call × Ret)) : Ledger := ls.foldl (note ffi keptLine) ⟨[], fun _ => none⟩

variable (ffi contents keptLine) in
/-- The queue and the program have what they should, and all of it can go to the queue and back. -/
structure Follows (w : World Q) (l : Ledger) : Prop where
  queue : contents w.queue = l.pending
  held : w.held = l.held
  pending : ∀ e ∈ l.pending, Sound ffi keptLine (.ofEntry e)
  sound : ∀ i s, w.held i = some s → ∀ e ∈ s, Sound ffi keptLine e

namespace Follows

variable {w : World Q} {l : Ledger}

/-- The program gets a stack. -/
theorem add (hw : Follows ffi contents keptLine w l) {s : ErrorStack}
    (hs : ∀ e ∈ s, Sound ffi keptLine e) {q : Q} {pending : List Entry} (hq : contents q = pending)
    (hpending : ∀ e ∈ pending, Sound ffi keptLine (.ofEntry e)) :
    Follows ffi contents keptLine (w.add s q).2 ⟨pending, Function.update l.held w.next (some s)⟩ where
  queue := hq
  held := by rw [← hw.held]; rfl
  pending := hpending
  sound i s' hi := by
    change Function.update w.held w.next (some s) i = some s' at hi
    by_cases hnext : i = w.next
    · subst hnext
      rw [Function.update_self] at hi
      exact Option.some.inj hi ▸ hs
    · rw [Function.update_of_ne hnext] at hi
      exact hw.sound i s' hi

/-- The queue is given more. -/
theorem more (hw : Follows ffi contents keptLine w l) {q : Q} {es : List Entry}
    (hes : ∀ e ∈ es, Sound ffi keptLine (.ofEntry e))
    (hq : contents q = (contents w.queue ++ es).rtake ffi.maxErrors) :
    Follows ffi contents keptLine { w with queue := q } (l.push ffi.maxErrors es) where
  queue := by rw [hq, hw.queue, Ledger.push]
  held := hw.held
  pending e he := by
    rcases List.mem_append.mp (List.mem_of_mem_drop he) with he | he
    · exact hw.pending e he
    · exact hes e he
  sound := hw.sound

/-- What `get` gets. -/
theorem get (hffi : ffi.Keeps contents keptLine) (hw : Follows ffi contents keptLine w l) :
    ∃ q, ErrorStack.get ffi w.queue = some (l.pending.map Error.ofEntry, q) ∧ contents q = [] := by
  obtain ⟨q, hget, hempty⟩ := get_eq hffi (q := w.queue) (by
    rw [hw.queue]
    exact fun e he => (hw.pending e he).code)
  exact ⟨q, hw.queue ▸ hget, hempty⟩

/-- What `put` leaves. -/
theorem put (hffi : ffi.Keeps contents keptLine) (hw : Follows ffi contents keptLine w l) {i : Nat}
    {s : ErrorStack} (hi : w.held i = some s) :
    Follows ffi contents keptLine { w with queue := s.put ffi w.queue }
      (l.push ffi.maxErrors (s.map Error.entry)) := by
  refine hw.more (fun x hx => ?_) (put_eq hffi (hw.sound i s hi))
  obtain ⟨e, he, rfl⟩ := List.mem_map.mp hx
  exact (hw.sound i s hi e he).entry

/-- One call. -/
theorem exec (hffi : ffi.Keeps contents keptLine) (hw : Follows ffi contents keptLine w l) (c : Call)
    (hc : c.Allowed ffi w) :
    ∃ r w', Errors.exec ffi c w = some (r, w')
      ∧ Follows ffi contents keptLine w' (note ffi keptLine l (c, r)) := by
  cases c with
  | report library reason file line data =>
      obtain ⟨hzero, hlib, hreason, hsys⟩ := hc
      have hfile : File.other file ≠ .null := nofun
      refine ⟨_, _, rfl, hw.more (fun e he => ?_) (put_data hffi hsys hfile 0 line w.queue data)⟩
      rw [List.mem_singleton.mp he]
      exact .of_packed hzero hlib hreason hsys hfile (hffi.lineKept line) _
  | get =>
      obtain ⟨q, hget, hempty⟩ := hw.get hffi
      refine ⟨_, _, congrArg (Option.map _) hget, hw.add (fun e he => ?_) hempty (List.forall_mem_nil _)⟩
      obtain ⟨x, hx, rfl⟩ := List.mem_map.mp he
      exact hw.pending x hx
  | put i =>
      obtain ⟨s, hi⟩ := Option.ne_none_iff_exists'.mp hc
      refine ⟨_, _, congrArg (Option.map _) hi, ?_⟩
      have hput := hw.put hffi hi
      rw [note, ← hw.held, hi]
      exact hput
  | internalError err =>
      refine ⟨_, _, rfl, hw.add (fun e he => ?_) hw.queue hw.pending⟩
      rw [List.mem_singleton.mp he]
      exact .internal hffi _
  | internalErrorStr message =>
      refine ⟨_, _, rfl, hw.add (fun e he => ?_) hw.queue hw.pending⟩
      rw [List.mem_singleton.mp he]
      exact .internal hffi _
  | clear => exact ⟨_, _, rfl, hffi.clear w.queue, hw.held, List.forall_mem_nil _, hw.sound⟩

/-- Any calls. -/
theorem run (hffi : ffi.Keeps contents keptLine) {q : Q} (hq : contents q = [])
    {ls : List (Call × Ret)} (h : Run (Step ffi) (World.start q) ls w) :
    Follows ffi contents keptLine w (ledger ffi keptLine ls) := by
  induction h with
  | nil => exact ⟨hq, rfl, List.forall_mem_nil _, nofun⟩
  | snoc _ hstep ih =>
      obtain ⟨hallowed, hdone⟩ := hstep
      obtain ⟨r, w', hexec, hfollows⟩ := ih.exec hffi _ hallowed
      rw [hexec] at hdone
      cases Option.some.inj hdone
      rw [ledger, List.foldl_append]
      exact hfollows

end Follows

/-- **Errors come back.**  After any calls, `get` gets what was put on the queue since it was last emptied, the
oldest first, as much as there is room for; and a stack that is put back and got again is seen after that as it
was before, but for texts with a NUL, and is displayed alike if it alone is on the queue, fits, and has no such
text. -/
theorem errors_returned (hffi : ffi.Keeps contents keptLine) (hq : contents q = [])
    {ls : List (Call × Ret)} {w : World Q} (h : Run (Step ffi) (World.start q) ls w) :
    (∃ i w', exec ffi .get w
        = some (.stack i ((ledger ffi keptLine ls).pending.map Error.ofEntry), w'))
      ∧ ∀ i s, w.held i = some s → ∃ w₁ j s' w₂, exec ffi (.put i) w = some (.unit, w₁)
        ∧ exec ffi .get w₁ = some (.stack j s', w₂)
        ∧ s'.map Error.view = ((ledger ffi keptLine ls).pending.map (fun e => (Error.ofEntry e).view)
          ++ s.map Error.crossed).rtake ffi.maxErrors
        ∧ ((ledger ffi keptLine ls).pending = [] → s.length ≤ ffi.maxErrors →
          (∀ e ∈ s, e.crossed = e.view) → ∀ libError reasonError,
            ErrorStack.fmt libError reasonError s' = ErrorStack.fmt libError reasonError s) := by
  have hw := Follows.run hffi hq h
  generalize ledger ffi keptLine ls = l at hw ⊢
  refine ⟨?_, fun i s hi => ?_⟩
  · obtain ⟨q', hget, -⟩ := hw.get hffi
    exact ⟨_, _, congrArg (Option.map _) hget⟩
  · have hput := hw.put hffi hi
    obtain ⟨q', hget, -⟩ := hput.get hffi
    have hviews : ((l.push ffi.maxErrors (s.map Error.entry)).pending.map Error.ofEntry).map Error.view
        = (l.pending.map (fun e => (Error.ofEntry e).view) ++ s.map Error.crossed).rtake ffi.maxErrors := by
      rw [Ledger.push, List.map_map, map_rtake, List.map_append, List.map_map]
      congr 2
      exact List.map_congr_left fun e _ => Error.view_ofEntry e
    refine ⟨_, _, _, _, congrArg (Option.map _) hi, congrArg (Option.map _) hget, hviews,
      fun hnone hfits hplain libError reasonError => ErrorStack.fmt_eq ?_⟩
    rw [hviews, hnone, List.map_nil, List.nil_append, List.map_congr_left hplain]
    exact rtake_of_length_le (by rwa [List.length_map])

end

/-! ### Two errors -/

/-- A queue is never longer than its room. -/
theorem length_rtake_le {α : Type} (n : Nat) (xs : List α) : (xs.rtake n).length ≤ n := by
  rw [List.rtake, List.length_drop]
  omega

abbrev Two : Type := { es : List Entry // es.length ≤ 2 }

def Two.last (es : List Entry) : Two := ⟨es.rtake 2, length_rtake_le 2 es⟩

/-- The last two errors, with lines of 16 bits. -/
def lastTwo : ErrQueue Two where
  errLibNone := 1
  errLibSys := 2
  maxErrors := 2
  getErrorLineData q := (q.1.head?.getD ⟨0, .null, 0, none⟩, .last q.1.tail)
  putError library _ reason file line q :=
    .last (q.1 ++ [⟨errPack library 0 reason, file, line % 65536, none⟩])
  addErrorData d q := .last (q.1.dropLast ++ q.1.getLast?.toList.map fun e => { e with data := some d })
  clearError _ := .last []

/-- A queue of two entries, which keeps the last 16 bits of a line. -/
theorem lastTwo_keeps : lastTwo.Keeps Subtype.val (· % 65536) where
  room := by decide
  bounded q := q.2
  libNone := by decide
  lineZero := rfl
  lineKept n := Nat.mod_mod n 65536
  getNil {q} h := by
    simp only [lastTwo, h]
    exact ⟨rfl, rfl⟩
  getCons {q e es} h := by
    have hq := q.2
    rw [h, List.length_cons] at hq
    simp only [lastTwo, h]
    exact ⟨rfl, rtake_of_length_le (Nat.le_of_succ_le hq)⟩
  put _ _ _ _ := rfl
  add {q es e} d h := by
    have hq := q.2
    rw [h, List.length_append] at hq
    simp only [lastTwo, h, List.dropLast_concat, List.getLast?_concat]
    exact rtake_of_length_le (by simpa using hq)
  clear _ := rfl

/-- The crate's own error is put on the queue, and another is reported. -/
def greeting : List (Call × Ret) :=
  [(.internalErrorStr "hello, btls", .stack 0 (.internalErrorStr lastTwo "hello, btls")), (.put 0, .unit),
    (.report 20 1 0 7 none, .unit)]

/-- The run ends with the error of the application. -/
theorem greeting_run :
    ∃ w, Run (Step lastTwo) (World.start (.last [])) greeting w
      ∧ w.held 0 = some (.internalErrorStr lastTwo "hello, btls") :=
  ⟨_, .snoc (.snoc (.snoc (.nil _) ⟨trivial, rfl⟩) ⟨nofun, rfl⟩)
    ⟨⟨by decide, by decide, by decide, fun h => absurd h.2 (by decide)⟩, rfl⟩, rfl⟩

/-- Both errors come back, the one with its text. -/
theorem errors_returned_greeting :
    ∃ w, Run (Step lastTwo) (World.start (.last [])) greeting w
      ∧ ∃ w₁ j s' w₂, exec lastTwo (.put 0) w = some (.unit, w₁)
        ∧ exec lastTwo .get w₁ = some (.stack j s', w₂)
        ∧ s'.map Error.view = [⟨errPack 20 0 1, .other 0, 7, none⟩,
          ⟨errPack 1 0 0, .boringInternal, 0, some "hello, btls"⟩] := by
  obtain ⟨w, hr, hheld⟩ := greeting_run
  obtain ⟨-, hput⟩ := errors_returned lastTwo_keeps rfl hr
  obtain ⟨w₁, j, s', w₂, hw₁, hw₂, hviews, -⟩ := hput 0 _ hheld
  exact ⟨w, hr, w₁, j, s', w₂, hw₁, hw₂, hviews.trans (by decide +kernel)⟩

end Btls.Errors
