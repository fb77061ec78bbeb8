import Btls.Support.Boxes
import Btls.Support.Refs
import Btls.Support.Runs

/-!
# Stack — Stack

A `Stack<T>` is a list of pointers that BoringSSL keeps, and owns a reference to a `T` for each.  A
program pushes, pops and looks up its `T`s, and turns stacks into iterators that hand them out from
both ends and leave the pointers in the list; a stack and such an iterator release what is still
theirs when they are dropped.

`OpensslSk` is BoringSSL's half, in a memory of its own, and `OpensslSk.Keeps` that it keeps lists;
a push may fail.  A `World` counts the references to each `T`, so a use of one that has been
released is `none`, and so is a stack that is not there.  `Call.Allowed` is what Rust lets a program
do: it has only what it was given and has not given away.
-/

namespace Btls.Stack

open Btls.Support

/-- The `OPENSSL_sk_*` of BoringSSL, in a memory `σ`, with pointers `T`.  `none` is no stack. -/
structure OpensslSk (T σ : Type) where
  newNull : σ → Option Addr × σ
  num : Addr → σ → Option Nat
  value : Addr → Nat → σ → Option (Option T)
  push : Addr → T → σ → Option (Bool × σ)
  pop : Addr → σ → Option (Option T × σ)
  free : Addr → σ → Option σ

/-- They keep lists.  A push may fail, and then does nothing. -/
structure OpensslSk.Keeps {T σ : Type} (ffi : OpensslSk T σ) (lists : σ → Addr → Option (List T)) :
    Prop where
  newNull : ∀ {p s s'}, ffi.newNull s = (some p, s') →
    lists s p = none ∧ lists s' = Function.update (lists s) p (some [])
  noMemory : ∀ {s s'}, ffi.newNull s = (none, s') → lists s' = lists s
  num : ∀ {p l s}, lists s p = some l → ffi.num p s = some l.length
  value : ∀ {p l s}, lists s p = some l → ∀ i, ffi.value p i s = some l[i]?
  push : ∀ {p l s}, lists s p = some l → ∀ e, ∃ ok s', ffi.push p e s = some (ok, s')
    ∧ lists s' = if ok then Function.update (lists s) p (some (l ++ [e])) else lists s
  pop : ∀ {p l s}, lists s p = some l → ∃ s', ffi.pop p s = some (l.getLast?, s')
    ∧ lists s' = Function.update (lists s) p (some l.dropLast)
  free : ∀ {p l s}, lists s p = some l → ∃ s', ffi.free p s = some s'
    ∧ lists s' = Function.update (lists s) p none

/-! ### Ranges -/

/-- A `Range<size_t>`. -/
structure Range where
  start : Nat
  stop : Nat

/-- Which end an iterator is asked at: `next` or `next_back`. -/
inductive Turn where
  | front
  | back

def Range.turn : Turn → Range → Option Nat × Range
  | .front, r => if r.start < r.stop then (some r.start, { r with start := r.start + 1 }) else (none, r)
  | .back, r => if r.start < r.stop then (some (r.stop - 1), { r with stop := r.stop - 1 }) else (none, r)

/-! ### Stacks -/

/-- What a program owns through a pointer to a stack: a `Stack`, or an `IntoIter`. -/
inductive Owner where
  | stack
  | intoIter (idxs : Range)

/-- The references there are to each `T`, the memory of BoringSSL's stacks, the program's own `T`s, and its
stacks and iterators by their pointers. -/
structure World (T σ : Type) where
  refs : T → Nat
  mem : σ
  hands : List T
  owners : Addr → Option Owner

section

variable {T σ S : Type} [DecidableEq T]

/-- A `&T::Ref`, which must be to something. -/
def World.borrow (w : World T σ) (e : T) : Option T := if w.refs e = 0 then none else some e

/-- Drops a `T`. -/
def World.release (e : T) (w : World T σ) : Option (World T σ) :=
  if w.refs e = 0 then none else some { w with refs := Refs.down e w.refs }

variable (ffi : OpensslSk T σ)

def len (p : Addr) (w : World T σ) : Option Nat := ffi.num p w.mem

/-- The pointer at an index, which must not be null. -/
def _get (p : Addr) (idx : Nat) (w : World T σ) : Option T := (ffi.value p idx w.mem).bind id

def get (p : Addr) (idx : Nat) (w : World T σ) : Option (Option T) :=
  (len ffi p w).bind fun n =>
    if idx ≥ n then some none else (_get ffi p idx w).bind fun e => (w.borrow e).map some

/-- Whether it is pushed; if not, `data` is dropped. -/
def push (p : Addr) (data : T) (w : World T σ) : Option (Bool × World T σ) :=
  (ffi.push p data w.mem).bind fun (ok, mem) =>
    if ok then some (true, { w with mem := mem })
    else ({ w with mem := mem }.release data).map fun w => (false, w)

def pop (p : Addr) (w : World T σ) : Option (Option T × World T σ) :=
  (ffi.pop p w.mem).map fun (e, mem) => (e, { w with mem := mem })

/-- `next` and `next_back` of an iterator over the indices. -/
def next (t : Turn) (p : Addr) (idxs : Range) (w : World T σ) : Option (Option T × Range) :=
  match idxs.turn t with
  | (some i, idxs) => (_get ffi p i w).map fun e => (some e, idxs)
  | (none, idxs) => some (none, idxs)

/-- What an `Iter`, or an `IterMut`, answers when asked so. -/
def iterate (p : Addr) (w : World T σ) : List Turn → Range → Option (List (Option T))
  | [], _ => some []
  | t :: ts, idxs =>
      (next ffi t p idxs w).bind fun (e, idxs) =>
        (e.elim (some none) fun e => (w.borrow e).map some).bind fun e =>
          (iterate p w ts idxs).map (e :: ·)

/-- Drops what comes, until nothing does.  No result is for more rounds than that. -/
def drain (step : S → Option (Option T × S)) (release : T → S → Option S) : Nat → S → Option S
  | 0, _ => none
  | n + 1, s =>
      (step s).bind fun (e, s) =>
        match e with
        | some e => (release e s).bind (drain step release n)
        | none => some s

/-- `drop` of a `Stack`. -/
def dropStack (p : Addr) (w : World T σ) : Option (World T σ) := do
  let n ← len ffi p w
  let w ← drain (pop ffi p) World.release (n + 1) w
  let mem ← ffi.free p w.mem
  return { w with mem := mem }

/-- A round of the loop in the `drop` of an `IntoIter`. -/
def advance (p : Addr) (s : Range × World T σ) : Option (Option T × Range × World T σ) :=
  (next ffi .front p s.1 s.2).map fun (e, idxs) => (e, idxs, s.2)

/-- `drop` of an `IntoIter`. -/
def dropIntoIter (p : Addr) (idxs : Range) (w : World T σ) : Option (World T σ) := do
  let (_, w) ← drain (advance ffi p) (fun e s => (s.2.release e).map (s.1, ·))
    (idxs.stop - idxs.start + 1) (idxs, w)
  let mem ← ffi.free p w.mem
  return { w with mem := mem }

/-! ### Programs -/

/-- What a program does with `T`s, stacks and iterators. -/
inductive Call (T : Type) where
  /-- gets a `T`: a new one, or a clone -/
  | acquire (e : T)
  | drop (e : T)
  | new
  | len (p : Addr)
  | get (p : Addr) (idx : Nat)
  | index (p : Addr) (idx : Nat)
  | push (p : Addr) (data : T)
  | pop (p : Addr)
  | iter (p : Addr) (ts : List Turn)
  | intoIter (p : Addr)
  | next (p : Addr) (t : Turn)
  | sizeHint (p : Addr)
  | dropStack (p : Addr)
  | dropIntoIter (p : Addr)

inductive Ret (T : Type) where
  | unit
  | err
  | panic
  | made (p : Addr)
  | len (n : Nat)
  | elem (e : Option T)
  | elems (es : List (Option T))

def World.start (s : σ) : World T σ := ⟨fun _ => 0, s, [], fun _ => none⟩

def World.own (w : World T σ) (p : Addr) (o : Option Owner) : World T σ :=
  { w with owners := Function.update w.owners p o }

/-- The indices of the iterator. -/
def World.idxs (w : World T σ) (p : Addr) : Option Range :=
  match w.owners p with
  | some (.intoIter idxs) => some idxs
  | _ => none

/-- With what the program was handed. -/
def World.hand (w : World T σ) (e : Option T) : World T σ := { w with hands := e.toList ++ w.hands }

def exec : Call T → World T σ → Option (Ret T × World T σ)
  | .acquire e, w => some (.unit, { w with refs := Refs.up e w.refs, hands := e :: w.hands })
  | .drop e, w => ({ w with hands := w.hands.erase e }.release e).map fun w => (.unit, w)
  | .new, w =>
      match ffi.newNull w.mem with
      | (some p, mem) => some (.made p, { w with mem := mem }.own p (some .stack))
      | (none, mem) => some (.err, { w with mem := mem })
  | .len p, w => (len ffi p w).map fun n => (.len n, w)
  | .get p idx, w => (get ffi p idx w).map fun e => (.elem e, w)
  | .index p idx, w =>
      (get ffi p idx w).map fun e => (e.elim .panic fun e => .elem (some e), w)
  | .push p data, w =>
      (push ffi p data { w with hands := w.hands.erase data }).map fun (ok, w) =>
        (if ok then .unit else .err, w)
  | .pop p, w => (pop ffi p w).map fun (e, w) => (.elem e, w.hand e)
  | .iter p ts, w =>
      (len ffi p w).bind fun n => (iterate ffi p w ts ⟨0, n⟩).map fun es => (.elems es, w)
  | .intoIter p, w =>
      (len ffi p w).map fun n => (.unit, w.own p (some (.intoIter ⟨0, n⟩)))
  | .next p t, w =>
      (w.idxs p).bind fun idxs =>
        (next ffi t p idxs w).map fun (e, idxs) => (.elem e, (w.own p (some (.intoIter idxs))).hand e)
  | .sizeHint p, w => (w.idxs p).map fun idxs => (.len (idxs.stop - idxs.start), w)
  | .dropStack p, w => (dropStack ffi p w).map fun w => (.unit, w.own p none)
  | .dropIntoIter p, w =>
      (w.idxs p).bind fun idxs => (dropIntoIter ffi p idxs w).map fun w => (.unit, w.own p none)

/-- A program has only the `T`s, stacks and iterators that it was given and has not given away. -/
def Call.Allowed (w : World T σ) : Call T → Prop
  | .acquire _ | .new => True
  | .drop e => e ∈ w.hands
  | .push p data => w.owners p = some .stack ∧ data ∈ w.hands
  | .len p | .get p _ | .index p _ | .pop p | .iter p _ | .intoIter p | .dropStack p =>
      w.owners p = some .stack
  | .next p _ | .sizeHint p | .dropIntoIter p => ∃ idxs, w.owners p = some (.intoIter idxs)

def Step (w : World T σ) (l : Call T × Ret T) (w' : World T σ) : Prop :=
  l.1.Allowed w ∧ exec ffi l.1 w = some (l.2, w')

end

end Btls.Stack
