import Btls.Support.Bytes
import Btls.Support.Panic
import Btls.Support.Runs

/-!
# Hash — Hasher

A `Hasher` is a context of BoringSSL, and a state that says whether the context has to be
initialised before it is used again.  Hashers are updated, finished, cloned and dropped in any
order, and the calls below may fail; a digest is of the bytes that its hasher took since its last
one, those it was cloned with included (`digests_served`).

BoringSSL's contexts are a parameter, in a memory of their own, and what its functions are
documented to do with them is a hypothesis.  A call on a context that is not there, or was not
initialised, is `none`, as is an assertion that fails.  A program has the hashers that it was given,
each under its address, and `Call.Allowed` says that it uses no others.
-/

namespace Btls.Hash

open Btls.Support

/-- The `EVP_MD_CTX_*` and `EVP_Digest*` of BoringSSL, on contexts `C`; the outside `σ` decides which calls
fail.  `none` is a context that must not be used so. -/
structure EvpDigest (D C σ : Type) where
  maxMdSize : Nat
  ctxNew : σ → Option C × σ
  initEx : C → D → σ → Bool × C × σ
  update : C → Bytes → σ → Option (Bool × C × σ)
  finalEx : C → σ → Option (Option Bytes × C × σ)
  finalXof : C → Nat → σ → Option (Option Bytes × C × σ)
  copyEx : C → C → σ → Bool × C × σ
  free : C → σ → σ

/-- A context that is initialised computes a function of what it took in; a call that fails leaves that as it
was. -/
structure EvpDigest.Computes {D C σ : Type} (ffi : EvpDigest D C σ) (absorbed : C → Option (D × Bytes))
    (digest : D → Bytes → Bytes) (xof : D → Bytes → Nat → Bytes) : Prop where
  init : ∀ c d s, (ffi.initEx c d s).1 = true → absorbed (ffi.initEx c d s).2.1 = some (d, [])
  update : ∀ {c d bs}, absorbed c = some (d, bs) → ∀ data s, ∃ ok c' s',
    ffi.update c data s = some (ok, c', s') ∧ absorbed c' = some (d, if ok then bs ++ data else bs)
  final : ∀ {c d bs}, absorbed c = some (d, bs) → ∀ s, ∃ out c' s', ffi.finalEx c s = some (out, c', s')
    ∧ (out = some (digest d bs) ∨ out = none ∧ absorbed c' = some (d, bs))
  finalXof : ∀ {c d bs}, absorbed c = some (d, bs) → ∀ n s, ∃ out c' s',
    ffi.finalXof c n s = some (out, c', s')
      ∧ (out = some (xof d bs n) ∨ out = none ∧ absorbed c' = some (d, bs))
  copy : ∀ {c d bs}, absorbed c = some (d, bs) → ∀ c₀ s, (ffi.copyEx c₀ c s).1 = true →
    absorbed (ffi.copyEx c₀ c s).2.1 = some (d, bs)
  size : ∀ d bs, (digest d bs).length ≤ ffi.maxMdSize
  xofSize : ∀ d bs n, (xof d bs n).length = n

inductive State where
  | reset
  | updated
  | finalized
  deriving DecidableEq

structure Hasher (D C : Type) where
  ctx : C
  md : D
  state : State

structure DigestBytes where
  buf : Bytes
  len : Nat

def DigestBytes.deref (b : DigestBytes) : Option Bytes := sliceTo b.buf b.len

section

variable {D C σ α β : Type}

/-- How a call on a hasher ends: with an error or a value, the hasher and the outside. -/
abbrev Ended (D C σ α : Type) : Type := Option (Option α × Hasher D C × σ)

/-- `?`. -/
def Ended.andThen (x : Ended D C σ α) (f : α → Hasher D C → σ → Ended D C σ β) : Ended D C σ β :=
  x.bind fun (r, h, s) =>
    match r with
    | some a => f a h s
    | none => some (none, h, s)

variable (ffi : EvpDigest D C σ)

/-! ### The hasher -/

/-- The end of `init`. -/
def initEx (h : Hasher D C) (s : σ) : Ended D C σ Unit :=
  match ffi.initEx h.ctx h.md s with
  | (true, ctx, s) => some (some (), { h with ctx := ctx, state := .reset }, s)
  | (false, ctx, s) => some (none, { h with ctx := ctx }, s)

/-- `if self.state == Finalized { self.init()?; }`.  It and `init` call each other in the source, but it does
so only where `init` goes straight to its end. -/
def ready (h : Hasher D C) (s : σ) : Ended D C σ Unit :=
  if h.state = .finalized then initEx ffi h s else some (some (), h, s)

/-- `finish`. -/
def finish (h : Hasher D C) (s : σ) : Ended D C σ DigestBytes :=
  Ended.andThen (ready ffi h s) fun _ h s =>
    (ffi.finalEx h.ctx s).bind fun (out, ctx, s) =>
      match out with
      | some out =>
          (copyInto (List.replicate ffi.maxMdSize 0) 0 out).map fun buf =>
            (some ⟨buf, out.length⟩, { h with ctx := ctx, state := .finalized }, s)
      | none => some (none, { h with ctx := ctx }, s)

/-- `init`. -/
def init (h : Hasher D C) (s : σ) : Ended D C σ Unit :=
  match h.state with
  | .reset => some (some (), h, s)
  | .updated => Ended.andThen (finish ffi h s) fun _ h s => initEx ffi h s
  | .finalized => initEx ffi h s

/-- `update`. -/
def update (h : Hasher D C) (data : Bytes) (s : σ) : Ended D C σ Unit :=
  Ended.andThen (ready ffi h s) fun _ h s =>
    (ffi.update h.ctx data s).map fun (ok, ctx, s) =>
      if ok then (some (), { h with ctx := ctx, state := .updated }, s)
      else (none, { h with ctx := ctx }, s)

/-- `finish_xof`, with what it leaves in the buffer. -/
def finishXof (h : Hasher D C) (buf : Bytes) (s : σ) : Ended D C σ Bytes :=
  Ended.andThen (ready ffi h s) fun _ h s =>
    (ffi.finalXof h.ctx buf.length s).bind fun (out, ctx, s) =>
      match out with
      | some out =>
          (copyInto buf 0 out).map fun buf =>
            (some buf, { h with ctx := ctx, state := .finalized }, s)
      | none => some (none, { h with ctx := ctx }, s)

/-- `drop`. -/
def drop (h : Hasher D C) (s : σ) : Option σ :=
  if h.state = .finalized then some (ffi.free h.ctx s)
  else (finish ffi h s).map fun (_, h, s) => ffi.free h.ctx s

/-- `Hasher::new`.  A hasher that cannot be initialised is dropped. -/
def new (ty : D) (s : σ) : Option (Option (Hasher D C) × σ) :=
  match ffi.ctxNew s with
  | (none, s) => some (none, s)
  | (some ctx, s) =>
      (init ffi ⟨ctx, ty, .finalized⟩ s).bind fun (r, h, s) =>
        match r with
        | some _ => some (some h, s)
        | none => (drop ffi h s).map fun s => (none, s)

/-- `clone`.  No hasher is a panic. -/
def clone (h : Hasher D C) (s : σ) : Option (Hasher D C) × σ :=
  match ffi.ctxNew s with
  | (none, s) => (none, s)
  | (some ctx, s) =>
      match ffi.copyEx ctx h.ctx s with
      | (true, ctx, s) => (some ⟨ctx, h.md, h.state⟩, s)
      | (false, _, s) => (none, s)

/-- What `hash` and `hash_xof` do: a hasher for one message. -/
def oneShot (ty : D) (data : Bytes) (fin : Hasher D C → σ → Ended D C σ α) (s : σ) :
    Option (Option α × σ) :=
  (new ffi ty s).bind fun (h, s) =>
    match h with
    | none => some (none, s)
    | some h =>
        (Ended.andThen (update ffi h data s) fun _ h s => fin h s).bind fun (r, h, s) =>
          (drop ffi h s).map fun s => (r, s)

def hash (t : D) (data : Bytes) (s : σ) : Option (Option DigestBytes × σ) :=
  oneShot ffi t data (finish ffi) s

def hashXof (t : D) (data buf : Bytes) (s : σ) : Option (Option Bytes × σ) :=
  oneShot ffi t data (fun h s => finishXof ffi h buf s) s

/-! ### Programs -/

/-- What a program does with hashers, each of which has a number.  The `write` of a hasher is its
`update`. -/
inductive Call (D : Type) where
  | new (ty : D)
  | update (i : Nat) (data : Bytes)
  | finish (i : Nat)
  | finishXof (i : Nat) (buf : Bytes)
  | clone (i : Nat)
  | drop (i : Nat)
  | hash (t : D) (data : Bytes)
  | hashXof (t : D) (data buf : Bytes)

inductive Ret where
  | unit
  | err
  | panic
  | made (i : Nat)
  | digest (b : DigestBytes)
  | filled (buf : Bytes)

structure World (D C σ : Type) where
  hashers : Nat → Option (Hasher D C)
  next : Nat
  env : σ

def World.start (s : σ) : World D C σ := ⟨fun _ => none, 0, s⟩

def World.put (w : World D C σ) (i : Nat) (h : Option (Hasher D C)) (s : σ) : World D C σ :=
  { w with hashers := Function.update w.hashers i h, env := s }

/-- With a hasher under a new number. -/
def World.add (w : World D C σ) (h : Hasher D C) (s : σ) : World D C σ :=
  ⟨Function.update w.hashers w.next (some h), w.next + 1, s⟩

/-- A call on the hasher `i`, which is there. -/
def onHasher (i : Nat) (f : Hasher D C → σ → Ended D C σ α) (ret : α → Ret) (w : World D C σ) :
    Option (Ret × World D C σ) :=
  (w.hashers i).bind fun h =>
    (f h w.env).map fun (r, h, s) => ((r.map ret).getD .err, w.put i (some h) s)

def exec : Call D → World D C σ → Option (Ret × World D C σ)
  | .new ty, w =>
      (new ffi ty w.env).map fun (h, s) =>
        match h with
        | some h => (.made w.next, w.add h s)
        | none => (.err, { w with env := s })
  | .update i data, w => onHasher i (fun h s => update ffi h data s) (fun _ => .unit) w
  | .finish i, w => onHasher i (finish ffi) .digest w
  | .finishXof i buf, w => onHasher i (fun h s => finishXof ffi h buf s) .filled w
  | .clone i, w =>
      (w.hashers i).map fun h =>
        match clone ffi h w.env with
        | (some h, s) => (.made w.next, w.add h s)
        | (none, s) => (.panic, { w with env := s })
  | .drop i, w =>
      (w.hashers i).bind fun h => (drop ffi h w.env).map fun s => (.unit, w.put i none s)
  | .hash t data, w =>
      (hash ffi t data w.env).map fun (r, s) => ((r.map Ret.digest).getD .err, { w with env := s })
  | .hashXof t data buf, w =>
      (hashXof ffi t data buf w.env).map fun (r, s) => ((r.map Ret.filled).getD .err, { w with env := s })

/-- A program has only the hashers that it was given and has not dropped. -/
def Call.Allowed (w : World D C σ) : Call D → Prop
  | .update i _ | .finish i | .finishXof i _ | .clone i | .drop i => w.hashers i ≠ none
  | .new _ | .hash _ _ | .hashXof _ _ _ => True

def Step (w : World D C σ) (l : Call D × Ret) (w' : World D C σ) : Prop :=
  l.1.Allowed w ∧ exec ffi l.1 w = some (l.2, w')

end

end Btls.Hash
