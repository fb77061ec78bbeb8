import Btls.Support.Boxes
import Btls.Support.Runs

/-!
# ExData — Access

The extra data of contexts, connections, credentials and X.509 store contexts.  BoringSSL keeps a
pointer at each index of an object; the crate puts a box there, and casts the pointer back to the
type that the `Index<_, T>` names.  Whether that type is the right one, and the box still there, is
for the crate to see to: an access that is not all right is `none`.

An `Addr` names a box, and no two boxes share one.  In the program that is an address, except that
all boxes of a type without a size dangle alike: they are told apart here, and not there.
-/

namespace Btls.ExData

open Btls.Support

/-- What has extra data. -/
inductive Class where
  | sslContext
  | ssl
  | sslCredential
  | x509StoreContext
  deriving DecidableEq

structure Obj where
  cls : Class
  ptr : Nat
  deriving DecidableEq

/-- `Index<T, U>`. -/
structure Index (Ty : Type) where
  cls : Class
  ty : Ty
  raw : Int
  deriving DecidableEq

/-- The `*_get_ex_new_index`, `*_set_ex_data`, `*_get_ex_data` and `*_free` of BoringSSL.  An index is
registered with a function that frees what is there, which is `free_data_box::<T>` for some `T`; freeing an
object calls each on what the object has at its index. -/
structure CryptoExData (Ty σ : Type) where
  getExNewIndex : Class → Ty → σ → Int × σ
  setExData : Obj → Int → Addr → σ → Bool × σ
  getExData : σ → Obj → Int → Option Addr
  freeObj : Obj → σ → List (Ty × Option Addr) × σ
  registered : σ → Class → Int → Option Ty

/-- Indexes are new, and empty; what is set is there until the object is freed, and nothing else is. -/
structure CryptoExData.Keeps {Ty σ : Type} (ffi : CryptoExData Ty σ) : Prop where
  noIndex : ∀ c t s, (ffi.getExNewIndex c t s).1 < 0 →
    ffi.registered (ffi.getExNewIndex c t s).2 = ffi.registered s
      ∧ ffi.getExData (ffi.getExNewIndex c t s).2 = ffi.getExData s
  newIndex : ∀ c t s, 0 ≤ (ffi.getExNewIndex c t s).1 →
    ffi.registered s c (ffi.getExNewIndex c t s).1 = none
      ∧ (∀ c' i, ffi.registered (ffi.getExNewIndex c t s).2 c' i
        = if c' = c ∧ i = (ffi.getExNewIndex c t s).1 then some t else ffi.registered s c' i)
      ∧ ffi.getExData (ffi.getExNewIndex c t s).2 = ffi.getExData s
  set_registered : ∀ o i p s, ffi.registered (ffi.setExData o i p s).2 = ffi.registered s
  set_get : ∀ o i p s o' i', ffi.getExData (ffi.setExData o i p s).2 o' i'
    = if (ffi.setExData o i p s).1 ∧ o' = o ∧ i' = i then some p else ffi.getExData s o' i'
  free_calls : ∀ o s, ∃ is : List Int, is.Nodup ∧ (∀ i, i ∈ is ↔ ffi.registered s o.cls i ≠ none)
    ∧ (ffi.freeObj o s).1
      = is.filterMap fun i => (ffi.registered s o.cls i).map fun t => (t, ffi.getExData s o i)
  free_registered : ∀ o s, ffi.registered (ffi.freeObj o s).2 = ffi.registered s
  free_get : ∀ o s o' i, ffi.getExData (ffi.freeObj o s).2 o' i
    = if o' = o then none else ffi.getExData s o' i

/-! ### The functions -/

section

variable {Ty σ : Type} [DecidableEq Ty] {El : Ty → Type}

/-- The boxes, what BoringSSL keeps, `INDEXES` and its like, and the indexes that there are. -/
structure World (σ : Type) {Ty : Type} (El : Ty → Type) where
  boxes : Boxes El
  ex : σ
  cached : Class → Ty → Option Int
  indexes : List (Index Ty)

variable (ffi : CryptoExData Ty σ) (malloc : Boxes El → Addr)

/-- `new_ex_index`. -/
def newExIndex (c : Class) (t : Ty) (w : World σ El) : Option (Index Ty) × World σ El :=
  let (raw, ex) := ffi.getExNewIndex c t w.ex
  if raw < 0 then (none, { w with ex := ex })
  else (some ⟨c, t, raw⟩, { w with ex := ex, indexes := ⟨c, t, raw⟩ :: w.indexes })

/-- `cached_ex_index`.  `none` is the panic where there is no new index, which leaves the map as it was. -/
def cachedExIndex (c : Class) (t : Ty) (w : World σ El) : Option (Index Ty) × World σ El :=
  match w.cached c t with
  | some raw => (some ⟨c, t, raw⟩, w)
  | none =>
      match newExIndex ffi c t w with
      | (none, w) => (none, w)
      | (some idx, w) =>
          (some idx,
            { w with cached := fun c' t' => if c' = c ∧ t' = t then some idx.raw else w.cached c' t' })

/-- `ex_data`. -/
def exData (o : Obj) (idx : Index Ty) (w : World σ El) : Option (Option (El idx.ty)) :=
  match ffi.getExData w.ex o idx.raw with
  | none => some none
  | some p => (Boxes.read idx.ty w.boxes p).map some

/-- `SslContextRef::set_ex_data`, and the end of the others: nobody looks at what BoringSSL returns. -/
def setBox (o : Obj) (idx : Index Ty) (data : El idx.ty) (w : World σ El) : World σ El :=
  { w with
    boxes := w.boxes.insert (malloc w.boxes) ⟨idx.ty, data⟩
    ex := (ffi.setExData o idx.raw (malloc w.boxes) w.ex).2 }

/-- `replace_ex_data`: `ex_data_mut` and `mem::replace`, or a new box. -/
def replaceExData (o : Obj) (idx : Index Ty) (data : El idx.ty) (w : World σ El) :
    Option (Option (El idx.ty) × World σ El) :=
  match ffi.getExData w.ex o idx.raw with
  | some p => (Boxes.replace w.boxes p data).map fun (old, boxes) => (some old, { w with boxes := boxes })
  | none => some (none, setBox ffi malloc o idx data w)

/-- What a program does with extra data.  `set_ex_data` of a context drops what `replace_ex_data` returns;
that of a connection or a store context puts the value in the place of what it drops. -/
inductive Call (El : Ty → Type) where
  | newExIndex (c : Class) (t : Ty)
  | cachedExIndex (c : Class) (t : Ty)
  | exData (o : Obj) (idx : Index Ty)
  | replaceExData (o : Obj) (idx : Index Ty) (data : El idx.ty)
  | setExData (o : Obj) (idx : Index Ty) (data : El idx.ty)
  | free (o : Obj)

inductive Ret (El : Ty → Type) where
  | unit
  | index (idx : Option (Index Ty))
  | data (v : Option (Val El))

/-- What comes of a call: what it returns, and what it drops. -/
structure Done (El : Ty → Type) where
  ret : Ret El
  dropped : List (Val El)

def exec : Call El → World σ El → Option (Done El × World σ El)
  | .newExIndex c t, w => let (idx, w) := newExIndex ffi c t w; some (⟨.index idx, []⟩, w)
  | .cachedExIndex c t, w => let (idx, w) := cachedExIndex ffi c t w; some (⟨.index idx, []⟩, w)
  | .exData o idx, w => (exData ffi o idx w).map fun x => (⟨.data (x.map (⟨idx.ty, ·⟩)), []⟩, w)
  | .replaceExData o idx data, w =>
      (replaceExData ffi malloc o idx data w).map fun (old, w) => (⟨.data (old.map (⟨idx.ty, ·⟩)), []⟩, w)
  | .setExData o idx data, w =>
      (replaceExData ffi malloc o idx data w).map fun (old, w) =>
        (⟨.unit, (old.map (⟨idx.ty, ·⟩)).toList⟩, w)
  | .free o, w =>
      let (calls, ex) := ffi.freeObj o w.ex
      (Boxes.freeAll calls w.boxes).map fun (dropped, boxes) =>
        (⟨.unit, dropped⟩, { w with boxes := boxes, ex := ex })

/-- A program has only the indexes that it was given, and an `Index<T, _>` is for a `T`. -/
def Call.Allowed (w : World σ El) : Call El → Prop
  | .exData o idx | .replaceExData o idx _ | .setExData o idx _ => idx ∈ w.indexes ∧ idx.cls = o.cls
  | .newExIndex _ _ | .cachedExIndex _ _ | .free _ => True

/-- A call that is all right. -/
def Step (w : World σ El) (l : Call El × Done El) (w' : World σ El) : Prop :=
  l.1.Allowed w ∧ exec ffi malloc l.1 w = some (l.2, w')

/-- Before any. -/
structure Initial (w : World σ El) : Prop where
  boxes : w.boxes = ∅
  empty : ∀ o i, ffi.getExData w.ex o i = none
  cached : ∀ c t, w.cached c t = none
  indexes : w.indexes = []

end

end Btls.ExData
