import Btls.ExData.Access

/-!
# ExData — Ownership

What the extra data of an object is for: a store of values by index (`Store`), each of the type of
its index, which belong to the object.  The casts find what the store says (`Linked`), so no access
goes wrong and every call does what is promised of it (`calls_served`); and a value that was put in
comes out once, or is still there (`values_conserved`).

The store is the account that the code is compared with: it has no pointers and no casts.  Each
function of the crate is one step of it (`exec_served`): a value that is replaced is handed back,
one that is set over is dropped, and freeing an object drops what it has at each index, once.
BoringSSL may be out of memory: then there is no new index, or a pointer is not stored and its box
is left behind, which is the one way in which a value is not dropped.
-/

namespace Btls.ExData

open Btls.Support

variable {Ty σ : Type} {El : Ty → Type}

/-! ### The store -/

/-- What an object has at an index, the indexes that there are, and the one that stands for a type. -/
structure Store (El : Ty → Type) where
  data : Obj → Int → Option (Val El)
  known : List (Index Ty)
  cached : Class → Ty → Option Int

namespace Store

/-- No index so far is this one. -/
def Unused (s : Store El) (c : Class) (i : Int) : Prop := ∀ idx ∈ s.known, idx.cls = c → idx.raw ≠ i

def add (s : Store El) (idx : Index Ty) : Store El := { s with known := idx :: s.known }

def cache [DecidableEq Ty] (s : Store El) (idx : Index Ty) : Store El :=
  { s with cached := fun c t => if c = idx.cls ∧ t = idx.ty then some idx.raw else s.cached c t }

def put (s : Store El) (o : Obj) (idx : Index Ty) (x : El idx.ty) : Store El :=
  { s with data := fun o' i => if o' = o ∧ i = idx.raw then some ⟨idx.ty, x⟩ else s.data o' i }

def clear (s : Store El) (o : Obj) : Store El :=
  { s with data := fun o' i => if o' = o then none else s.data o' i }

end Store

/-- What is promised of a call.  Where BoringSSL may be out of memory, a value that is the first at its index
may be lost. -/
inductive Promised [DecidableEq Ty] (lossless : Prop) (s : Store El) : Call El → Done El → Store El → Prop where
  | newIndex {c : Class} {t : Ty} {i : Int} (hnew : s.Unused c i) :
      Promised lossless s (.newExIndex c t) ⟨.index (some ⟨c, t, i⟩), []⟩ (s.add ⟨c, t, i⟩)
  | noIndex {c : Class} {t : Ty} : Promised lossless s (.newExIndex c t) ⟨.index none, []⟩ s
  | cachedIndex {c : Class} {t : Ty} {i : Int} (hi : s.cached c t = some i) :
      Promised lossless s (.cachedExIndex c t) ⟨.index (some ⟨c, t, i⟩), []⟩ s
  | firstIndex {c : Class} {t : Ty} {i : Int} (hi : s.cached c t = none) (hnew : s.Unused c i) :
      Promised lossless s (.cachedExIndex c t) ⟨.index (some ⟨c, t, i⟩), []⟩
        ((s.add ⟨c, t, i⟩).cache ⟨c, t, i⟩)
  | panicked {c : Class} {t : Ty} (hi : s.cached c t = none) :
      Promised lossless s (.cachedExIndex c t) ⟨.index none, []⟩ s
  | exData {o : Obj} {idx : Index Ty} :
      Promised lossless s (.exData o idx) ⟨.data (s.data o idx.raw), []⟩ s
  | replaced {o : Obj} {idx : Index Ty} {x : El idx.ty} :
      Promised lossless s (.replaceExData o idx x) ⟨.data (s.data o idx.raw), []⟩ (s.put o idx x)
  | set {o : Obj} {idx : Index Ty} {x : El idx.ty} :
      Promised lossless s (.setExData o idx x) ⟨.unit, (s.data o idx.raw).toList⟩ (s.put o idx x)
  | notReplaced {o : Obj} {idx : Index Ty} {x : El idx.ty} (hl : ¬ lossless)
      (hnone : s.data o idx.raw = none) : Promised lossless s (.replaceExData o idx x) ⟨.data none, []⟩ s
  | notSet {o : Obj} {idx : Index Ty} {x : El idx.ty} (hl : ¬ lossless)
      (hnone : s.data o idx.raw = none) : Promised lossless s (.setExData o idx x) ⟨.unit, []⟩ s
  | freed {o : Obj} {is : List Int} (hnodup : is.Nodup) (hall : ∀ i, s.data o i ≠ none → i ∈ is) :
      Promised lossless s (.free o) ⟨.unit, is.filterMap (s.data o)⟩ (s.clear o)

/-- What a call hands over. -/
def Call.given : Call El → List (Val El)
  | .replaceExData _ idx x | .setExData _ idx x => [⟨idx.ty, x⟩]
  | .newExIndex _ _ | .cachedExIndex _ _ | .exData _ _ | .free _ => []

/-- What a call hands back, and what it drops. -/
def gone (l : Call El × Done El) : List (Val El) :=
  match l.1, l.2.ret with
  | .replaceExData _ _ _, .data v => v.toList ++ l.2.dropped
  | _, _ => l.2.dropped

/-! ### The boxes hold what the store says -/

variable (ffi : CryptoExData Ty σ) (malloc : Boxes El → Addr)

/-- BoringSSL is never out of memory. -/
def SetsAll : Prop := ∀ o i p s, (ffi.setExData o i p s).1 = true

def World.store (w : World σ El) : Store El where
  data o i := (ffi.getExData w.ex o i).bind w.boxes.lookup
  known := w.indexes
  cached := w.cached

structure Linked (w : World σ El) : Prop where
  known : ∀ idx ∈ w.indexes, ffi.registered w.ex idx.cls idx.raw = some idx.ty
  cached : ∀ c t i, w.cached c t = some i → ⟨c, t, i⟩ ∈ w.indexes
  /-- A pointer is to a box of the type that its index was registered with. -/
  box : ∀ o i p, ffi.getExData w.ex o i = some p →
    ∃ t x, ffi.registered w.ex o.cls i = some t ∧ w.boxes.lookup p = some ⟨t, x⟩
  /-- No box is at two places. -/
  place : ∀ o i o' i' p, ffi.getExData w.ex o i = some p → ffi.getExData w.ex o' i' = some p →
    o' = o ∧ i' = i

/-- Every box is at some place. -/
def Held (w : World σ El) : Prop :=
  ∀ p, w.boxes.lookup p ≠ none → ∃ o i, ffi.getExData w.ex o i = some p

variable {ffi malloc} {w w' : World σ El} {c : Class} {t : Ty} {o : Obj} {idx : Index Ty} {x : El idx.ty}

/-- At first no index is known. -/
theorem Linked.initial (h : Initial ffi w) : Linked ffi w where
  known idx hidx := by rw [h.indexes] at hidx; cases hidx
  cached c t i hi := by rw [h.cached] at hi; cases hi
  box o i p hp := by rw [h.empty] at hp; cases hp
  place o i o' i' p hp _ := by rw [h.empty] at hp; cases hp

/-- What is at an index that there is, if anything, is in a box of the index's type. -/
theorem Linked.at_index (h : Linked ffi w) (hidx : idx ∈ w.indexes) (hcls : idx.cls = o.cls) {p : Addr}
    (hp : ffi.getExData w.ex o idx.raw = some p) : ∃ x, w.boxes.lookup p = some ⟨idx.ty, x⟩ := by
  obtain ⟨t, x, ht, hx⟩ := h.box o idx.raw p hp
  have hty := h.known idx hidx
  rw [hcls, ht] at hty
  cases Option.some.inj hty
  exact ⟨x, hx⟩

/-! ### Places -/

variable (ffi) in
/-- How a value gets to its place: in the box that is there, in a new one, or not at all. -/
structure Put (w : World σ El) (o : Obj) (idx : Index Ty) (x : El idx.ty) (w' : World σ El) : Prop where
  linked : Linked ffi w'
  store : w'.store ffi = (w.store ffi).put o idx x
    ∨ ¬ SetsAll ffi ∧ (w.store ffi).data o idx.raw = none ∧ w'.store ffi = w.store ffi
  account : (⟨idx.ty, x⟩ :: Assoc.values w.boxes).Perm
    (((w.store ffi).data o idx.raw).toList ++ Assoc.values w'.boxes)
  held : SetsAll ffi → Held ffi w → Held ffi w'

/-- Into the box that is there. -/
theorem Linked.putOver (h : Linked ffi w) (hidx : idx ∈ w.indexes) (hcls : idx.cls = o.cls) {p : Addr}
    (hp : ffi.getExData w.ex o idx.raw = some p) :
    Put ffi w o idx x { w with boxes := w.boxes.insert p ⟨idx.ty, x⟩ } where
  linked := by
    refine ⟨h.known, h.cached, fun o' i q hq => ?_, h.place⟩
    obtain ⟨t, y, ht, hy⟩ := h.box o' i q hq
    rw [Assoc.lookup_insert_eq]
    split
    · next hqp =>
        obtain ⟨rfl, rfl⟩ := h.place o idx.raw o' i p hp (hqp ▸ hq)
        exact ⟨idx.ty, x, hcls ▸ h.known idx hidx, rfl⟩
    · exact ⟨t, y, ht, hy⟩
  store := by
    refine .inl ?_
    simp only [World.store, Store.put, Store.mk.injEq, and_true]
    funext o' i
    split
    · next heq => rw [heq.1, heq.2, hp, Option.bind_some, AList.lookup_insert]
    · next hne =>
        cases hq : ffi.getExData w.ex o' i with
        | none => rfl
        | some q =>
            have hqp : q ≠ p := fun heq => hne (h.place o idx.raw o' i p hp (heq ▸ hq))
            exact AList.lookup_insert_ne hqp
  account := by
    simp only [World.store, hp, Option.bind_some]
    exact Assoc.values_insert_perm p ⟨idx.ty, x⟩ w.boxes
  held _ hheld q hq := by
    rw [Assoc.lookup_insert_eq] at hq
    split at hq
    · next hqp => exact ⟨o, idx.raw, hqp ▸ hp⟩
    · exact hheld q hq

section NewBox

variable (hffi : ffi.Keeps) (hmalloc : ∀ h : Boxes El, malloc h ∉ h)

include hmalloc

/-- A new box is beside the others. -/
theorem lookup_setBox {q : Addr} {v : Val El} (hv : w.boxes.lookup q = some v) :
    (setBox ffi malloc o idx x w).boxes.lookup q = some v := by
  rw [setBox, Assoc.lookup_insert_eq, if_neg, hv]
  rintro rfl
  rw [AList.lookup_eq_none.mpr (hmalloc _)] at hv
  cases hv

/-- No pointer so far is to it. -/
theorem Linked.ne_malloc (h : Linked ffi w) (o' : Obj) (i : Int) :
    ffi.getExData w.ex o' i ≠ some (malloc w.boxes) := by
  intro hq
  obtain ⟨_, _, -, hy⟩ := h.box o' i _ hq
  rw [AList.lookup_eq_none.mpr (hmalloc _)] at hy
  cases hy

/-- So the values that were stored are where they were. -/
theorem Linked.bind_lookup_setBox (h : Linked ffi w) (o' : Obj) (i : Int) :
    (ffi.getExData w.ex o' i).bind (setBox ffi malloc o idx x w).boxes.lookup = (w.store ffi).data o' i := by
  cases hq : ffi.getExData w.ex o' i with
  | none => simp only [World.store, hq, Option.bind_none]
  | some q =>
      obtain ⟨_, _, -, hy⟩ := h.box o' i q hq
      simp only [World.store, hq, Option.bind_some]
      rw [hy, lookup_setBox hmalloc hy]

include hffi

/-- The places are still linked, with the new one, if there is one. -/
theorem Linked.newBox (h : Linked ffi w) (hidx : idx ∈ w.indexes) (hcls : idx.cls = o.cls) :
    Linked ffi (setBox ffi malloc o idx x w) where
  known idx' hidx' := by
    rw [setBox, hffi.set_registered]
    exact h.known idx' hidx'
  cached := h.cached
  box o' i q hq := by
    rw [setBox, hffi.set_get] at hq
    rw [setBox, hffi.set_registered]
    split at hq
    · next heq =>
        cases Option.some.inj hq
        obtain ⟨-, rfl, rfl⟩ := heq
        exact ⟨idx.ty, x, hcls ▸ h.known idx hidx, AList.lookup_insert _⟩
    · obtain ⟨t, y, ht, hy⟩ := h.box o' i q hq
      exact ⟨t, y, ht, lookup_setBox hmalloc hy⟩
  place o₁ i₁ o₂ i₂ q h₁ h₂ := by
    rw [setBox, hffi.set_get] at h₁ h₂
    split at h₁ <;> split at h₂
    · next he₁ he₂ => exact ⟨he₂.2.1.trans he₁.2.1.symm, he₂.2.2.trans he₁.2.2.symm⟩
    · exact absurd (h₁ ▸ h₂) (h.ne_malloc hmalloc o₂ i₂)
    · exact absurd (h₂ ▸ h₁) (h.ne_malloc hmalloc o₁ i₁)
    · exact h.place o₁ i₁ o₂ i₂ q h₁ h₂

/-- The store has the value, or BoringSSL was out of memory. -/
theorem Linked.newBox_store (h : Linked ffi w) :
    (setBox ffi malloc o idx x w).store ffi = (w.store ffi).put o idx x
      ∨ ¬ SetsAll ffi ∧ (setBox ffi malloc o idx x w).store ffi = w.store ffi := by
  have hbind (o' : Obj) (i : Int) : (ffi.getExData w.ex o' i).bind
      (setBox ffi malloc o idx x w).boxes.lookup = (w.store ffi).data o' i :=
    h.bind_lookup_setBox hmalloc o' i
  cases hset : (ffi.setExData o idx.raw (malloc w.boxes) w.ex).1 with
  | true =>
      refine .inl ?_
      rw [World.store, Store.put, Store.mk.injEq]
      refine ⟨funext fun o' => funext fun i => ?_, rfl, rfl⟩
      rw [setBox, hffi.set_get, hset]
      split
      · next heq => rw [if_pos heq.2, Option.bind_some, AList.lookup_insert]
      · next hne =>
          rw [if_neg fun heq => hne ⟨rfl, heq⟩]
          exact hbind o' i
  | false =>
      refine .inr ⟨fun hall => ?_, ?_⟩
      · rw [hall] at hset
        cases hset
      · rw [World.store, World.store, Store.mk.injEq]
        refine ⟨funext fun o' => funext fun i => ?_, rfl, rfl⟩
        rw [setBox, hffi.set_get, hset, if_neg fun heq => Bool.false_ne_true heq.1]
        exact hbind o' i

/-- Into a new box, of which BoringSSL takes note or not. -/
theorem Linked.putNew (h : Linked ffi w) (hidx : idx ∈ w.indexes) (hcls : idx.cls = o.cls)
    (hp : ffi.getExData w.ex o idx.raw = none) :
    Put ffi w o idx x (setBox ffi malloc o idx x w) where
  linked := h.newBox hffi hmalloc hidx hcls
  store := by
    have hnone : (w.store ffi).data o idx.raw = none := by
      simp only [World.store, hp, Option.bind_none]
    exact (h.newBox_store hffi hmalloc).imp_right fun hlost => ⟨hlost.1, hnone, hlost.2⟩
  account := by
    simp only [World.store, hp, setBox, Assoc.values_insert_new (hmalloc _)]
    exact List.Perm.refl _
  held hall hheld q hq := by
    simp only [setBox] at hq ⊢
    rw [Assoc.lookup_insert_eq] at hq
    split at hq
    · next hqp => exact ⟨o, idx.raw, by rw [hffi.set_get, if_pos ⟨hall .., rfl, rfl⟩, hqp]⟩
    · obtain ⟨o', i, ho⟩ := hheld q hq
      refine ⟨o', i, ?_⟩
      rw [hffi.set_get, if_neg, ho]
      rintro ⟨-, rfl, rfl⟩
      rw [hp] at ho
      cases ho

end NewBox

/-! ### Freeing an object -/

variable (ffi) in
/-- The places of an object are gone, with the boxes that were there, and nothing else is. -/
structure Freed (w : World σ El) (o : Obj) (w' : World σ El) : Prop where
  indexes : w'.indexes = w.indexes
  cached : w'.cached = w.cached
  registered : ffi.registered w'.ex = ffi.registered w.ex
  get : ∀ o' i, ffi.getExData w'.ex o' i = if o' = o then none else ffi.getExData w.ex o' i
  freed : ∀ i p, ffi.getExData w.ex o i = some p → w'.boxes.lookup p = none
  kept : ∀ p, (∀ i, ffi.getExData w.ex o i ≠ some p) → w'.boxes.lookup p = w.boxes.lookup p

namespace Freed

/-- A box of another object is still there. -/
theorem lookup_eq (hf : Freed ffi w o w') (h : Linked ffi w) {o' : Obj} {i : Int} {p : Addr} (hne : o' ≠ o)
    (hp : ffi.getExData w.ex o' i = some p) : w'.boxes.lookup p = w.boxes.lookup p :=
  hf.kept p fun i' hp' => hne (h.place o i' o' i p hp' hp).1

theorem linked (hf : Freed ffi w o w') (h : Linked ffi w) : Linked ffi w' where
  known idx hidx := by
    rw [hf.registered]
    exact h.known idx (hf.indexes ▸ hidx)
  cached c t i hi := by
    rw [hf.indexes]
    exact h.cached c t i (hf.cached ▸ hi)
  box o' i p hp := by
    rw [hf.get] at hp
    split at hp
    · cases hp
    · next hne =>
        obtain ⟨t, x, ht, hx⟩ := h.box o' i p hp
        exact ⟨t, x, hf.registered ▸ ht, (hf.lookup_eq h hne hp).trans hx⟩
  place o₁ i₁ o₂ i₂ p h₁ h₂ := by
    rw [hf.get] at h₁ h₂
    split at h₁ <;> split at h₂
    · cases h₁
    · cases h₁
    · cases h₂
    · exact h.place o₁ i₁ o₂ i₂ p h₁ h₂

theorem store_eq (hf : Freed ffi w o w') (h : Linked ffi w) : w'.store ffi = (w.store ffi).clear o := by
  simp only [World.store, Store.clear, hf.indexes, hf.cached, Store.mk.injEq, and_true]
  funext o' i
  rw [hf.get]
  split
  · rfl
  · next hne =>
      cases hp : ffi.getExData w.ex o' i with
      | none => rfl
      | some p => exact hf.lookup_eq h hne hp

theorem held (hf : Freed ffi w o w') (hheld : Held ffi w) : Held ffi w' := by
  intro p hp
  have hnot : ∀ i, ffi.getExData w.ex o i ≠ some p := fun i hi => hp (hf.freed i p hi)
  rw [hf.kept p hnot] at hp
  obtain ⟨o', i, ho⟩ := hheld p hp
  refine ⟨o', i, ?_⟩
  rw [hf.get, if_neg, ho]
  rintro rfl
  exact hnot i ho

end Freed

/-- What BoringSSL calls when it frees an object: one function for each index of its class, of the index's type,
with the pointer there. -/
theorem freeObj_calls (hffi : ffi.Keeps) (h : Linked ffi w) (o : Obj) :
    ∃ is : List Int, is.Nodup ∧ (∀ i p, ffi.getExData w.ex o i = some p → i ∈ is)
      ∧ (ffi.freeObj o w.ex).1.filterMap (·.2) = is.filterMap (ffi.getExData w.ex o)
      ∧ ((ffi.freeObj o w.ex).1.filterMap fun c => c.2.bind w.boxes.lookup)
        = is.filterMap ((w.store ffi).data o)
      ∧ ∀ t p, (t, some p) ∈ (ffi.freeObj o w.ex).1 → ∃ x, w.boxes.lookup p = some ⟨t, x⟩ := by
  obtain ⟨is, hnodup, his, hcalls⟩ := hffi.free_calls o w.ex
  refine ⟨is, hnodup, fun i p hp => ?_, ?_, ?_, ?_⟩
  · obtain ⟨t, -, ht, -⟩ := h.box o i p hp
    exact (his i).mpr (by rw [ht]; exact Option.some_ne_none t)
  · rw [hcalls, List.filterMap_filterMap]
    refine List.filterMap_congr fun i hi => ?_
    obtain ⟨t, ht⟩ := Option.ne_none_iff_exists'.mp ((his i).mp hi)
    rw [ht]
    rfl
  · rw [hcalls, List.filterMap_filterMap]
    refine List.filterMap_congr fun i hi => ?_
    obtain ⟨t, ht⟩ := Option.ne_none_iff_exists'.mp ((his i).mp hi)
    rw [ht]
    rfl
  · rw [hcalls]
    intro t p hp
    obtain ⟨i, -, hi⟩ := List.mem_filterMap.mp hp
    obtain ⟨t', ht', heq⟩ := Option.map_eq_some_iff.mp hi
    obtain ⟨rfl, hget⟩ := Prod.mk.inj heq
    obtain ⟨t, x, ht, hx⟩ := h.box o i p hget
    cases ht'.symm.trans ht
    exact ⟨x, hx⟩

/-! ### Indexes -/

/-- An index is new, and nothing else changes; or nothing does. -/
theorem newExIndex_cases (hffi : ffi.Keeps) (h : Linked ffi w) (c : Class) (t : Ty) :
    ∃ idx w', newExIndex ffi c t w = (idx, w') ∧ Linked ffi w' ∧ w'.boxes = w.boxes
      ∧ ffi.getExData w'.ex = ffi.getExData w.ex ∧ w'.cached = w.cached
      ∧ ((∃ i, idx = some ⟨c, t, i⟩ ∧ (w.store ffi).Unused c i
          ∧ w'.indexes = ⟨c, t, i⟩ :: w.indexes)
        ∨ idx = none ∧ w'.indexes = w.indexes) := by
  rcases hnew : ffi.getExNewIndex c t w.ex with ⟨i, ex⟩
  by_cases hi : i < 0
  · obtain ⟨hreg, hget⟩ := hffi.noIndex c t w.ex (by rw [hnew]; exact hi)
    rw [hnew] at hreg hget
    refine ⟨none, { w with ex := ex }, by simp only [newExIndex, hnew, if_pos hi], ⟨?_, h.cached, ?_, ?_⟩,
      rfl, hget, rfl, .inr ⟨rfl, rfl⟩⟩
    · exact fun idx hidx => hreg ▸ h.known idx hidx
    · exact fun o i p hp => hreg ▸ h.box o i p (hget ▸ hp)
    · exact fun o i o' i' p hp hp' => h.place o i o' i' p (hget ▸ hp) (hget ▸ hp')
  · obtain ⟨hnone, hreg, hget⟩ := hffi.newIndex c t w.ex (by rw [hnew]; exact Int.not_lt.mp hi)
    rw [hnew] at hnone hreg hget
    have hkept : ∀ c' i' t', ffi.registered w.ex c' i' = some t' → ffi.registered ex c' i' = some t' := by
      intro c' i' t' ht'
      rw [hreg, if_neg, ht']
      rintro ⟨rfl, rfl⟩
      rw [hnone] at ht'
      cases ht'
    refine ⟨some ⟨c, t, i⟩, { w with ex := ex, indexes := ⟨c, t, i⟩ :: w.indexes },
      by simp only [newExIndex, hnew, if_neg hi], ⟨?_, ?_, ?_, ?_⟩, rfl, hget, rfl, .inl ⟨i, rfl, ?_, rfl⟩⟩
    · intro idx hidx
      rcases List.mem_cons.mp hidx with rfl | hidx
      · rw [hreg, if_pos ⟨rfl, rfl⟩]
      · exact hkept _ _ _ (h.known idx hidx)
    · exact fun c t i hi => List.mem_cons_of_mem _ (h.cached c t i hi)
    · intro o i p hp
      obtain ⟨t, x, ht, hx⟩ := h.box o i p (hget ▸ hp)
      exact ⟨t, x, hkept _ _ _ ht, hx⟩
    · exact fun o i o' i' p hp hp' => h.place o i o' i' p (hget ▸ hp) (hget ▸ hp')
    · -- an index that is known was registered, and this one was not
      rintro idx hidx rfl rfl
      have hknown := h.known idx hidx
      rw [hnone] at hknown
      cases hknown

variable [DecidableEq Ty] (ffi)

/-- A call that goes well: the boxes stay linked, it is as promised, and it accounts for all that is boxed. -/
structure Served (w : World σ El) (call : Call El) (done : Done El) (w' : World σ El) : Prop where
  linked : Linked ffi w'
  promised : Promised (SetsAll ffi) (w.store ffi) call done (w'.store ffi)
  account : (call.given ++ Assoc.values w.boxes).Perm (gone (call, done) ++ Assoc.values w'.boxes)
  held : SetsAll ffi → Held ffi w → Held ffi w'

variable {ffi}

/-- Boxes and pointers that are as they were hold what they held. -/
theorem Served.of_same {call : Call El} {done : Done El} (hlinked : Linked ffi w')
    (hboxes : w'.boxes = w.boxes) (hget : ffi.getExData w'.ex = ffi.getExData w.ex)
    (hgiven : call.given = []) (hgone : gone (call, done) = [])
    (hpromised : Promised (SetsAll ffi) (w.store ffi) call done (w'.store ffi)) :
    Served ffi w call done w' where
  linked := hlinked
  promised := hpromised
  account := by
    rw [hgiven, hgone, hboxes]
  held _ hheld := by
    rw [Held, hboxes, hget]
    exact hheld

/-- A new index is one that BoringSSL gives, or an error. -/
theorem newExIndex_served (hffi : ffi.Keeps) (h : Linked ffi w) (c : Class) (t : Ty) :
    ∃ done w', exec ffi malloc (.newExIndex c t) w = some (done, w')
      ∧ Served ffi w (.newExIndex c t) done w' := by
  obtain ⟨idx, w', hnew, hlinked, hboxes, hget, hcached, hidx⟩ := newExIndex_cases hffi h c t
  refine ⟨⟨.index idx, []⟩, w', by rw [exec, hnew], .of_same hlinked hboxes hget rfl rfl ?_⟩
  rcases hidx with ⟨i, rfl, hunused, hindexes⟩ | ⟨rfl, hindexes⟩
  · have hstore : w'.store ffi = (w.store ffi).add ⟨c, t, i⟩ := by
      simp only [World.store, Store.add, hboxes, hget, hcached, hindexes]
    exact hstore ▸ .newIndex hunused
  · have hstore : w'.store ffi = w.store ffi := by
      simp only [World.store, hboxes, hget, hcached, hindexes]
    exact hstore ▸ .noIndex

/-- A cached index is made once. -/
theorem cachedExIndex_served (hffi : ffi.Keeps) (h : Linked ffi w) (c : Class) (t : Ty) :
    ∃ done w', exec ffi malloc (.cachedExIndex c t) w = some (done, w')
      ∧ Served ffi w (.cachedExIndex c t) done w' := by
  cases hi : w.cached c t with
  | some i =>
      exact ⟨⟨.index (some ⟨c, t, i⟩), []⟩, w, by simp only [exec, cachedExIndex, hi],
        .of_same h rfl rfl rfl rfl (.cachedIndex hi)⟩
  | none =>
      obtain ⟨idx, w', hnew, hlinked, hboxes, hget, hcached, hidx⟩ := newExIndex_cases hffi h c t
      rcases hidx with ⟨i, rfl, hunused, hindexes⟩ | ⟨rfl, hindexes⟩
      · refine ⟨⟨.index (some ⟨c, t, i⟩), []⟩,
          { w' with cached := fun c' t' => if c' = c ∧ t' = t then some i else w'.cached c' t' },
          by simp only [exec, cachedExIndex, hi, hnew],
          .of_same ⟨hlinked.known, ?_, hlinked.box, hlinked.place⟩ hboxes hget rfl rfl ?_⟩
        · intro c' t' i' hi'
          change (if c' = c ∧ t' = t then some i else w'.cached c' t') = some i' at hi'
          split at hi'
          · next heq =>
              obtain ⟨rfl, rfl⟩ := heq
              cases hi'
              exact hindexes ▸ List.mem_cons_self
          · exact hlinked.cached c' t' i' hi'
        · have hstore : World.store ffi
              { w' with cached := fun c' t' => if c' = c ∧ t' = t then some i else w'.cached c' t' }
              = ((w.store ffi).add ⟨c, t, i⟩).cache ⟨c, t, i⟩ := by
            simp only [World.store, Store.add, Store.cache, hboxes, hget, hcached, hindexes]
          exact hstore ▸ .firstIndex hi hunused
      · refine ⟨⟨.index none, []⟩, w', by simp only [exec, cachedExIndex, hi, hnew],
          .of_same hlinked hboxes hget rfl rfl ?_⟩
        have hstore : w'.store ffi = w.store ffi := by
          simp only [World.store, hboxes, hget, hcached, hindexes]
        rw [hstore]
        exact .panicked hi

/-! ### Values -/

/-- What is stored under an index has the type of the index. -/
theorem Linked.exData (h : Linked ffi w) (hidx : idx ∈ w.indexes) (hcls : idx.cls = o.cls) :
    ∃ x, exData ffi o idx w = some x ∧ x.map (⟨idx.ty, ·⟩) = (w.store ffi).data o idx.raw := by
  cases hp : ffi.getExData w.ex o idx.raw with
  | none => exact ⟨none, by simp only [ExData.exData, hp], by simp only [World.store, hp]; rfl⟩
  | some p =>
      obtain ⟨x, hx⟩ := h.at_index hidx hcls hp
      exact ⟨some x, by simp only [ExData.exData, hp, Boxes.read_eq hx]; rfl,
        by simp only [World.store, hp, Option.bind_some, hx]; rfl⟩

/-- A replace gives the old value back, and stores the new one in a box of its own. -/
theorem replaceExData_put (hffi : ffi.Keeps) (hmalloc : ∀ h : Boxes El, malloc h ∉ h) (h : Linked ffi w)
    (hidx : idx ∈ w.indexes) (hcls : idx.cls = o.cls) (x : El idx.ty) :
    ∃ old w', replaceExData ffi malloc o idx x w = some (old, w')
      ∧ old.map (⟨idx.ty, ·⟩) = (w.store ffi).data o idx.raw ∧ Put ffi w o idx x w' := by
  cases hp : ffi.getExData w.ex o idx.raw with
  | none =>
      exact ⟨none, _, by simp only [replaceExData, hp], by simp only [World.store, hp]; rfl,
        h.putNew hffi hmalloc hidx hcls hp⟩
  | some p =>
      obtain ⟨old, hold⟩ := h.at_index hidx hcls hp
      exact ⟨some old, _, by simp only [replaceExData, hp, Boxes.replace, Boxes.read_eq hold]; rfl,
        by simp only [World.store, hp, Option.bind_some, hold]; rfl, h.putOver hidx hcls hp⟩

/-- So it keeps what it promises. -/
theorem replaceExData_served (hffi : ffi.Keeps) (hmalloc : ∀ h : Boxes El, malloc h ∉ h)
    (h : Linked ffi w) (hidx : idx ∈ w.indexes) (hcls : idx.cls = o.cls) (x : El idx.ty) :
    ∃ done w', exec ffi malloc (.replaceExData o idx x) w = some (done, w')
      ∧ Served ffi w (.replaceExData o idx x) done w' := by
  obtain ⟨old, w', hrep, hold, hput⟩ := replaceExData_put hffi hmalloc h hidx hcls x
  refine ⟨⟨.data (old.map (⟨idx.ty, ·⟩)), []⟩, w', by rw [exec, hrep]; rfl, hput.linked, ?_, ?_, hput.held⟩
  · rw [hold]
    rcases hput.store with hstore | ⟨hl, hnone, hstore⟩
    · exact hstore ▸ .replaced
    · rw [hstore, hnone]
      exact .notReplaced hl hnone
  · have hgone : gone (.replaceExData o idx x, ⟨.data ((w.store ffi).data o idx.raw), []⟩)
        = ((w.store ffi).data o idx.raw).toList := List.append_nil _
    rw [hold, hgone]
    exact hput.account

/-- A set drops the old value. -/
theorem setExData_served (hffi : ffi.Keeps) (hmalloc : ∀ h : Boxes El, malloc h ∉ h)
    (h : Linked ffi w) (hidx : idx ∈ w.indexes) (hcls : idx.cls = o.cls) (x : El idx.ty) :
    ∃ done w', exec ffi malloc (.setExData o idx x) w = some (done, w')
      ∧ Served ffi w (.setExData o idx x) done w' := by
  obtain ⟨old, w', hrep, hold, hput⟩ := replaceExData_put hffi hmalloc h hidx hcls x
  refine ⟨⟨.unit, (old.map (⟨idx.ty, ·⟩)).toList⟩, w', by rw [exec, hrep]; rfl, hput.linked, ?_, ?_,
    hput.held⟩
  · rw [hold]
    rcases hput.store with hstore | ⟨hl, hnone, hstore⟩
    · exact hstore ▸ .set
    · rw [hstore, hnone]
      exact .notSet hl hnone
  · rw [hold]
    exact hput.account

/-- Freeing an object frees the boxes at its places, each once, and no other. -/
theorem free_served (hffi : ffi.Keeps) (h : Linked ffi w) (o : Obj) :
    ∃ done w', exec ffi malloc (.free o) w = some (done, w') ∧ Served ffi w (.free o) done w' := by
  obtain ⟨is, hnodup, hmem, hptrs, hvals, hlive⟩ := freeObj_calls hffi h o
  have hnodup' : ((ffi.freeObj o w.ex).1.filterMap (·.2)).Nodup := by
    rw [hptrs]
    exact hnodup.filterMap fun i i' p hi hi' => (h.place o i o i' p hi hi').2.symm
  obtain ⟨boxes, hfree, hperm, hlook⟩ := Boxes.freeAll_eq hnodup' hlive
  rw [hvals] at hfree hperm
  rw [hptrs] at hlook
  have hfreed : Freed ffi w o { w with boxes := boxes, ex := (ffi.freeObj o w.ex).2 } := by
    refine ⟨rfl, rfl, hffi.free_registered o w.ex, hffi.free_get o w.ex, fun i p hp => ?_, fun p hp => ?_⟩
    · exact (hlook p).trans (if_pos (List.mem_filterMap.mpr ⟨i, hmem i p hp, hp⟩))
    · refine (hlook p).trans (if_neg fun hin => ?_)
      obtain ⟨i, -, hi⟩ := List.mem_filterMap.mp hin
      exact hp i hi
  refine ⟨⟨.unit, is.filterMap ((w.store ffi).data o)⟩, _, by simp only [exec, hfree]; rfl,
    hfreed.linked h, ?_, hperm, fun _ => hfreed.held⟩
  rw [hfreed.store_eq h]
  refine .freed hnodup fun i hi => ?_
  cases hp : ffi.getExData w.ex o i with
  | none => exact absurd (by simp only [World.store, hp]; rfl) hi
  | some p => exact hmem i p hp

/-! ### Runs -/

/-- **Every call does what it promises.** -/
theorem exec_served (hffi : ffi.Keeps) (hmalloc : ∀ h : Boxes El, malloc h ∉ h) (h : Linked ffi w)
    (call : Call El) (ha : call.Allowed w) :
    ∃ done w', exec ffi malloc call w = some (done, w') ∧ Served ffi w call done w' := by
  cases call with
  | newExIndex c t => exact newExIndex_served hffi h c t
  | cachedExIndex c t => exact cachedExIndex_served hffi h c t
  | exData o idx =>
      obtain ⟨x, hx, hdata⟩ := h.exData ha.1 ha.2
      refine ⟨⟨.data (x.map (⟨idx.ty, ·⟩)), []⟩, w, by rw [exec, hx]; rfl, .of_same h rfl rfl rfl rfl ?_⟩
      rw [hdata]
      exact .exData
  | replaceExData o idx x => exact replaceExData_served hffi hmalloc h ha.1 ha.2 x
  | setExData o idx x => exact setExData_served hffi hmalloc h ha.1 ha.2 x
  | free o => exact free_served hffi h o

/-- In every step. -/
theorem Step.served (hffi : ffi.Keeps) (hmalloc : ∀ h : Boxes El, malloc h ∉ h) (h : Linked ffi w)
    {l : Call El × Done El} (hl : Step ffi malloc w l w') : Served ffi w l.1 l.2 w' := by
  obtain ⟨done, w₁, hexec, hs⟩ := exec_served hffi hmalloc h l.1 hl.1
  cases hexec.symm.trans hl.2
  exact hs

variable {w₀ : World σ El} {ls : List (Call El × Done El)}

/-- So the store and the boxes agree after every run. -/
theorem Linked.run (hffi : ffi.Keeps) (hmalloc : ∀ h : Boxes El, malloc h ∉ h) (h₀ : Linked ffi w₀)
    (hr : Run (Step ffi malloc) w₀ ls w) : Linked ffi w :=
  hr.invariant (fun _ _ _ h hl => (Step.served hffi hmalloc h hl).linked) h₀

/-- **No access to extra data goes wrong, and every call does what is promised of it.**  After any calls, on
any objects and of any types, a call that a program can make finds what the store says: no pointer is used
that is dead or of another type. -/
theorem calls_served (hffi : ffi.Keeps) (hmalloc : ∀ h : Boxes El, malloc h ∉ h) (h₀ : Initial ffi w₀)
    (hr : Run (Step ffi malloc) w₀ ls w) (call : Call El) (ha : call.Allowed w) :
    ∃ done w', Step ffi malloc w (call, done) w'
      ∧ Promised (SetsAll ffi) (w.store ffi) call done (w'.store ffi) := by
  obtain ⟨done, w', hexec, hs⟩ := exec_served hffi hmalloc ((Linked.initial h₀).run hffi hmalloc hr) call ha
  exact ⟨done, w', ⟨ha, hexec⟩, hs.promised⟩

/-- **What is put in comes out once.**  After any calls, the values that were handed over are those in boxes
and those that were handed back or dropped, each as often.  If BoringSSL is never out of memory, nothing is in
a box once every object is freed. -/
theorem values_conserved (hffi : ffi.Keeps) (hmalloc : ∀ h : Boxes El, malloc h ∉ h) (h₀ : Initial ffi w₀)
    (hr : Run (Step ffi malloc) w₀ ls w) :
    (ls.flatMap fun l => l.1.given).Perm (ls.flatMap gone ++ Assoc.values w.boxes)
      ∧ (SetsAll ffi → (∀ o i, (w.store ffi).data o i = none) →
        (ls.flatMap fun l => l.1.given).Perm (ls.flatMap gone)) := by
  have hkept : (ls.flatMap fun l => l.1.given).Perm (ls.flatMap gone ++ Assoc.values w.boxes)
      ∧ (SetsAll ffi → Held ffi w) := by
    induction hr with
    | nil =>
        refine ⟨?_, fun _ p hp => ?_⟩
        · rw [h₀.boxes]
          exact List.Perm.refl _
        · rw [h₀.boxes] at hp
          exact absurd rfl hp
    | @snoc w₁ w' ls l hr hl ih =>
        obtain ⟨hperm, hheld⟩ := ih
        have hs := Step.served hffi hmalloc ((Linked.initial h₀).run hffi hmalloc hr) hl
        refine ⟨?_, fun hall => hs.held hall (hheld hall)⟩
        rw [List.flatMap_append, List.flatMap_append, List.flatMap_singleton, List.flatMap_singleton]
        -- what was in boxes goes to this call, and what it leaves there stays
        have h₁ := (hperm.append_right l.1.given).trans (by rw [List.append_assoc])
        have h₂ := ((List.perm_append_comm.trans hs.account).append_left (ls.flatMap gone))
        exact (h₁.trans h₂).trans (by rw [List.append_assoc])
  refine ⟨hkept.1, fun hall hempty => ?_⟩
  have hnone : ∀ p, w.boxes.lookup p = none := by
    intro p
    by_contra hp
    obtain ⟨o, i, ho⟩ := hkept.2 hall p hp
    have hdata : (ffi.getExData w.ex o i).bind w.boxes.lookup = none := hempty o i
    rw [ho] at hdata
    exact hp hdata
  have hperm := hkept.1
  rwa [Assoc.values_eq_nil hnone, List.append_nil] at hperm

/-! ### A table -/

/-- BoringSSL's part as a table: the types of the indexes, and the pointers. -/
structure Table where
  types : Class → List Bool
  slots : Obj → Int → Option Addr

def Table.registered (s : Table) (c : Class) : Int → Option Bool
  | .ofNat n => (s.types c)[n]?
  | .negSucc _ => none

def table : CryptoExData Bool Table where
  getExNewIndex c t s :=
    ((s.types c).length, { s with types := fun c' => if c' = c then s.types c ++ [t] else s.types c' })
  setExData o i p s :=
    (true, { s with slots := fun o' i' => if o' = o ∧ i' = i then some p else s.slots o' i' })
  getExData := Table.slots
  freeObj o s :=
    (((List.range (s.types o.cls).length).map Int.ofNat).filterMap fun i =>
      (s.registered o.cls i).map fun t => (t, s.slots o i),
      { s with slots := fun o' i => if o' = o then none else s.slots o' i })
  registered := Table.registered

/-- A table of slots behaves as BoringSSL does. -/
theorem table_keeps : table.Keeps where
  noIndex c t s h := absurd h (Int.not_lt.mpr (Int.natCast_nonneg (s.types c).length))
  newIndex c t s _ := by
    refine ⟨List.getElem?_eq_none (Nat.le_refl _), fun c' i => ?_, rfl⟩
    cases i with
    | negSucc n => exact (if_neg fun h => Int.negSucc_ne_zero n (by cases h.2)).symm
    | ofNat n =>
        show (if c' = c then s.types c ++ [t] else s.types c')[n]?
          = if c' = c ∧ (n : Int) = (s.types c).length then some t else (s.types c')[n]?
        by_cases hc : c' = c
        · subst hc
          rw [if_pos rfl]
          rcases Nat.lt_trichotomy n (s.types c').length with hn | hn | hn
          · rw [List.getElem?_append_left hn, if_neg fun h => Nat.ne_of_lt hn (Int.ofNat.inj h.2)]
          · rw [hn, List.getElem?_concat_length, if_pos ⟨rfl, rfl⟩]
          · rw [if_neg fun h => Nat.ne_of_gt hn (Int.ofNat.inj h.2), List.getElem?_eq_none (Nat.le_of_lt hn),
              List.getElem?_eq_none (by rw [List.length_append]; exact hn)]
        · rw [if_neg hc, if_neg fun h => hc h.1]
  set_registered _ _ _ _ := rfl
  set_get o i p s o' i' := by simp [table]
  free_calls o s := by
    refine ⟨(List.range (s.types o.cls).length).map Int.ofNat, ?_, fun i => ?_, rfl⟩
    · exact List.nodup_range.map fun _ _ h => Int.ofNat.inj h
    · cases i with
      | negSucc n => simp [table, Table.registered]
      | ofNat n =>
          have hn : Int.ofNat n ∈ (List.range (s.types o.cls).length).map Int.ofNat
              ↔ n < (s.types o.cls).length := by
            rw [List.mem_map_of_injective fun _ _ h => Int.ofNat.inj h, List.mem_range]
          rw [hn]
          simp [table, Table.registered]
  free_registered _ _ := rfl
  free_get _ _ _ _ := rfl

/-- An address above all that are used. -/
def above (h : Boxes fun _ : Bool => Nat) : Addr := h.keys.foldr max 0 + 1

/-- A box above the others is a new one. -/
theorem above_new (h : Boxes fun _ : Bool => Nat) : above h ∉ h := by
  have hle : ∀ (ps : List Addr), ∀ p ∈ ps, p ≤ ps.foldr max 0 := by
    intro ps
    induction ps with
    | nil => exact fun p hp => absurd hp List.not_mem_nil
    | cons q ps ih =>
        intro p hp
        rcases List.mem_cons.mp hp with rfl | hp
        · exact Nat.le_max_left _ _
        · exact Nat.le_trans (ih p hp) (Nat.le_max_right _ _)
  exact fun hmem => Nat.not_succ_le_self _ (hle _ _ hmem)

def nothing : World Table fun _ : Bool => Nat where
  boxes := ∅
  ex := ⟨fun _ => [], fun _ _ => none⟩
  cached _ _ := none
  indexes := []

/-- Nothing is stored at first. -/
theorem nothing_initial : Initial table nothing := ⟨rfl, fun _ _ => rfl, fun _ _ => rfl, rfl⟩

def connection : Obj := ⟨.ssl, 1⟩

def firstIndex : Index Bool := ⟨.ssl, true, 0⟩

/-- A value is set, replaced and freed with its connection. -/
def setAndFreed : List (Call (fun _ : Bool => Nat) × Done fun _ : Bool => Nat) :=
  [] ++ [(.newExIndex .ssl true, ⟨.index (some firstIndex), []⟩)]
    ++ [(.setExData connection firstIndex 5, ⟨.unit, []⟩)]
    ++ [(.replaceExData connection firstIndex 7, ⟨.data (some ⟨true, 5⟩), []⟩)]
    ++ [(.free connection, ⟨.unit, [⟨true, 7⟩]⟩)]

/-- A value is set, and its object freed. -/
theorem setAndFreed_run : ∃ w, Run (Step table above) nothing setAndFreed w ∧ firstIndex ∈ w.indexes :=
  ⟨_, .snoc (.snoc (.snoc (.snoc (.nil _) ⟨trivial, rfl⟩) ⟨⟨List.mem_cons_self, rfl⟩, rfl⟩)
    ⟨⟨List.mem_cons_self, rfl⟩, rfl⟩) ⟨trivial, rfl⟩, List.mem_cons_self⟩

/-- Then there is nothing under the index. -/
theorem calls_served_table : ∃ w, Run (Step table above) nothing setAndFreed w
    ∧ ∃ done w', Step table above w (.exData connection firstIndex, done) w'
      ∧ Promised (SetsAll table) (w.store table) (.exData connection firstIndex) done (w'.store table) := by
  obtain ⟨w, hr, hidx⟩ := setAndFreed_run
  exact ⟨w, hr, calls_served table_keeps above_new nothing_initial hr _ ⟨hidx, rfl⟩⟩

/-- And the value was dropped once. -/
theorem values_conserved_table : ∃ w, Run (Step table above) nothing setAndFreed w
    ∧ (setAndFreed.flatMap fun l => l.1.given).Perm (setAndFreed.flatMap gone ++ Assoc.values w.boxes)
    ∧ (SetsAll table → (∀ o i, (w.store table).data o i = none) →
      (setAndFreed.flatMap fun l => l.1.given).Perm (setAndFreed.flatMap gone)) := by
  obtain ⟨w, hr, -⟩ := setAndFreed_run
  exact ⟨w, hr, values_conserved table_keeps above_new nothing_initial hr⟩

end Btls.ExData
