import Btls.Support.Assoc

/-!
# Support — Boxes

A heap of boxes, each with a value of some type in it.  A pointer does not say of which type:
whoever uses it names one, and a use of a pointer to nothing, or to a value of another type, is
`none`.

`freeAll_eq`: pointers that are to boxes of the types named with them, none of them twice, can be
freed one after the other; their values are those handed back, and all other boxes stay.
-/

namespace Btls.Support

abbrev Addr : Type := Nat

variable {Ty : Type} {El : Ty → Type}

/-- A value of some type. -/
abbrev Val (El : Ty → Type) : Type := (t : Ty) × El t

/-- The boxes, by address. -/
abbrev Boxes (El : Ty → Type) : Type := Assoc Addr (Val El)

namespace Boxes

open Assoc

variable [DecidableEq Ty] {h : Boxes El} {p : Addr} {t : Ty} {x : El t}

/-- The value, if it is of that type. -/
def asType (t : Ty) (v : Val El) : Option (El t) := if h : v.1 = t then some (h ▸ v.2) else none

def read (t : Ty) (h : Boxes El) (p : Addr) : Option (El t) := (h.lookup p).bind (asType t)

/-- Puts another value of the type into the box; what was there. -/
def replace (h : Boxes El) (p : Addr) (x : El t) : Option (El t × Boxes El) :=
  (read t h p).map fun old => (old, h.insert p ⟨t, x⟩)

/-- Frees the box; what was there. -/
def free (t : Ty) (h : Boxes El) (p : Addr) : Option (El t × Boxes El) :=
  (read t h p).map fun old => (old, h.erase p)

/-- Frees the boxes of the pointers that are not null, each as of the type given with it. -/
def freeAll : List (Ty × Option Addr) → Boxes El → Option (List (Val El) × Boxes El)
  | [], h => some ([], h)
  | (_, none) :: calls, h => freeAll calls h
  | (t, some p) :: calls, h => do
      let (x, h) ← free t h p
      let (xs, h) ← freeAll calls h
      return (⟨t, x⟩ :: xs, h)

theorem read_eq (hp : h.lookup p = some ⟨t, x⟩) : read t h p = some x := by
  rw [read, hp, Option.bind_some, asType, dif_pos rfl]

/-- Boxes that are there, of the types given, and none of them twice, can be freed; all others stay. -/
theorem freeAll_eq {calls : List (Ty × Option Addr)} (hnodup : (calls.filterMap (·.2)).Nodup)
    (hlive : ∀ t p, (t, some p) ∈ calls → ∃ x, h.lookup p = some ⟨t, x⟩) :
    ∃ h', freeAll calls h = some (calls.filterMap fun c => c.2.bind h.lookup, h')
      ∧ (values h).Perm ((calls.filterMap fun c => c.2.bind h.lookup) ++ values h')
      ∧ ∀ p, h'.lookup p = if p ∈ calls.filterMap (·.2) then none else h.lookup p := by
  induction calls generalizing h with
  | nil => exact ⟨h, rfl, List.Perm.refl _, fun _ => rfl⟩
  | cons call calls ih =>
      obtain ⟨t, ptr⟩ := call
      cases ptr with
      | none => exact ih hnodup fun t p hp => hlive t p (List.mem_cons_of_mem _ hp)
      | some p =>
          obtain ⟨hp, hnodup⟩ := List.nodup_cons.mp hnodup
          obtain ⟨x, hx⟩ := hlive t p List.mem_cons_self
          have hother : ∀ q, q ∈ calls.filterMap (·.2) → (h.erase p).lookup q = h.lookup q :=
            fun q hq => AList.lookup_erase_ne fun heq => hp (heq ▸ hq)
          have hsame : (calls.filterMap fun c => c.2.bind (h.erase p).lookup)
              = calls.filterMap fun c => c.2.bind h.lookup := by
            refine List.filterMap_congr fun c hc => ?_
            cases hptr : c.2 with
            | none => rfl
            | some q => exact hother q (List.mem_filterMap.mpr ⟨c, hc, hptr⟩)
          have hlive' : ∀ t q, (t, some q) ∈ calls → ∃ x, (h.erase p).lookup q = some ⟨t, x⟩ := by
            intro t q hq
            rw [hother q (List.mem_filterMap.mpr ⟨_, hq, rfl⟩)]
            exact hlive t q (List.mem_cons_of_mem _ hq)
          obtain ⟨h', hfree, hperm, hlook⟩ := ih hnodup hlive'
          rw [hsame] at hfree hperm
          refine ⟨h', ?_, ?_, fun q => ?_⟩
          · simp [freeAll, free, read_eq hx, hfree, hx]
          · simp only [List.filterMap_cons, Option.bind_some, hx, List.cons_append]
            exact (values_erase hx).trans (hperm.cons _)
          · rw [hlook, lookup_erase_eq, List.filterMap_cons]
            simp only [List.mem_cons]
            split <;> split <;> simp_all

end Boxes

end Btls.Support
