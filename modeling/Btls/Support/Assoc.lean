import Mathlib.Data.List.AList
import Mathlib.Tactic.Common

/-!
# Support — Assoc

Maps with finitely many keys, and the list of their values: what an operation adds to it and takes
from it, up to order.

The maps are Mathlib's `AList`, with one type of values.  `values_erase` and `values_insert_perm`
are the two accounts: erasing a key takes its value off the list, and inserting one puts a value on
it in exchange for the one that was there.  With them what a map holds can be followed through any
operations as a multiset.
-/

namespace Btls.Support

variable {κ β γ : Type} [DecidableEq κ]

abbrev Assoc (κ β : Type) : Type := AList fun _ : κ => β

namespace Assoc

variable {h : Assoc κ β} {k : κ} {v : β}

def values (h : Assoc κ β) : List β := h.entries.map (·.2)

theorem values_erase (hk : h.lookup k = some v) : (values h).Perm (v :: values (h.erase k)) := by
  have hmem : k ∈ h.entries.keys := by
    rw [← AList.keys, ← AList.mem_keys, ← AList.lookup_isSome, hk]
    rfl
  obtain ⟨w, l₁, l₂, -, hl, hkerase⟩ := List.exists_of_kerase hmem
  have hw : w = v := by
    have hin : (⟨k, w⟩ : (_ : κ) × β) ∈ h.entries := by
      rw [hl]
      exact List.mem_append_right _ List.mem_cons_self
    exact Option.some.inj ((AList.mem_lookup_iff.mpr hin).symm.trans hk)
  have herase : values (h.erase k) = (l₁ ++ l₂).map (·.2) := congrArg (List.map _) hkerase
  rw [herase, values, hl, hw, List.map_append, List.map_append, List.map_cons]
  exact List.perm_middle

theorem values_insert_new (hk : k ∉ h) : values (h.insert k v) = v :: values h := by
  rw [values, AList.entries_insert_of_notMem hk]
  rfl

theorem values_insert (k : κ) (v : β) (h : Assoc κ β) :
    values (h.insert k v) = v :: values (h.erase k) := by
  rw [values, AList.entries_insert]
  rfl

/-- The value that was there, if any, makes room for the new one. -/
theorem values_insert_perm (k : κ) (v : β) (h : Assoc κ β) :
    (v :: values h).Perm ((h.lookup k).toList ++ values (h.insert k v)) := by
  cases hk : h.lookup k with
  | none =>
      rw [values_insert_new (AList.lookup_eq_none.mp hk)]
      exact List.Perm.refl _
  | some old =>
      rw [values_insert]
      exact ((values_erase hk).cons v).trans (.swap _ _ _)

theorem values_eq_nil (hh : ∀ k, h.lookup k = none) : values h = [] := by
  rw [values, List.map_eq_nil_iff, List.eq_nil_iff_forall_not_mem]
  intro e he
  have hk := hh e.1
  rw [AList.mem_lookup_iff.mpr he] at hk
  cases hk

theorem mem_values (hk : h.lookup k = some v) : v ∈ values h :=
  List.mem_map.mpr ⟨⟨k, v⟩, AList.mem_lookup_iff.mp hk, rfl⟩

theorem lookup_erase_eq (k k' : κ) (h : Assoc κ β) :
    (h.erase k).lookup k' = if k' = k then none else h.lookup k' := by
  split
  · next hk => rw [hk, AList.lookup_erase]
  · next hk => exact AList.lookup_erase_ne hk

theorem lookup_insert_eq (k k' : κ) (v : β) (h : Assoc κ β) :
    (h.insert k v).lookup k' = if k' = k then some v else h.lookup k' := by
  split
  · next hk => rw [hk, AList.lookup_insert]
  · next hk => exact AList.lookup_insert_ne hk

end Assoc

end Btls.Support
