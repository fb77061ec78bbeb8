import Mathlib.Logic.Relation

/-!
# Support — Descent

What a thing came from, link by link, down to a root.  Where links lead only to earlier things, each
has a root (`exists_descends`); a preorder that holds across every link holds between a thing and
each root it descends from (`Descends.rel`).
-/

namespace Btls.Support

variable {α : Type*} {parent : α → α → Prop} {root : α → Prop} {a b r : α}

/-- `r` is a root, and links lead to it from `a`. -/
def Descends (parent : α → α → Prop) (root : α → Prop) (a r : α) : Prop :=
  Relation.ReflTransGen parent a r ∧ root r

theorem Descends.of_root (h : root r) : Descends parent root r r := ⟨.refl, h⟩

theorem Descends.of_parent (h : parent a b) (hb : Descends parent root b r) :
    Descends parent root a r := ⟨.head h hb.1, hb.2⟩

/-- If whatever is no root has a link to something earlier, everything has a root. -/
theorem exists_descends (rank : α → Nat) {P : α → Prop}
    (h : ∀ a, P a → root a ∨ ∃ b, parent a b ∧ P b ∧ rank b < rank a) (ha : P a) :
    ∃ r, Descends parent root a r := by
  induction hn : rank a using Nat.strongRecOn generalizing a with
  | ind n ih =>
      rcases h a ha with hroot | ⟨b, hparent, hb, hlt⟩
      · exact ⟨a, .of_root hroot⟩
      · obtain ⟨r, hr⟩ := ih (rank b) (hn ▸ hlt) hb rfl
        exact ⟨r, hr.of_parent hparent⟩

/-- A preorder along the links relates a thing to its root. -/
theorem Descends.rel {R : α → α → Prop} (hrefl : ∀ a, R a a) (htrans : ∀ a b c, R a b → R b c → R a c)
    (hlink : ∀ a b, parent a b → R b a) (h : Descends parent root a r) : R r a := by
  obtain ⟨hlinks, -⟩ := h
  induction hlinks with
  | refl => exact hrefl _
  | tail _ hstep ih => exact htrans _ _ _ (hlink _ _ hstep) ih

end Btls.Support
