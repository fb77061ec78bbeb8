import Mathlib.Tactic.Common

/-!
# Support — Slices

A list of slices read as one sequence, through a cursor `(i, off)`: the next element is
`bufs[i][off]`.  `unread bufs i off` is what the cursor has left, `skip` moves it past slices with
nothing left and `seek` past a number of elements.  None of the lemmas assumes the slices to be
non-empty.
-/

namespace Btls.Support.Slices

variable {α : Type*} {bufs : List (List α)} {b : List α} {bs : List (List α)} {i off n : Nat}

/-- The elements from the cursor on. -/
def unread (bufs : List (List α)) (i off : Nat) : List α := (bufs.drop i).flatten.drop off

theorem unread_zero : unread bufs 0 0 = bufs.flatten := by simp [unread]

theorem unread_of_drop_nil (h : bufs.drop i = []) : unread bufs i off = [] := by
  simp [unread, h]

theorem drop_succ_of_drop {xs rest : List α} {x : α} (h : xs.drop i = x :: rest) :
    xs.drop (i + 1) = rest := by
  rw [← List.tail_drop, h, List.tail_cons]

theorem getElem?_of_drop {xs rest : List α} {x : α} (h : xs.drop i = x :: rest) :
    xs[i]? = some x := by
  have hd : (xs.drop i)[0]? = xs[i + 0]? := List.getElem?_drop
  rw [h] at hd
  exact hd.symm

/-- The cursor has the rest of its slice and then the slices after it. -/
theorem unread_of_drop (h : bufs.drop i = b :: bs) (hoff : off ≤ b.length) :
    unread bufs i off = b.drop off ++ bs.flatten := by
  rw [unread, h, List.flatten_cons, List.drop_append_of_le_length hoff]

/-- Reading on within a slice. -/
theorem unread_add (h : bufs.drop i = b :: bs) (hn : off + n ≤ b.length) :
    unread bufs i off = (b.drop off).take n ++ unread bufs i (off + n) := by
  rw [unread_of_drop h (by omega), unread_of_drop h hn, ← List.append_assoc, ← List.drop_drop,
    List.take_append_drop]

/-- A cursor at the end of its slice is at the start of the next. -/
theorem unread_succ (h : bufs.drop i = b :: bs) (hoff : off = b.length) :
    unread bufs (i + 1) 0 = unread bufs i off := by
  rw [unread_of_drop h (Nat.le_of_eq hoff), unread, drop_succ_of_drop h, hoff]
  simp

/-! ### Moving the cursor -/

/-- The first cursor position, from `(i, off)` on, with an element to read; `none` past the
last. -/
def skip : List (List α) → Nat → Nat → Option (Nat × Nat)
  | [], _, _ => none
  | b :: bs, i, off => if off < b.length then some (i, off) else skip bs (i + 1) 0

/-- The cursor `n` elements further on. -/
def seek : List (List α) → Nat → Nat → Nat → Nat × Nat
  | [], i, off, _ => (i, off)
  | b :: bs, i, off, n =>
      if n = 0 then (i, off)
      else if n < b.length - off then (i, off + n)
      else seek bs (i + 1) 0 (n - (b.length - off))

/-- A cursor within its slice, or at the start of the end. -/
def Within (bufs : List (List α)) (i off : Nat) : Prop :=
  ∀ b, bufs[i]? = some b → off ≤ b.length

theorem within_zero : Within bufs i 0 := fun _ _ => Nat.zero_le _

theorem Within.le_of_drop (hw : Within bufs i off) (h : bufs.drop i = b :: bs) :
    off ≤ b.length := hw b (getElem?_of_drop h)

/-- `skip` leaves what is to be read unchanged, and stops where there is something. -/
theorem skip_spec (hw : Within bufs i off) :
    match skip (bufs.drop i) i off with
    | none => unread bufs i off = []
    | some (i', off') => unread bufs i' off' = unread bufs i off ∧
        ∃ b bs, bufs.drop i' = b :: bs ∧ off' < b.length := by
  generalize hd : bufs.drop i = d
  induction d generalizing i off with
  | nil => exact unread_of_drop_nil hd
  | cons b bs ih =>
      unfold skip
      by_cases h : off < b.length
      · rw [if_pos h]
        exact ⟨rfl, b, bs, hd, h⟩
      · rw [if_neg h, ← unread_succ hd (by have := hw.le_of_drop hd; omega)]
        exact ih within_zero (drop_succ_of_drop hd)

/-- `seek` drops `n` elements. -/
theorem seek_spec (hw : Within bufs i off) (hn : n ≤ (unread bufs i off).length) :
    let c := seek (bufs.drop i) i off n
    unread bufs c.1 c.2 = (unread bufs i off).drop n ∧ Within bufs c.1 c.2 := by
  generalize hd : bufs.drop i = d
  induction d generalizing i off n with
  | nil =>
      have hn0 : n = 0 := by simpa [unread_of_drop_nil hd] using hn
      exact ⟨by simp [seek, hn0], hw⟩
  | cons b bs ih =>
      have hoff := hw.le_of_drop hd
      unfold seek
      by_cases h0 : n = 0
      · simpa [h0] using hw
      by_cases h : n < b.length - off
      · simp only [if_neg h0, if_pos h]
        refine ⟨?_, fun b' hb' => ?_⟩
        · simp [unread]
        · obtain rfl : b' = b := by simpa [getElem?_of_drop hd] using hb'.symm
          omega
      · simp only [if_neg h0, if_neg h]
        have hlen : n - (b.length - off) ≤ (unread bufs (i + 1) 0).length := by
          rw [unread_of_drop hd hoff] at hn
          simp only [unread, drop_succ_of_drop hd, List.length_append, List.length_drop,
            List.drop_zero] at hn ⊢
          omega
        obtain ⟨h₁, h₂⟩ := ih within_zero hlen (drop_succ_of_drop hd)
        refine ⟨h₁.trans ?_, h₂⟩
        have hnil : (b.drop off).drop n = [] := List.drop_eq_nil_of_le (by simp; omega)
        rw [unread_of_drop hd hoff, List.drop_append, List.length_drop, hnil, unread,
          drop_succ_of_drop hd]
        simp

end Btls.Support.Slices
