import Btls.Support.Bytes

/-!
# Support — Memory

Memory whose bytes each carry a note of where they came from.  `write` puts bytes there under one
note, `Holds` reads them back, and `SameOutside` says what a run of writes left alone.

A note is of any type, so the same memory serves to follow what was copied, sealed or cleared.
Writes one behind the other are one write (`write_append`), a write over all that differs makes two
memories the same (`write_eq`), and a write of the two ends of a string, however they overlap, is a
write of the string (`write_ends`).
-/

namespace Btls.Support

/-- A byte and its note. -/
structure Cell (ω : Type*) where
  note : ω
  byte : UInt8
  deriving DecidableEq

/-- Memory, by address. -/
abbrev Memory (ω : Type*) := Nat → Cell ω

namespace Memory

variable {ω : Type*} {m m₁ m₂ : Memory ω} {o : ω} {a lo hi : Nat} {xs ys : Bytes}

/-- Puts `xs` at `addr`. -/
def write (m : Memory ω) (o : ω) (addr : Nat) (xs : Bytes) : Memory ω :=
  fun a => if addr ≤ a then (xs[a - addr]?.map (Cell.mk o)).getD (m a) else m a

/-- `xs` is at `addr`, under one note. -/
def Holds (m : Memory ω) (o : ω) (addr : Nat) (xs : Bytes) : Prop :=
  ∀ i b, xs[i]? = some b → m (addr + i) = ⟨o, b⟩

/-- The memories differ in `[lo, hi)` only. -/
def SameOutside (m₁ m₂ : Memory ω) (lo hi : Nat) : Prop :=
  ∀ a, a < lo ∨ hi ≤ a → m₂ a = m₁ a

@[simp] theorem write_nil (m : Memory ω) (o : ω) (addr : Nat) : m.write o addr [] = m := by
  funext a
  simp [write]

theorem write_outside (m : Memory ω) (o : ω) (addr : Nat) (xs : Bytes)
    (h : a < addr ∨ addr + xs.length ≤ a) : m.write o addr xs a = m a := by
  unfold write
  rcases h with h | h
  · rw [if_neg (Nat.not_le_of_lt h)]
  · rw [List.getElem?_eq_none (by omega)]
    simp

theorem write_inside (m : Memory ω) (o : ω) (addr : Nat) {xs : Bytes} {i : Nat} {b : UInt8}
    (h : xs[i]? = some b) : m.write o addr xs (addr + i) = ⟨o, b⟩ := by
  simp [write, h]

/-- A written byte is one of `xs`; any other is as it was. -/
theorem write_cases (m : Memory ω) (o : ω) (addr : Nat) (xs : Bytes) (a : Nat) :
    (m.write o addr xs a = m a ∧ (a < addr ∨ addr + xs.length ≤ a))
      ∨ ∃ i b, a = addr + i ∧ xs[i]? = some b ∧ m.write o addr xs a = ⟨o, b⟩ := by
  by_cases hout : a < addr ∨ addr + xs.length ≤ a
  · exact .inl ⟨write_outside m o addr xs hout, hout⟩
  · obtain ⟨i, rfl⟩ : ∃ i, a = addr + i := ⟨a - addr, by omega⟩
    have hi : i < xs.length := by omega
    exact .inr ⟨i, xs[i], rfl, List.getElem?_eq_getElem hi,
      write_inside m o addr (List.getElem?_eq_getElem hi)⟩

/-- A second write behind the first is one write. -/
theorem write_append (m : Memory ω) (o : ω) (addr : Nat) (xs ys : Bytes) :
    (m.write o addr xs).write o (addr + xs.length) ys = m.write o addr (xs ++ ys) := by
  funext a
  rcases write_cases (m.write o addr xs) o (addr + xs.length) ys a with
    ⟨hkeep, hout⟩ | ⟨i, b, rfl, hb, hnew⟩
  · rw [hkeep]
    rcases write_cases m o addr xs a with ⟨hkeep', hout'⟩ | ⟨i, b, rfl, hb, hnew⟩
    · rw [hkeep', write_outside m o addr (xs ++ ys) (by rw [List.length_append]; omega)]
    · obtain ⟨hi, -⟩ := List.getElem?_eq_some_iff.mp hb
      rw [hnew, write_inside m o addr (by rwa [List.getElem?_append_left hi])]
  · have hb' : (xs ++ ys)[xs.length + i]? = some b := by
      rwa [List.getElem?_append_right (Nat.le_add_right _ _), Nat.add_sub_cancel_left]
    rw [hnew, Nat.add_assoc, write_inside m o addr hb']

theorem write_holds (m : Memory ω) (o : ω) (addr : Nat) (xs : Bytes) :
    (m.write o addr xs).Holds o addr xs := fun _ _ h => write_inside m o addr h

theorem Holds.append {addr : Nat} (hx : m.Holds o addr xs)
    (hy : m.Holds o (addr + xs.length) ys) : m.Holds o addr (xs ++ ys) := by
  intro i b h
  by_cases hi : i < xs.length
  · rw [List.getElem?_append_left hi] at h
    exact hx i b h
  · rw [List.getElem?_append_right (by omega)] at h
    have := hy (i - xs.length) b h
    rwa [show addr + xs.length + (i - xs.length) = addr + i by omega] at this

namespace SameOutside

theorem refl (m : Memory ω) (lo hi : Nat) : m.SameOutside m lo hi := fun _ _ => rfl

theorem trans {m₃ : Memory ω} (h₁ : m₁.SameOutside m₂ lo hi) (h₂ : m₂.SameOutside m₃ lo hi) :
    m₁.SameOutside m₃ lo hi := fun a ha => (h₂ a ha).trans (h₁ a ha)

theorem mono {lo' hi' : Nat} (h : m₁.SameOutside m₂ lo hi) (hlo : lo' ≤ lo) (hhi : hi ≤ hi') :
    m₁.SameOutside m₂ lo' hi' := fun a ha => h a (by omega)

theorem eq_of_empty (h : m₁.SameOutside m₂ lo lo) : m₂ = m₁ := by
  funext a
  exact h a (Nat.lt_or_ge a lo)

/-- What lies outside the range is still there. -/
theorem holds (h : m₁.SameOutside m₂ lo hi) {addr : Nat} (hx : m₁.Holds o addr xs)
    (hout : addr + xs.length ≤ lo ∨ hi ≤ addr) : m₂.Holds o addr xs := by
  intro i b hb
  obtain ⟨hi, -⟩ := List.getElem?_eq_some_iff.mp hb
  rw [h (addr + i) (by omega)]
  exact hx i b hb

/-- Writing over all that differs makes the memories the same. -/
theorem write_eq (h : m₁.SameOutside m₂ lo hi) {addr : Nat} (hlo : addr ≤ lo)
    (hhi : hi ≤ addr + xs.length) : m₂.write o addr xs = m₁.write o addr xs := by
  funext a
  rcases write_cases m₂ o addr xs a with ⟨hkeep, hout⟩ | ⟨i, b, rfl, hb, hnew⟩
  · rw [hkeep, h a (by omega), write_outside m₁ o addr xs hout]
  · rw [hnew, write_inside m₁ o addr hb]

end SameOutside

theorem write_sameOutside (m : Memory ω) (o : ω) (addr : Nat) (xs : Bytes) :
    m.SameOutside (m.write o addr xs) addr (addr + xs.length) :=
  fun _ ha => write_outside m o addr xs ha

/-- Writing the same twice is writing it once. -/
theorem write_again (m : Memory ω) (o : ω) (addr : Nat) (xs : Bytes) :
    (m.write o addr xs).write o addr xs = m.write o addr xs :=
  (write_sameOutside m o addr xs).write_eq (Nat.le_refl _) (Nat.le_refl _)

/-- Two writes that overlap, of the two ends of `xs`. -/
theorem write_ends (m : Memory ω) (o : ω) (addr : Nat) {xs : Bytes} {i j : Nat} (hji : j ≤ i)
    (hi : i ≤ xs.length) :
    (m.write o addr (xs.take i)).write o (addr + j) (xs.drop j) = m.write o addr xs := by
  have hj : (xs.take j).length = j := List.length_take_of_le (Nat.le_trans hji hi)
  have hsplit : m.write o addr (xs.take i)
      = (m.write o addr (xs.take j)).write o (addr + j) ((xs.take i).drop j) := by
    have hparts : xs.take j ++ (xs.take i).drop j = xs.take i := by
      have h := List.take_append_drop j (xs.take i)
      rwa [List.take_take, Nat.min_eq_left hji] at h
    have happ := write_append m o addr (xs.take j) ((xs.take i).drop j)
    rw [hj, hparts] at happ
    exact happ.symm
  have hmid : addr + j + ((xs.take i).drop j).length ≤ addr + j + (xs.drop j).length := by
    simp only [List.length_drop, List.length_take]
    omega
  rw [hsplit, (write_sameOutside (m.write o addr (xs.take j)) o (addr + j)
    ((xs.take i).drop j)).write_eq (Nat.le_refl _) hmid]
  have hall := write_append m o addr (xs.take j) (xs.drop j)
  rwa [hj, List.take_append_drop] at hall

/-! ### Reading -/

/-- The `len` bytes at `addr`. -/
def read (m : Memory ω) (addr len : Nat) : Bytes := (List.range len).map fun i => (m (addr + i)).byte

@[simp] theorem read_length (m : Memory ω) (addr len : Nat) : (m.read addr len).length = len := by
  simp [read]

theorem getElem?_read (m : Memory ω) (addr : Nat) {len i : Nat} (h : i < len) :
    (m.read addr len)[i]? = some (m (addr + i)).byte := by
  simp [read, h]

theorem read_congr {addr len : Nat} (h : ∀ i < len, m₂ (addr + i) = m₁ (addr + i)) :
    m₂.read addr len = m₁.read addr len := by
  unfold read
  refine List.map_congr_left fun i hi => ?_
  rw [h i (List.mem_range.mp hi)]

theorem read_append (m : Memory ω) (addr n k : Nat) :
    m.read addr (n + k) = m.read addr n ++ m.read (addr + n) k := by
  unfold read
  rw [List.range_add, List.map_append, List.map_map]
  simp only [Function.comp_def, Nat.add_assoc]

/-- A part of what is read. -/
theorem take_drop_read (m : Memory ω) (addr : Nat) {len i n : Nat} (h : i + n ≤ len) :
    ((m.read addr len).drop i).take n = m.read (addr + i) n := by
  obtain ⟨k, rfl⟩ := Nat.exists_eq_add_of_le h
  rw [read_append, read_append, List.append_assoc, List.drop_left' (read_length m addr i),
    List.take_left' (read_length m _ n)]

theorem Holds.read {addr : Nat} (h : m.Holds o addr xs) : m.read addr xs.length = xs := by
  refine List.ext_getElem? fun i => ?_
  by_cases hi : i < xs.length
  · have hb := List.getElem?_eq_getElem hi
    rw [getElem?_read m addr hi, h i _ hb, hb]
  · rw [List.getElem?_eq_none (by rw [read_length]; exact Nat.not_lt.mp hi),
      List.getElem?_eq_none (Nat.not_lt.mp hi)]

theorem SameOutside.read (h : m₁.SameOutside m₂ lo hi) {addr len : Nat}
    (hout : addr + len ≤ lo ∨ hi ≤ addr) : m₂.read addr len = m₁.read addr len :=
  read_congr fun i hi => h (addr + i) (by omega)

/-- `OPENSSL_memcpy`, under one note. -/
def copy (m : Memory ω) (o : ω) (dst src len : Nat) : Memory ω := m.write o dst (m.read src len)

theorem copy_sameOutside (m : Memory ω) (o : ω) (dst src len : Nat) :
    m.SameOutside (m.copy o dst src len) dst (dst + len) := by
  have h := write_sameOutside m o dst (m.read src len)
  rwa [read_length] at h

end Memory

end Btls.Support
