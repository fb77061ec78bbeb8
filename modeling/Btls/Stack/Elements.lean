import Btls.Stack.Stack

/-!
# Stack — Elements

What stacks are for: each has elements, and an iterator has those that it has not handed out
(`contents`); and what the calls on one stack do, where the references to its elements are counted.

`contents` is read off the calls of a program alone, so it is the account that the code is compared
with, and `Served` is what a program may be told by it.  An iterator has a range of indices into a
list that stays where it is; `Range.of` is what it has of that list, and `Range.turn_of` that asking
it at either end takes the element at that end.

The rest is one lemma for each function, over a list in BoringSSL's memory: what it returns, what
becomes of the list, and of the references.  The two `drop`s are loops that take from one end and
release (`drain_right`), which is what releases every element once.
-/

namespace Btls.Stack

open Btls.Support

variable {T σ S : Type}

/-- The elements of each stack, and those to come of each iterator. -/
abbrev Contents (T : Type) : Type := Assoc Addr (List T)

def Contents.of (cs : Contents T) (p : Addr) : List T := (cs.lookup p).getD []

/-- An element from an end, and the others. -/
def take : Turn → List T → Option T × List T
  | .front, l => (l.head?, l.tail)
  | .back, l => (l.getLast?, l.dropLast)

def deal : List Turn → List T → List (Option T)
  | [], _ => []
  | t :: ts, l => (take t l).1 :: deal ts (take t l).2

/-- What comes of the elements with a call. -/
def note (cs : Contents T) : Call T × Ret T → Contents T
  | (.new, .made p) => cs.insert p []
  | (.push p data, .unit) => cs.insert p (cs.of p ++ [data])
  | (.pop p, _) => cs.insert p (take .back (cs.of p)).2
  | (.next p t, _) => cs.insert p (take t (cs.of p)).2
  | (.dropStack p, _) | (.dropIntoIter p, _) => cs.erase p
  | _ => cs

def contents (ls : List (Call T × Ret T)) : Contents T := ls.foldl note ∅

/-- What a program may be told, with these elements. -/
def Served (cs : Contents T) : Call T → Ret T → Prop
  | .new, .made p => cs.lookup p = none
  | .new, .err | .push _ _, .err => True
  | .len p, .len n | .sizeHint p, .len n => n = (cs.of p).length
  | .get p idx, .elem e => e = (cs.of p)[idx]?
  | .index p idx, .elem e => e ≠ none ∧ e = (cs.of p)[idx]?
  | .index p idx, .panic => (cs.of p)[idx]? = none
  | .pop p, .elem e => e = (take .back (cs.of p)).1
  | .iter p ts, .elems es => es = deal ts (cs.of p)
  | .next p t, .elem e => e = (take t (cs.of p)).1
  | .acquire _, .unit | .drop _, .unit | .push _ _, .unit | .intoIter _, .unit | .dropStack _, .unit
  | .dropIntoIter _, .unit => True
  | _, _ => False

/-! ### From the ends -/

theorem take_perm (t : Turn) (l : List T) : l.Perm ((take t l).1.toList ++ (take t l).2) := by
  cases t with
  | front => cases l <;> exact .refl _
  | back =>
      rcases List.eq_nil_or_concat' l with rfl | ⟨l, e, rfl⟩
      · exact .refl _
      · simp only [take, List.getLast?_concat, List.dropLast_concat]
        exact List.perm_append_comm

/-- There is an element to take unless there is none. -/
theorem take_cases (t : Turn) (l : List T) :
    l = [] ∨ ∃ e, (take t l).1 = some e := by
  cases t with
  | front =>
      cases l with
      | nil => exact .inl rfl
      | cons e l => exact .inr ⟨e, rfl⟩
  | back =>
      rcases List.eq_nil_or_concat' l with rfl | ⟨l, e, rfl⟩
      · exact .inl rfl
      · exact .inr ⟨e, List.getLast?_concat⟩

/-- The elements at the indices. -/
def Range.of (r : Range) (l : List T) : List T := (l.take r.stop).drop r.start

theorem Range.length_of {r : Range} {l : List T} (hr : r.stop ≤ l.length) :
    (r.of l).length = r.stop - r.start := by
  rw [of, List.length_drop, List.length_take, Nat.min_eq_left hr]

theorem Range.of_all (l : List T) : Range.of ⟨0, l.length⟩ l = l := by
  rw [of, List.take_length, List.drop_zero]

/-- The next index is that of the element to take, and the indices after it are those of the others. -/
theorem Range.turn_of (t : Turn) {r : Range} {l : List T} (hr : r.stop ≤ l.length) :
    ((r.turn t).1.elim none fun i => l[i]?) = (take t (r.of l)).1
      ∧ (∀ i, (r.turn t).1 = some i → i < l.length)
      ∧ (r.turn t).2.of l = (take t (r.of l)).2 ∧ (r.turn t).2.stop ≤ l.length := by
  by_cases hlt : r.start < r.stop
  · cases t with
    | front =>
        rw [turn, if_pos hlt]
        refine ⟨?_, fun i hi => ?_, ?_, hr⟩
        · simp only [Option.elim_some, take, of, List.head?_drop, List.getElem?_take_of_lt hlt]
        · cases hi
          omega
        · simp only [take, of, List.tail_drop]
    | back =>
        have hlast : r.stop - 1 < l.length := by omega
        have hlen : (l.take r.stop).length = r.stop := List.length_take_of_le hr
        rw [turn, if_pos hlt]
        refine ⟨?_, fun i hi => ?_, ?_, Nat.le_trans (Nat.sub_le _ _) hr⟩
        · simp only [Option.elim_some, take, of]
          rw [List.getLast?_drop, if_neg (by omega), List.getLast?_eq_getElem?, hlen,
            List.getElem?_take_of_lt (by omega)]
        · cases hi
          exact hlast
        · simp only [take, of]
          rw [List.dropLast_eq_take, List.length_drop, hlen, List.take_drop, List.take_take]
          congr 2
          omega
  · have hnil : r.of l = [] := List.eq_nil_of_length_eq_zero (by rw [length_of hr]; omega)
    have hturn : r.turn t = (none, r) := by cases t <;> exact if_neg hlt
    rw [hturn, hnil]
    refine ⟨?_, nofun, ?_, hr⟩ <;> cases t <;> rfl

/-! ### One stack -/

variable {ffi : OpensslSk T σ} {lists : σ → Addr → Option (List T)} {w w' : World T σ} {p : Addr}
  {l held : List T} {cs : Contents T}

namespace Contents

/-- All elements, those of one stack first. -/
theorem flatten_perm (hp : cs.lookup p = some l) :
    (Assoc.values cs).flatten.Perm (l ++ (Assoc.values (cs.erase p)).flatten) :=
  (Assoc.values_erase hp).flatten

theorem flatten_insert (cs : Contents T) (p : Addr) (l : List T) :
    (Assoc.values (cs.insert p l)).flatten = l ++ (Assoc.values (cs.erase p)).flatten := by
  rw [Assoc.values_insert, List.flatten_cons]

theorem of_eq (hp : cs.lookup p = some l) : cs.of p = l := by rw [of, hp, Option.getD_some]

end Contents

theorem _get_eq (hffi : ffi.Keeps lists) (hp : lists w.mem p = some l) (idx : Nat) :
    _get ffi p idx w = l[idx]? := by
  rw [_get, hffi.value hp, Option.bind_some, id]

theorem next_eq (hffi : ffi.Keeps lists) (hp : lists w.mem p = some l) (t : Turn) {idxs : Range}
    (hidxs : idxs.stop ≤ l.length) :
    ∃ idxs', next ffi t p idxs w = some ((take t (idxs.of l)).1, idxs')
      ∧ idxs'.of l = (take t (idxs.of l)).2 ∧ idxs'.stop ≤ l.length := by
  obtain ⟨helem, hlt, hrest⟩ := Range.turn_of t hidxs
  refine ⟨(idxs.turn t).2, ?_, hrest⟩
  rw [next, ← helem]
  rcases hturn : idxs.turn t with ⟨- | i, idxs'⟩
  · rfl
  · have hi : i < l.length := hlt i (by rw [hturn])
    simp only [_get_eq hffi hp, List.getElem?_eq_getElem hi, Option.map_some, Option.elim_some]

theorem take_cons {t : Turn} {e : T} (he : (take t l).1 = some e) : l.Perm (e :: (take t l).2) := by
  have hperm := take_perm t l
  rwa [he] at hperm

theorem pop_eq (hffi : ffi.Keeps lists) (hp : lists w.mem p = some l) :
    ∃ mem, pop ffi p w = some ((take .back l).1, { w with mem := mem })
      ∧ lists mem = Function.update (lists w.mem) p (some (take .back l).2) := by
  obtain ⟨mem, hpop, hlists⟩ := hffi.pop hp
  exact ⟨mem, by rw [pop, hpop]; rfl, hlists⟩

/-- A loop that takes the elements of `l` from one end and releases them. -/
theorem drain_right (step : S → Option (Option T × S)) (release : T → S → Option S) (t : Turn)
    (I : List T → S → Prop)
    (hstep : ∀ l s, I l s → ∃ s', step s = some ((take t l).1, s')
      ∧ ∀ e, (take t l).1 = some e → ∃ s'', release e s' = some s'' ∧ I (take t l).2 s'')
    (hend : ∀ s, I [] s → ∃ s', step s = some (none, s') ∧ I [] s') {n : Nat} {s : S} (hs : I l s)
    (hn : l.length < n) : ∃ s', drain step release n s = some s' ∧ I [] s' := by
  induction n generalizing l s with
  | zero => exact absurd hn (Nat.not_lt_zero _)
  | succ n ih =>
      rcases take_cases t l with rfl | ⟨e, he⟩
      · obtain ⟨s', hs', hI⟩ := hend s hs
        exact ⟨s', by rw [drain, hs']; rfl, hI⟩
      · obtain ⟨s', hs', hrelease⟩ := hstep l s hs
        obtain ⟨s'', hs'', hI⟩ := hrelease e he
        have hlen := (take_perm t l).length_eq
        rw [he, Option.toList_some, List.singleton_append, List.length_cons] at hlen
        obtain ⟨s₃, hs₃, hend⟩ := ih hI (by omega)
        refine ⟨s₃, ?_, hend⟩
        rw [drain, hs', Option.bind_some, he]
        simp only [hs'', Option.bind_some, hs₃]

variable [DecidableEq T]

theorem borrow_eq (hw : Counted w.refs held) {e : T} (he : e ∈ held) : w.borrow e = some e :=
  if_neg (hw.alive he)

theorem release_eq {e : T} (hw : Counted w.refs (e :: held)) :
    ∃ refs, w.release e = some { w with refs := refs } ∧ Counted refs held :=
  ⟨_, if_neg (hw.alive List.mem_cons_self), hw.down⟩

/-- An iterator over elements that are there hands them out. -/
theorem iterate_eq (hffi : ffi.Keeps lists) (hp : lists w.mem p = some l) (hw : Counted w.refs held)
    (hl : ∀ e ∈ l, e ∈ held) (ts : List Turn) {idxs : Range} (hidxs : idxs.stop ≤ l.length) :
    iterate ffi p w ts idxs = some (deal ts (idxs.of l)) := by
  induction ts generalizing idxs with
  | nil => rfl
  | cons t ts ih =>
      obtain ⟨idxs', hnext, hof, hidxs'⟩ := next_eq hffi hp t hidxs
      have hborrow : ((take t (idxs.of l)).1.elim (some none) fun e => (w.borrow e).map some)
          = some (take t (idxs.of l)).1 := by
        cases he : (take t (idxs.of l)).1 with
        | none => rfl
        | some e =>
            have hmem : e ∈ idxs.of l := by
              rw [(take_perm t (idxs.of l)).mem_iff, he]
              exact List.mem_cons_self
            have hborrow := borrow_eq hw (hl e (List.mem_of_mem_take (List.mem_of_mem_drop hmem)))
            rw [Option.elim_some, hborrow, Option.map_some]
      simp only [iterate, hnext, Option.bind_some, hborrow, ih hidxs', hof, deal, Option.map_some]

theorem dropStack_eq (hffi : ffi.Keeps lists) (hp : lists w.mem p = some l)
    (hw : Counted w.refs (l ++ held)) :
    ∃ refs mem, dropStack ffi p w = some { w with refs := refs, mem := mem }
      ∧ lists mem = Function.update (lists w.mem) p none ∧ Counted refs held := by
  let I : List T → World T σ → Prop := fun l s => ∃ refs mem, s = { w with refs := refs, mem := mem }
    ∧ lists mem = Function.update (lists w.mem) p (some l) ∧ Counted refs (l ++ held)
  have hstart : I l w := ⟨w.refs, w.mem, rfl, by rw [← hp, Function.update_eq_self], hw⟩
  have hpopped : ∀ l s, I l s → ∃ mem, pop ffi p s = some ((take .back l).1, { s with mem := mem })
      ∧ lists mem = Function.update (lists w.mem) p (some (take .back l).2) := by
    rintro l s ⟨refs, mem, rfl, hlists, -⟩
    obtain ⟨mem', hpop, hlists'⟩ := pop_eq (w := { w with refs := refs, mem := mem }) hffi
      (by rw [hlists, Function.update_self])
    exact ⟨mem', hpop, by rw [hlists', hlists, Function.update_idem]⟩
  obtain ⟨s, hdrain, refs, mem, rfl, hlists, hcounted⟩ :=
    drain_right (pop ffi p) World.release .back I
      (fun l s hs => by
        obtain ⟨mem, hpop, hlists⟩ := hpopped l s hs
        obtain ⟨refs, _, rfl, -, hcounted⟩ := hs
        refine ⟨_, hpop, fun e he => ?_⟩
        obtain ⟨refs', hrelease, hcounted'⟩ := release_eq (w := { w with refs := refs, mem := mem })
          (hcounted.perm ((take_cons he).append_right held))
        exact ⟨_, hrelease, refs', mem, rfl, hlists, hcounted'⟩)
      (fun s hs => by
        obtain ⟨mem, hpop, hlists⟩ := hpopped [] s hs
        obtain ⟨refs, _, rfl, -, hcounted⟩ := hs
        exact ⟨_, hpop, refs, mem, rfl, hlists, hcounted⟩)
      hstart (Nat.lt_succ_self _)
  have hempty : lists mem p = some [] := by rw [hlists, Function.update_self]
  obtain ⟨mem', hfree, hlists'⟩ := hffi.free hempty
  refine ⟨refs, mem', ?_, by rw [hlists', hlists, Function.update_idem], hcounted⟩
  simp [dropStack, len, hffi.num hp, hdrain, hfree]

theorem dropIntoIter_eq (hffi : ffi.Keeps lists) (hp : lists w.mem p = some l) {idxs : Range}
    (hidxs : idxs.stop ≤ l.length) (hw : Counted w.refs (idxs.of l ++ held)) :
    ∃ refs mem, dropIntoIter ffi p idxs w = some { w with refs := refs, mem := mem }
      ∧ lists mem = Function.update (lists w.mem) p none ∧ Counted refs held := by
  let I : List T → Range × World T σ → Prop := fun l' s => ∃ refs, s.2 = { w with refs := refs }
    ∧ s.1.stop ≤ l.length ∧ s.1.of l = l' ∧ Counted refs (l' ++ held)
  have hnexted : ∀ l' s, I l' s → ∃ idxs, next ffi .front p s.1 s.2 = some ((take .front l').1, idxs)
      ∧ idxs.of l = (take .front l').2 ∧ idxs.stop ≤ l.length := by
    rintro l' ⟨idxs, s⟩ ⟨refs, rfl, hidxs, rfl, -⟩
    exact next_eq hffi hp .front hidxs
  obtain ⟨⟨idxs', s⟩, hdrain, refs, hs, -, -, hcounted⟩ :=
    drain_right (n := idxs.stop - idxs.start + 1) (s := (idxs, w))
      (advance ffi p) (fun e s => (s.2.release e).map (s.1, ·)) .front I
      (fun l' s hs => by
        obtain ⟨idxs, hnext, hof, hstop⟩ := hnexted l' s hs
        obtain ⟨refs, hs, -, -, hcounted⟩ := hs
        refine ⟨(idxs, s.2), by rw [advance, hnext]; rfl, fun e he => ?_⟩
        obtain ⟨refs', hrelease, hcounted'⟩ := release_eq (w := { w with refs := refs })
          (hcounted.perm ((take_cons he).append_right held))
        exact ⟨_, by rw [hs, hrelease]; rfl, refs', rfl, hstop, hof, hcounted'⟩)
      (fun s hs => by
        obtain ⟨idxs, hnext, hof, hstop⟩ := hnexted [] s hs
        obtain ⟨refs, hs, -, -, hcounted⟩ := hs
        exact ⟨(idxs, s.2), by rw [advance, hnext]; rfl, refs, hs, hstop, hof, hcounted⟩)
      ⟨w.refs, rfl, hidxs, rfl, hw⟩ (by rw [Range.length_of hidxs]; exact Nat.lt_succ_self _)
  dsimp only at hs
  obtain ⟨mem, hfree, hlists⟩ := hffi.free hp
  refine ⟨refs, mem, ?_, hlists, hcounted⟩
  simp [dropIntoIter, hdrain, hs, hfree]

end Btls.Stack
