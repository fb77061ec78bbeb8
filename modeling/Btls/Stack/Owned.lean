import Btls.Stack.Elements

/-!
# Stack — Owned

The elements of all stacks and iterators: each is where it should be and has its reference (`Fits`),
which every call keeps (`Fits.exec`), so after any calls the next one goes right and nothing is left
over (`elements_kept`).

An element belongs to the stack that it was pushed to, to the iterator that has not handed it out
yet, or to the program that got it.  Dropping a stack or an iterator drops what is left in it, and a
push that fails drops what it was given.  `Holds` says what a pointer is to, by its owner; `Counted`
that an element's references are its copies in the hands of the program and in all of the lists.
-/

namespace Btls.Stack

open Btls.Support

variable {T σ : Type}

/-- What a pointer is to: a list, what the program owns through it, and the elements of that. -/
inductive Holds : Option (List T) → Option Owner → Option (List T) → Prop where
  | none : Holds none none none
  | stack (l : List T) : Holds (some l) (some .stack) (some l)
  | intoIter {l : List T} {idxs : Range} (h : idxs.stop ≤ l.length) :
      Holds (some l) (some (.intoIter idxs)) (some (idxs.of l))

section

variable {list elems : Option (List T)} {o : Option Owner}

theorem Holds.stack_inv (h : Holds list (some .stack) elems) :
    ∃ l, list = some l ∧ elems = some l := by
  cases h with
  | stack l => exact ⟨l, rfl, rfl⟩

theorem Holds.intoIter_inv {idxs : Range} (h : Holds list (some (.intoIter idxs)) elems) :
    ∃ l, list = some l ∧ idxs.stop ≤ l.length ∧ elems = some (idxs.of l) := by
  cases h with
  | intoIter h => exact ⟨_, rfl, h, rfl⟩

theorem Holds.unowned_inv (h : Holds list .none elems) : list = .none ∧ elems = .none := by
  cases h with
  | none => exact ⟨rfl, rfl⟩

theorem Holds.absent_inv (h : Holds .none o elems) : o = .none ∧ elems = .none := by
  cases h with
  | none => exact ⟨rfl, rfl⟩

end

variable [DecidableEq T] {ffi : OpensslSk T σ} {lists : σ → Addr → Option (List T)}
  {w w' : World T σ} {p : Addr} {l : List T} {cs : Contents T}

variable (lists) in
/-- The elements are where they should be, and each of them and of the program's own is counted. -/
structure Fits (w : World T σ) (cs : Contents T) : Prop where
  holds : ∀ p, Holds (lists w.mem p) (w.owners p) (cs.lookup p)
  counted : Counted w.refs (w.hands ++ (Assoc.values cs).flatten)

namespace Fits

theorem start {s : σ} (hs : ∀ p, lists s p = none) : Fits lists (World.start s) (∅ : Contents T) :=
  ⟨fun p => by rw [World.start, hs p, AList.lookup_empty]; exact .none, fun _ => rfl⟩

/-- A stack is one, and its elements are there. -/
theorem stack (hw : Fits lists w cs) (hp : w.owners p = some .stack) :
    ∃ l, lists w.mem p = some l ∧ cs.lookup p = some l :=
  (hp ▸ hw.holds p).stack_inv

theorem intoIter (hw : Fits lists w cs) {idxs : Range} (hp : w.owners p = some (.intoIter idxs)) :
    ∃ l, lists w.mem p = some l ∧ idxs.stop ≤ l.length ∧ cs.lookup p = some (idxs.of l) :=
  (hp ▸ hw.holds p).intoIter_inv

/-- What the program does not have is not there. -/
theorem unowned (hw : Fits lists w cs) (hp : w.owners p = none) :
    lists w.mem p = none ∧ cs.lookup p = none :=
  (hp ▸ hw.holds p).unowned_inv

/-- Where there is no list there is no owner, and there are no elements. -/
theorem absent (hw : Fits lists w cs) (hp : lists w.mem p = none) :
    w.owners p = none ∧ cs.lookup p = none :=
  (hp ▸ hw.holds p).absent_inv

/-- The references, with those of one stack's elements first. -/
theorem counted_at (hw : Fits lists w cs) (hp : cs.lookup p = some l) :
    Counted w.refs (l ++ (w.hands ++ (Assoc.values (cs.erase p)).flatten)) := by
  refine hw.counted.perm (((Contents.flatten_perm hp).append_left _).trans ?_)
  rw [← List.append_assoc, ← List.append_assoc]
  exact List.perm_append_comm.append_right _

/-- One stack or iterator changes, comes or goes. -/
theorem put (hw : Fits lists w cs) {cs' : Contents T} {o : Option Owner} {x : Option (List T)}
    (hlists : lists w'.mem = Function.update (lists w.mem) p x)
    (howners : w'.owners = Function.update w.owners p o)
    (hcs : ∀ q, q ≠ p → cs'.lookup q = cs.lookup q) (hp : Holds x o (cs'.lookup p))
    (hcounted : Counted w'.refs (w'.hands ++ (Assoc.values cs').flatten)) : Fits lists w' cs' := by
  refine ⟨fun q => ?_, hcounted⟩
  by_cases hq : q = p
  · subst hq
    rw [hlists, howners, Function.update_self, Function.update_self]
    exact hp
  · rw [hlists, howners, Function.update_of_ne hq, Function.update_of_ne hq, hcs q hq]
    exact hw.holds q

/-- One stack or iterator goes, with its elements. -/
theorem gone (hw : Fits lists w cs) (hlists : lists w'.mem = Function.update (lists w.mem) p none)
    (howners : w'.owners = Function.update w.owners p none)
    (hcounted : Counted w'.refs (w'.hands ++ (Assoc.values (cs.erase p)).flatten)) :
    Fits lists w' (cs.erase p) := by
  refine hw.put hlists howners (fun q hq => AList.lookup_erase_ne hq) ?_ hcounted
  rw [AList.lookup_erase]
  exact .none

/-- What is taken from an end is the program's. -/
theorem handed (hw : Fits lists w cs) (hp : cs.lookup p = some l) (t : Turn) :
    Counted w.refs ((take t l).1.toList ++ w.hands
      ++ (Assoc.values (cs.insert p (take t l).2)).flatten) := by
  refine (hw.counted_at hp).perm (((take_perm t l).append_right _).trans ?_)
  rw [Contents.flatten_insert, List.append_assoc, List.append_assoc]
  exact (List.perm_append_comm_assoc ..).append_left _

theorem get_eq (hffi : ffi.Keeps lists) (hw : Fits lists w cs) (hp : w.owners p = some .stack)
    (idx : Nat) : Stack.get ffi p idx w = some (cs.of p)[idx]? := by
  obtain ⟨l, hl, hcs⟩ := hw.stack hp
  rw [Stack.get, len, hffi.num hl, Option.bind_some, Contents.of_eq hcs]
  split
  · next hge => rw [List.getElem?_eq_none hge]
  · next hlt =>
      have hidx : idx < l.length := Nat.lt_of_not_le hlt
      have hborrow := borrow_eq (hw.counted_at hcs) (List.mem_append_left _ (List.getElem_mem hidx))
      rw [_get_eq hffi hl, List.getElem?_eq_getElem hidx, Option.bind_some, hborrow, Option.map_some]

theorem push (hffi : ffi.Keeps lists) (hw : Fits lists w cs) (hp : w.owners p = some .stack) {data : T}
    (hdata : data ∈ w.hands) :
    ∃ ok w', Stack.push ffi p data { w with hands := w.hands.erase data } = some (ok, w')
      ∧ Fits lists w' (if ok then cs.insert p (cs.of p ++ [data]) else cs) := by
  obtain ⟨l, hl, hcs⟩ := hw.stack hp
  obtain ⟨ok, mem, hpush, hlists⟩ := hffi.push hl data
  have hgiven := List.perm_cons_erase hdata
  rw [Stack.push, hpush, Option.bind_some]
  cases ok with
  | true =>
      refine ⟨true, _, rfl, hw.put hlists (Function.update_eq_self p w.owners).symm
        (fun q hq => AList.lookup_insert_ne hq) ?_ ?_⟩
      · rw [if_pos rfl, AList.lookup_insert, Contents.of_eq hcs, hp]
        exact .stack _
      · rw [if_pos rfl, Contents.flatten_insert, Contents.of_eq hcs]
        refine (hw.counted_at hcs).perm (List.perm_iff_count.mpr fun e => ?_)
        have hcount := hgiven.count_eq e
        simp only [List.count_append, List.count_cons, List.count_nil] at hcount ⊢
        omega
  | false =>
      obtain ⟨refs, hrelease, hcounted⟩ :=
        release_eq (w := { w with hands := w.hands.erase data, mem := mem })
          (hw.counted.perm (hgiven.append_right _))
      refine ⟨false, _, congrArg (Option.map (false, ·)) hrelease, fun q => ?_, hcounted⟩
      rw [hlists]
      exact hw.holds q

/-- One call. -/
theorem exec (hffi : ffi.Keeps lists) (hw : Fits lists w cs) (c : Call T) (hc : c.Allowed w) :
    ∃ r w', Stack.exec ffi c w = some (r, w') ∧ Served cs c r ∧ Fits lists w' (note cs (c, r)) := by
  cases c with
  | acquire e => exact ⟨_, _, rfl, trivial, hw.holds, hw.counted.up e⟩
  | drop e =>
      obtain ⟨refs, hrelease, hcounted⟩ := release_eq (w := { w with hands := w.hands.erase e })
        (hw.counted.perm ((List.perm_cons_erase hc).append_right _))
      exact ⟨_, _, congrArg (Option.map (Ret.unit, ·)) hrelease, trivial, hw.holds, hcounted⟩
  | new =>
      rw [Stack.exec]
      rcases hnew : ffi.newNull w.mem with ⟨- | p, mem⟩
      · refine ⟨_, _, rfl, trivial, fun q => ?_, hw.counted⟩
        rw [hffi.noMemory hnew]
        exact hw.holds q
      · obtain ⟨hfresh, hlists⟩ := hffi.newNull hnew
        have habsent := (hw.absent hfresh).2
        refine ⟨_, _, rfl, habsent, hw.put hlists rfl (fun q hq => AList.lookup_insert_ne hq) ?_ ?_⟩
        · rw [note, AList.lookup_insert]
          exact .stack []
        · rw [note, Assoc.values_insert_new (AList.lookup_eq_none.mp habsent)]
          exact hw.counted
  | len p =>
      obtain ⟨l, hl, hcs⟩ := hw.stack hc
      exact ⟨_, _, congrArg (Option.map _) (hffi.num hl), (Contents.of_eq hcs).symm ▸ rfl, hw⟩
  | get p idx => exact ⟨_, _, congrArg (Option.map _) (hw.get_eq hffi hc idx), rfl, hw⟩
  | index p idx =>
      refine ⟨_, _, congrArg (Option.map _) (hw.get_eq hffi hc idx), ?_, ?_⟩
      · rcases he : (cs.of p)[idx]? with - | e
        · exact he
        · exact ⟨nofun, he.symm⟩
      · exact hw
  | push p data =>
      obtain ⟨ok, w', hpush, hfits⟩ := hw.push hffi hc.1 hc.2
      refine ⟨_, w', congrArg (Option.map _) hpush, ?_, ?_⟩ <;> cases ok
      · trivial
      · trivial
      · exact hfits
      · exact hfits
  | pop p =>
      obtain ⟨l, hl, hcs⟩ := hw.stack hc
      obtain ⟨mem, hpop, hlists⟩ := pop_eq hffi hl
      refine ⟨_, _, congrArg (Option.map _) hpop, (Contents.of_eq hcs).symm ▸ rfl,
        hw.put hlists (Function.update_eq_self p w.owners).symm
          (fun q hq => AList.lookup_insert_ne hq) ?_ ?_⟩
      · rw [note, AList.lookup_insert, Contents.of_eq hcs, hc]
        exact .stack _
      · rw [note, Contents.of_eq hcs]
        exact hw.handed hcs .back
  | iter p ts =>
      obtain ⟨l, hl, hcs⟩ := hw.stack hc
      have hiter : iterate ffi p w ts ⟨0, l.length⟩ = some (deal ts (Range.of ⟨0, l.length⟩ l)) :=
        iterate_eq hffi hl (hw.counted_at hcs) (fun e he => List.mem_append_left _ he) ts (Nat.le_refl _)
      rw [Range.of_all] at hiter
      rw [Stack.exec, len, hffi.num hl, Option.bind_some, hiter]
      exact ⟨_, _, rfl, (Contents.of_eq hcs).symm ▸ rfl, hw⟩
  | intoIter p =>
      obtain ⟨l, hl, hcs⟩ := hw.stack hc
      refine ⟨_, _, congrArg (Option.map _) (hffi.num hl), trivial,
        hw.put (x := some l) ?_ rfl (fun _ _ => rfl) ?_ hw.counted⟩
      · exact (hl ▸ Function.update_eq_self p (lists w.mem)).symm
      · have hall : Holds (some l) (some (.intoIter ⟨0, l.length⟩))
            (some (Range.of ⟨0, l.length⟩ l)) := .intoIter (Nat.le_refl _)
        rw [Range.of_all] at hall
        exact hcs.symm ▸ hall
  | next p t =>
      obtain ⟨idxs, hc⟩ := hc
      obtain ⟨l, hl, hidxs, hcs⟩ := hw.intoIter hc
      obtain ⟨idxs', hnext, hof, hidxs'⟩ := next_eq hffi hl t hidxs
      rw [Stack.exec, World.idxs, hc, Option.bind_some, hnext]
      refine ⟨_, _, rfl, (Contents.of_eq hcs).symm ▸ rfl,
        hw.put (x := some l) ?_ rfl (fun q hq => AList.lookup_insert_ne hq) ?_ ?_⟩
      · exact (hl ▸ Function.update_eq_self p (lists w.mem)).symm
      · rw [note, AList.lookup_insert, Contents.of_eq hcs, ← hof]
        exact .intoIter hidxs'
      · rw [note, Contents.of_eq hcs]
        exact hw.handed hcs t
  | sizeHint p =>
      obtain ⟨idxs, hc⟩ := hc
      obtain ⟨l, hl, hidxs, hcs⟩ := hw.intoIter hc
      rw [Stack.exec, World.idxs, hc]
      exact ⟨_, _, rfl, by rw [Served, Contents.of_eq hcs, Range.length_of hidxs], hw⟩
  | dropStack p =>
      obtain ⟨l, hl, hcs⟩ := hw.stack hc
      obtain ⟨refs, mem, hdrop, hlists, hcounted⟩ := dropStack_eq hffi hl (hw.counted_at hcs)
      exact ⟨_, _, congrArg (Option.map _) hdrop, trivial, hw.gone hlists rfl hcounted⟩
  | dropIntoIter p =>
      obtain ⟨idxs, hc⟩ := hc
      obtain ⟨l, hl, hidxs, hcs⟩ := hw.intoIter hc
      obtain ⟨refs, mem, hdrop, hlists, hcounted⟩ := dropIntoIter_eq hffi hl hidxs (hw.counted_at hcs)
      rw [Stack.exec, World.idxs, hc, Option.bind_some, hdrop]
      exact ⟨_, _, rfl, trivial, hw.gone hlists rfl hcounted⟩

end Fits

/-- Any calls. -/
theorem Fits.run (hffi : ffi.Keeps lists) {s : σ} (hs : ∀ p, lists s p = none)
    {ls : List (Call T × Ret T)} (h : Run (Step ffi) (World.start s) ls w) :
    Fits lists w (contents ls) := by
  induction h with
  | nil => exact Fits.start hs
  | snoc _ hstep ih =>
      obtain ⟨hallowed, hdone⟩ := hstep
      obtain ⟨r, w', hexec, -, hfits⟩ := ih.exec hffi _ hallowed
      rw [hexec] at hdone
      cases Option.some.inj hdone
      rw [contents, List.foldl_append]
      exact hfits

/-- **What is pushed is handed out or released, once.**  After any calls, a call on what the program has goes
right and answers for the elements that the calls before left; the references to a `T` are the program's own
and those of the elements; a list is there while the program has the stack or iterator; and nothing is left of
a program that has let go of everything. -/
theorem elements_kept (hffi : ffi.Keeps lists) {s : σ} (hs : ∀ p, lists s p = none)
    {ls : List (Call T × Ret T)} (h : Run (Step ffi) (World.start s) ls w) :
    (∀ c, c.Allowed w → ∃ r w', exec ffi c w = some (r, w') ∧ Served (contents ls) c r)
      ∧ (∀ e, w.refs e = w.hands.count e + (Assoc.values (contents ls)).flatten.count e)
      ∧ (∀ p, w.owners p = none ↔ lists w.mem p = none)
      ∧ (w.hands = [] → (∀ p, w.owners p = none) → ∀ e, w.refs e = 0) := by
  have hfits := Fits.run hffi hs h
  have hcount : ∀ e, w.refs e = w.hands.count e + (Assoc.values (contents ls)).flatten.count e :=
    fun e => by rw [hfits.counted e, List.count_append]
  refine ⟨fun c hc => ?_, hcount, fun p => ⟨fun hp => (hfits.unowned hp).1, fun hp => (hfits.absent hp).1⟩,
    fun hhands howners e => ?_⟩
  · obtain ⟨r, w', hexec, hserved, -⟩ := hfits.exec hffi c hc
    exact ⟨r, w', hexec, hserved⟩
  · have hnil : Assoc.values (contents ls) = [] :=
      Assoc.values_eq_nil fun p => (hfits.unowned (howners p)).2
    rw [hcount, hhands, hnil]
    rfl

/-! ### Pairs -/

/-- Lists of at most two pointers, at addresses to come. -/
def pairs : OpensslSk Nat ((Addr → Option (List Nat)) × List Addr) where
  newNull
    | (m, []) => (none, m, [])
    | (m, p :: ps) => if (m p).isNone then (some p, Function.update m p (some []), ps) else (none, m, ps)
  num p s := (s.1 p).map List.length
  value p i s := (s.1 p).map fun l => l[i]?
  push p e s := (s.1 p).map fun l =>
    if l.length < 2 then (true, Function.update s.1 p (some (l ++ [e])), s.2) else (false, s)
  pop p s := (s.1 p).map fun l => (l.getLast?, Function.update s.1 p (some l.dropLast), s.2)
  free p s := (s.1 p).map fun _ => (Function.update s.1 p none, s.2)

theorem pairs_keeps : pairs.Keeps Prod.fst where
  newNull {p s s'} h := by
    obtain ⟨m, - | ⟨q, ps⟩⟩ := s
    · cases h
    · simp only [pairs] at h
      split at h
      · next hq =>
          cases h
          exact ⟨Option.isNone_iff_eq_none.mp hq, rfl⟩
      · cases h
  noMemory {s s'} h := by
    obtain ⟨m, - | ⟨q, ps⟩⟩ := s
    · cases h
      rfl
    · simp only [pairs] at h
      split at h
      · cases h
      · cases h
        rfl
  num h := congrArg (Option.map List.length) h
  value h _ := congrArg (Option.map _) h
  push {p l s} h e := by
    by_cases hl : l.length < 2
    · refine ⟨true, (Function.update s.1 p (some (l ++ [e])), s.2), ?_, rfl⟩
      simp only [pairs, h, Option.map_some, if_pos hl]
    · refine ⟨false, s, ?_, rfl⟩
      simp only [pairs, h, Option.map_some, if_neg hl]
  pop {p l s} h :=
    ⟨(Function.update s.1 p (some l.dropLast), s.2), congrArg (Option.map _) h, rfl⟩
  free {p l s} h := ⟨(Function.update s.1 p none, s.2), congrArg (Option.map _) h, rfl⟩

/-- A `T` and its clone are pushed, for a third there is no room, and an iterator hands out the clone. -/
def sharedAndIterated : List (Call Nat × Ret Nat) :=
  [(.new, .made 1), (.acquire 7, .unit), (.acquire 7, .unit), (.acquire 8, .unit), (.push 1 7, .unit),
    (.push 1 7, .unit), (.push 1 8, .err), (.intoIter 1, .unit), (.next 1 .back, .elem (some 7))]

theorem sharedAndIterated_run :
    ∃ w, Run (Step pairs) (World.start (fun _ => none, [1])) sharedAndIterated w ∧ w.hands = [7]
      ∧ w.owners 1 = some (.intoIter ⟨0, 1⟩) := by
  refine ⟨_, .snoc (.snoc (.snoc (.snoc (.snoc (.snoc (.snoc (.snoc (.snoc (.nil _) ⟨trivial, rfl⟩)
    ⟨trivial, rfl⟩) ⟨trivial, rfl⟩) ⟨trivial, rfl⟩) ⟨⟨rfl, ?_⟩, rfl⟩) ⟨⟨rfl, ?_⟩, rfl⟩)
    ⟨⟨rfl, ?_⟩, rfl⟩) ⟨rfl, rfl⟩) ⟨⟨_, rfl⟩, rfl⟩, rfl, rfl⟩
  · exact .tail _ (.head _)
  · exact .tail _ (.head _)
  · exact .head _

theorem elements_kept_pairs :
    ∃ w, Run (Step pairs) (World.start (fun _ => none, [1])) sharedAndIterated w
      ∧ (∃ r w', exec pairs (.dropIntoIter 1) w = some (r, w')
        ∧ Served (contents sharedAndIterated) (.dropIntoIter 1) r)
      ∧ w.refs 7 = 2 ∧ w.refs 8 = 0 := by
  obtain ⟨w, hr, hhands, howner⟩ := sharedAndIterated_run
  obtain ⟨hcalls, hrefs, -, -⟩ := elements_kept pairs_keeps (fun _ => rfl) hr
  exact ⟨w, hr, hcalls _ ⟨_, howner⟩, by rw [hrefs, hhands]; rfl, by rw [hrefs, hhands]; rfl⟩

end Btls.Stack
