import Btls.Hello.Extensions
import Btls.Support.Except
import Btls.Support.Shuffle
import Mathlib.Data.List.Perm.Subperm

/-!
# Hello — Order

`ssl_setup_extension_order`: the rows of `kExtensions` that `SSL_CTX_set_extension_order` names, in
the order it names them, then the others at random.  An array access out of bounds is an error of
its own (`outOfBounds`), and so is every branch that the source reports as internal.

The function fills an array in two loops: over the configured IDs, which skips those that the table
does not know or that came before, and over the rows, which skips those that the first loop saw.
`Filled` is the invariant of both: what was written so far are rows, each once, and `seen` is set
for just the configured ones.

* `filled_all`: the two loops fill the array, so neither the accesses nor the internal errors are
  reached.
* `configured_order`: the result is a permutation of the rows.  It begins with the configured IDs
  that the table knows, each once and in the order of their first occurrence, and only `RAND_bytes`
  can fail.
* `exists_order`: what is returned for a table is the order in which the encoder goes through its
  rows.
-/

namespace Btls.Hello

open Btls.Support

inductive OrderError where
  | outOfBounds
  | internalError
  /-- `RAND_bytes` failed. -/
  | randFailed
  deriving DecidableEq

/-! ### The code -/

/-- `SSL_CTX_set_extension_order`: the new `extension_order`. -/
def setExtensionOrder (ids : List Nat) (num : Int) : List Nat :=
  if 0 < num then ids.take num.toNat else []

/-- The locals of `ssl_setup_extension_order`: `permutation` up to `permutation_len`, and `seen`. -/
structure Filling where
  permutation : List UInt8
  seen : List Bool
  deriving DecidableEq

/-- `xs[i]`, checked. -/
def access {α : Type} (xs : List α) (i : Nat) : Except OrderError α :=
  match xs[i]? with
  | none => .error .outOfBounds
  | some x => .ok x

variable (kExtensions : List Nat) -- the values of the rows

/-- `permutation[permutation_len++] = j`. -/
def Filling.push (st : Filling) (j : Nat) : Except OrderError Filling :=
  if kExtensions.length ≤ st.permutation.length then .error .internalError
  else .ok { st with permutation := st.permutation ++ [UInt8.ofNat j] }

/-- One round of the loop over `extension_order`. -/
def Filling.addConfigured (st : Filling) (id : Nat) : Except OrderError Filling :=
  let j := kExtensions.idxOf id
  if j = kExtensions.length then .ok st
  else do
    let seen ← access st.seen j
    if seen then return st
    else do
      let st ← st.push kExtensions j
      return { st with seen := st.seen.set j true }

/-- One round of the loop over the rows. -/
def Filling.addOther (st : Filling) (i : Nat) : Except OrderError Filling := do
  let seen ← access st.seen i
  if seen then return st else st.push kExtensions i

/-- `ssl_shuffle_extension_order_suffix`.  `draw n` are `n` random numbers, `none` when `RAND_bytes`
fails. -/
def shuffleSuffix (draw : Nat → Option (List UInt32)) (suffix : List UInt8) :
    Except OrderError (List UInt8) :=
  if suffix.length < 2 then .ok suffix
  else if kExtensions.length < suffix.length then .error .internalError
  else
    let seedsNum := suffix.length - 1
    if kExtensions.length - 1 < seedsNum then .error .outOfBounds
    else
      match draw seedsNum with
      | none => .error .randFailed
      | some seeds =>
          match shuffle (fun i => seeds[i - 1]?.map fun seed => seed.toNat % (i + 1)) seedsNum suffix with
          | none => .error .outOfBounds
          | some suffix => .ok suffix

/-- `ssl_setup_extension_order`: the new `extension_permutation`.  Without a configured order it is the
one of `ssl_setup_extension_permutation`. -/
def setupExtensionOrder (draw : Nat → Option (List UInt32))
    (setupExtensionPermutation : Except OrderError (List UInt8)) (extensionOrder : List Nat) :
    Except OrderError (List UInt8) :=
  if extensionOrder.isEmpty then setupExtensionPermutation
  else do
    let st ← extensionOrder.foldlM (Filling.addConfigured kExtensions)
      ⟨[], List.replicate kExtensions.length false⟩
    let suffixOffset := st.permutation.length
    let st ← (List.range kExtensions.length).foldlM (Filling.addOther kExtensions) st
    if st.permutation.length ≠ kExtensions.length then throw .internalError
    else do
      let suffix ← shuffleSuffix kExtensions draw (st.permutation.drop suffixOffset)
      return st.permutation.take suffixOffset ++ suffix

/-! ### The two loops -/

/-- The configured IDs that the table knows, each once, in the order of their first occurrence. -/
def knownIds (ids : List Nat) : List Nat := (ids.filter (· ∈ kExtensions)).eraseDups

/-- `rows` is what was written so far, and `seen` is set for the configured ones among them. -/
structure Filled (configured rows : List Nat) (st : Filling) : Prop where
  permutation : st.permutation = rows.map UInt8.ofNat
  seen : ∀ j < kExtensions.length, st.seen[j]? = some (decide (j ∈ configured))
  nodup : rows.Nodup
  lt : ∀ j ∈ rows, j < kExtensions.length

variable {kExtensions : List Nat} {ids rows configured : List Nat} {st : Filling} {id j : Nat}

/-- What is known of a list is what is in it and among the rows. -/
theorem mem_knownIds : id ∈ knownIds kExtensions ids ↔ id ∈ ids ∧ id ∈ kExtensions := by
  rw [knownIds, List.mem_eraseDups, List.mem_filter, decide_eq_true_iff]

/-- A row that is named for the first time is added. -/
theorem knownIds_append_of_new (hid : id ∈ kExtensions) (hnew : id ∉ ids) :
    knownIds kExtensions (ids ++ [id]) = knownIds kExtensions ids ++ [id] := by
  have hfilter : [id].filter (· ∈ kExtensions) = [id] := by simp [hid]
  have hremove : [id].removeAll (ids.filter (· ∈ kExtensions)) = [id] := by
    simp [List.cons_removeAll, hnew]
  rw [knownIds, List.filter_append, List.eraseDups_append, hfilter, hremove]
  rfl

/-- One that is no row or was named before is not. -/
theorem knownIds_append_of_old (h : id ∉ kExtensions ∨ id ∈ ids) :
    knownIds kExtensions (ids ++ [id]) = knownIds kExtensions ids := by
  have hremove : ([id].filter (· ∈ kExtensions)).removeAll (ids.filter (· ∈ kExtensions)) = [] := by
    by_cases hid : id ∈ kExtensions
    · have hold : id ∈ ids := h.resolve_left (not_not.mpr hid)
      simp [List.cons_removeAll, hid, hold]
    · simp [hid]
  rw [knownIds, List.filter_append, List.eraseDups_append, hremove, List.eraseDups_nil,
    List.append_nil]
  rfl

/-- There is room for another row. -/
theorem length_lt_of_nodup {n : Nat} (hnodup : (rows ++ [j]).Nodup) (hlt : ∀ i ∈ rows ++ [j], i < n) :
    rows.length < n := by
  have hsubset : rows ++ [j] ⊆ List.range n := fun i hi => List.mem_range.mpr (hlt i hi)
  have hle := (List.subperm_of_subset hnodup hsubset).length_le
  rw [List.length_range, List.length_append, List.length_singleton] at hle
  exact hle

/-- An access in bounds succeeds. -/
theorem access_of_some {α : Type} {xs : List α} {i : Nat} {x : α} (h : xs[i]? = some x) :
    access xs i = .ok x := by
  rw [access, h]

/-- A row that is not there yet is pushed. -/
theorem Filled.push (h : Filled kExtensions configured rows st) (hj : j < kExtensions.length)
    (hnew : j ∉ rows) :
    st.push kExtensions j = .ok { st with permutation := (rows ++ [j]).map UInt8.ofNat }
      ∧ (rows ++ [j]).Nodup ∧ ∀ i ∈ rows ++ [j], i < kExtensions.length := by
  have hnodup : (rows ++ [j]).Nodup := List.nodup_append.mpr ⟨h.nodup, List.nodup_singleton j,
    fun i hi i' hi' heq => hnew (List.mem_singleton.mp hi' ▸ heq ▸ hi)⟩
  have hlt : ∀ i ∈ rows ++ [j], i < kExtensions.length := by
    intro i hi
    rcases List.mem_append.mp hi with hi | hi
    · exact h.lt i hi
    · exact List.mem_singleton.mp hi ▸ hj
  refine ⟨?_, hnodup, hlt⟩
  have hroom : ¬ kExtensions.length ≤ st.permutation.length := by
    rw [h.permutation, List.length_map]
    exact Nat.not_le_of_lt (length_lt_of_nodup hnodup hlt)
  rw [Filling.push, if_neg hroom, h.permutation, List.map_append]
  rfl

/-- The rows of the configured IDs. -/
def configuredRows (kExtensions ids : List Nat) : List Nat :=
  (knownIds kExtensions ids).map kExtensions.idxOf

/-- The rows that are configured are those of the list. -/
theorem idxOf_mem_configuredRows (ids : List Nat) (hid : id ∈ kExtensions) :
    kExtensions.idxOf id ∈ configuredRows kExtensions ids ↔ id ∈ ids := by
  rw [configuredRows, List.mem_map]
  constructor
  · rintro ⟨id', hid', heq⟩
    obtain ⟨hmem, hknown⟩ := mem_knownIds.mp hid'
    exact (List.idxOf_inj hknown).mp heq ▸ hmem
  · intro hmem
    exact ⟨id, mem_knownIds.mpr ⟨hmem, hid⟩, rfl⟩

/-- Another name is another row. -/
theorem configuredRows_append_of_new (hid : id ∈ kExtensions) (hnew : id ∉ ids) :
    configuredRows kExtensions (ids ++ [id]) = configuredRows kExtensions ids ++ [kExtensions.idxOf id] := by
  rw [configuredRows, knownIds_append_of_new hid hnew, List.map_append]
  rfl

/-- A row that is pushed is seen. -/
theorem seen_set {seen : List Bool} {n k : Nat} (hk : k < n)
    (h : ∀ j < n, seen[j]? = some (decide (j ∈ rows))) :
    ∀ j < n, (seen.set k true)[j]? = some (decide (j ∈ rows ++ [k])) := by
  intro j hj
  by_cases heq : k = j
  · subst heq
    rw [List.getElem?_set_self (List.getElem?_eq_some_iff.mp (h k hk)).1,
      decide_eq_true (List.mem_append_right _ List.mem_cons_self)]
  · have hiff : j ∈ rows ++ [k] ↔ j ∈ rows := by simp [Ne.symm heq]
    rw [List.getElem?_set_ne heq, h j hj, decide_eq_decide.mpr hiff]

/-- **One configured ID.**  It is skipped when the table does not know it or it was there before. -/
theorem addConfigured_filled (done : List Nat)
    (h : Filled kExtensions (configuredRows kExtensions done) (configuredRows kExtensions done) st)
    (id : Nat) :
    ∃ st', st.addConfigured kExtensions id = .ok st'
      ∧ Filled kExtensions (configuredRows kExtensions (done ++ [id]))
        (configuredRows kExtensions (done ++ [id])) st' := by
  unfold Filling.addConfigured
  dsimp only
  by_cases hid : id ∈ kExtensions
  · have hlt := List.idxOf_lt_length_of_mem hid
    have hseen := access_of_some (h.seen _ hlt)
    rw [if_neg (Nat.ne_of_lt hlt), hseen]
    by_cases hold : id ∈ done
    · refine ⟨st, ?_, ?_⟩
      · rw [decide_eq_true ((idxOf_mem_configuredRows done hid).mpr hold)]
        rfl
      · rw [configuredRows, knownIds_append_of_old (.inr hold)]
        exact h
    · have hnew := mt (idxOf_mem_configuredRows done hid).mp hold
      obtain ⟨hpush, hnodup, hrange⟩ := h.push hlt hnew
      rw [decide_eq_false hnew, configuredRows_append_of_new hid hold]
      exact ⟨⟨_, st.seen.set (kExtensions.idxOf id) true⟩,
        bind_eq_ok.mpr ⟨false, rfl, bind_eq_ok.mpr ⟨_, hpush, rfl⟩⟩,
        rfl, seen_set hlt h.seen, hnodup, hrange⟩
  · rw [if_pos (List.idxOf_eq_length hid)]
    refine ⟨st, rfl, ?_⟩
    rw [configuredRows, knownIds_append_of_old (.inl hid)]
    exact h

/-- **The first loop fills in the rows of the list**, each once, in its order. -/
theorem foldlM_addConfigured (done ids : List Nat)
    (h : Filled kExtensions (configuredRows kExtensions done) (configuredRows kExtensions done) st) :
    ∃ st', ids.foldlM (Filling.addConfigured kExtensions) st = .ok st'
      ∧ Filled kExtensions (configuredRows kExtensions (done ++ ids))
        (configuredRows kExtensions (done ++ ids)) st' := by
  induction ids generalizing done st with
  | nil =>
      rw [List.append_nil]
      exact ⟨st, rfl, h⟩
  | cons id ids ih =>
      obtain ⟨st₁, hst₁, h₁⟩ := addConfigured_filled done h id
      obtain ⟨st', hst', h'⟩ := ih (done ++ [id]) h₁
      rw [List.append_assoc] at h'
      rw [List.foldlM_cons]
      exact ⟨st', bind_eq_ok.mpr ⟨st₁, hst₁, hst'⟩, h'⟩

/-- **One row.**  It is skipped when the first loop saw it. -/
theorem addOther_filled (h : Filled kExtensions configured rows st) (hj : j < kExtensions.length)
    (hnew : j ∉ configured → j ∉ rows) :
    ∃ st', st.addOther kExtensions j = .ok st'
      ∧ Filled kExtensions configured (rows ++ [j].filter (· ∉ configured)) st' := by
  unfold Filling.addOther
  rw [access_of_some (h.seen j hj)]
  by_cases hconfigured : j ∈ configured
  · refine ⟨st, ?_, ?_⟩
    · rw [decide_eq_true hconfigured]
      rfl
    · rw [List.filter_singleton, decide_eq_false (not_not.mpr hconfigured)]
      exact (List.append_nil rows).symm ▸ h
  · obtain ⟨hpush, hnodup, hrange⟩ := h.push hj (hnew hconfigured)
    rw [List.filter_singleton, decide_eq_true hconfigured, decide_eq_false hconfigured]
    exact ⟨_, hpush, rfl, h.seen, hnodup, hrange⟩

/-- **The second fills in the others**, in the order of the table. -/
theorem foldlM_addOther (js : List Nat) (h : Filled kExtensions configured rows st)
    (hlt : ∀ j ∈ js, j < kExtensions.length) (hnodup : js.Nodup)
    (hnew : ∀ j ∈ js, j ∉ configured → j ∉ rows) :
    ∃ st', js.foldlM (Filling.addOther kExtensions) st = .ok st'
      ∧ Filled kExtensions configured (rows ++ js.filter (· ∉ configured)) st' := by
  induction js generalizing rows st with
  | nil =>
      rw [List.filter_nil, List.append_nil]
      exact ⟨st, rfl, h⟩
  | cons j js ih =>
      obtain ⟨hj, hjs⟩ := List.nodup_cons.mp hnodup
      obtain ⟨st₁, hst₁, h₁⟩ := addOther_filled h (hlt j List.mem_cons_self) (hnew j List.mem_cons_self)
      have hnew₁ : ∀ i ∈ js, i ∉ configured → i ∉ rows ++ [j].filter (· ∉ configured) := by
        intro i hi hconfigured hmem
        rcases List.mem_append.mp hmem with hmem | hmem
        · exact hnew i (List.mem_cons_of_mem j hi) hconfigured hmem
        · exact hj (List.mem_singleton.mp (List.mem_of_mem_filter hmem) ▸ hi)
      obtain ⟨st', hst', h'⟩ := ih h₁ (fun i hi => hlt i (List.mem_cons_of_mem j hi)) hjs hnew₁
      rw [List.append_assoc, ← List.filter_append, List.singleton_append] at h'
      rw [List.foldlM_cons]
      exact ⟨st', bind_eq_ok.mpr ⟨st₁, hst₁, hst'⟩, h'⟩

/-! ### The permutation -/

/-- A row of the list is a row of the table. -/
theorem idxOf_lt_of_mem_configuredRows (h : j ∈ configuredRows kExtensions ids) :
    j < kExtensions.length := by
  obtain ⟨id, hid, rfl⟩ := List.mem_map.mp h
  exact List.idxOf_lt_length_of_mem (mem_knownIds.mp hid).2

/-- The rows of the configured IDs are the rows whose value is configured. -/
theorem mem_configuredRows (hnodup : kExtensions.Nodup) (ids : List Nat) (hj : j < kExtensions.length) :
    j ∈ configuredRows kExtensions ids ↔ kExtensions[j] ∈ ids := by
  have hidx : kExtensions.idxOf kExtensions[j] = j := hnodup.idxOf_getElem j hj
  have hiff := idxOf_mem_configuredRows ids (List.getElem_mem hj)
  rwa [hidx] at hiff

/-- And is the row of its name. -/
theorem map_getElem?_configuredRows (kExtensions ids : List Nat) :
    (configuredRows kExtensions ids).map (kExtensions[·]?) = (knownIds kExtensions ids).map some := by
  rw [configuredRows, List.map_map]
  refine List.map_congr_left fun id hid => ?_
  exact List.getElem?_idxOf (mem_knownIds.mp hid).2

/-- A table of at most 255 rows has its rows in bytes. -/
theorem toNat_ofNat_rows (rows : List Nat) (hsize : kExtensions.length ≤ 255)
    (hlt : ∀ j ∈ rows, j < kExtensions.length) :
    (rows.map UInt8.ofNat).map UInt8.toNat = rows := by
  rw [List.map_map]
  refine (List.map_congr_left fun j hj => ?_).trans (List.map_id rows)
  exact UInt8.toNat_ofNat_of_lt (Nat.lt_of_lt_of_le (hlt j hj) (Nat.le_succ_of_le hsize))

/-- A shuffled suffix has the same rows. -/
theorem shuffleSuffix_perm {draw : Nat → Option (List UInt32)} {suffix : List UInt8}
    (hsize : suffix.length ≤ kExtensions.length)
    (hdraw : ∀ n seeds, draw n = some seeds → seeds.length = n) :
    (∃ n, draw n = none ∧ shuffleSuffix kExtensions draw suffix = .error .randFailed)
      ∨ ∃ suffix', shuffleSuffix kExtensions draw suffix = .ok suffix' ∧ suffix'.Perm suffix := by
  unfold shuffleSuffix
  split
  · exact .inr ⟨suffix, rfl, .refl _⟩
  · rename_i htwo
    rw [if_neg (Nat.not_lt_of_le hsize)]
    dsimp only
    rw [if_neg (by omega)]
    cases hseeds : draw (suffix.length - 1) with
    | none => exact .inl ⟨_, hseeds, rfl⟩
    | some seeds =>
        right
        have hlen := hdraw _ _ hseeds
        have hpick : ∀ i, 0 < i → i ≤ suffix.length - 1 → ∃ j,
            (seeds[i - 1]?.map fun seed => seed.toNat % (i + 1)) = some j ∧ j ≤ i := by
          intro i hpos hi
          have hin : i - 1 < seeds.length := by omega
          rw [List.getElem?_eq_getElem hin]
          exact ⟨_, rfl, Nat.le_of_lt_succ (Nat.mod_lt _ (Nat.succ_pos i))⟩
        have hlast : suffix.length - 1 < suffix.length := by omega
        obtain ⟨suffix', hshuffle, hperm⟩ := shuffle_perm hpick hlast
        refine ⟨suffix', ?_, hperm⟩
        dsimp only
        rw [hshuffle]

/-- The rows that are not configured, in the order of the table. -/
def otherRows (kExtensions ids : List Nat) : List Nat :=
  (List.range kExtensions.length).filter (· ∉ configuredRows kExtensions ids)

/-- Together they are all rows. -/
theorem configuredRows_append_otherRows
    (hnodup : (configuredRows kExtensions ids ++ otherRows kExtensions ids).Nodup) :
    (configuredRows kExtensions ids ++ otherRows kExtensions ids).Perm
      (List.range kExtensions.length) := by
  refine (List.perm_ext_iff_of_nodup hnodup List.nodup_range).mpr fun j => ?_
  rw [List.mem_append, otherRows, List.mem_filter, List.mem_range, decide_eq_true_iff]
  constructor
  · rintro (hj | ⟨hj, -⟩)
    · exact idxOf_lt_of_mem_configuredRows hj
    · exact hj
  · intro hj
    by_cases hconfigured : j ∈ configuredRows kExtensions ids
    · exact .inl hconfigured
    · exact .inr ⟨hj, hconfigured⟩

/-- Both loops: they fill the array. -/
theorem filled_all (kExtensions ids : List Nat) :
    ∃ st₁ st₂, ids.foldlM (Filling.addConfigured kExtensions)
        ⟨[], List.replicate kExtensions.length false⟩ = .ok st₁
      ∧ st₁.permutation = (configuredRows kExtensions ids).map UInt8.ofNat
      ∧ (List.range kExtensions.length).foldlM (Filling.addOther kExtensions) st₁ = .ok st₂
      ∧ Filled kExtensions (configuredRows kExtensions ids)
        (configuredRows kExtensions ids ++ otherRows kExtensions ids) st₂ := by
  have hempty : Filled kExtensions (configuredRows kExtensions []) (configuredRows kExtensions [])
      ⟨[], List.replicate kExtensions.length false⟩ :=
    ⟨rfl, fun j hj => List.getElem?_replicate_of_lt hj, List.nodup_nil, fun j hj => by cases hj⟩
  obtain ⟨st₁, hst₁, h₁⟩ := foldlM_addConfigured [] ids hempty
  rw [List.nil_append] at h₁
  obtain ⟨st₂, hst₂, h₂⟩ := foldlM_addOther (List.range kExtensions.length) h₁
    (fun j hj => List.mem_range.mp hj) List.nodup_range (fun j _ h => h)
  exact ⟨st₁, st₂, hst₁, h₁.permutation, hst₂, h₂⟩

/-- A list is set as it is when all of it is counted. -/
theorem setExtensionOrder_length (ids : List Nat) : setExtensionOrder ids ids.length = ids := by
  unfold setExtensionOrder
  split
  · rw [Int.toNat_natCast, List.take_length]
  · rename_i h
    exact (List.eq_nil_of_length_eq_zero (by omega)).symm

/-- What is left is the shuffle. -/
theorem setupExtensionOrder_eq (draw : Nat → Option (List UInt32))
    (upstream : Except OrderError (List UInt8)) (hids : ids ≠ []) :
    setupExtensionOrder kExtensions draw upstream ids = (do
      let suffix ← shuffleSuffix kExtensions draw ((otherRows kExtensions ids).map UInt8.ofNat)
      return (configuredRows kExtensions ids).map UInt8.ofNat ++ suffix) := by
  obtain ⟨st₁, st₂, hst₁, hpre, hst₂, hfilled⟩ := filled_all kExtensions ids
  have hperm := configuredRows_append_otherRows hfilled.nodup
  have hlen : st₂.permutation.length = kExtensions.length := by
    rw [hfilled.permutation, List.length_map, hperm.length_eq, List.length_range]
  unfold setupExtensionOrder
  rw [if_neg (by simpa using hids), hst₁]
  show ((List.range kExtensions.length).foldlM (Filling.addOther kExtensions) st₁ >>= _) = _
  rw [hst₂]
  show (if st₂.permutation.length ≠ kExtensions.length then _ else
    shuffleSuffix kExtensions draw (st₂.permutation.drop st₁.permutation.length) >>= _) = _
  rw [if_neg (not_not.mpr hlen), hfilled.permutation, hpre, List.map_append, List.drop_left,
    List.take_left]

/-- The others are the rows that no name of the list is of. -/
theorem otherRows_eq (hnodup : kExtensions.Nodup) (ids : List Nat) :
    otherRows kExtensions ids
      = (List.range kExtensions.length).filter fun j => ∀ id ∈ ids, kExtensions[j]? ≠ some id := by
  refine List.filter_congr fun j hj => decide_eq_decide.mpr ?_
  have hlt := List.mem_range.mp hj
  rw [mem_configuredRows hnodup ids hlt, List.getElem?_eq_getElem hlt]
  constructor
  · intro hnew id hid heq
    exact hnew (Option.some.inj heq ▸ hid)
  · intro hall hid
    exact hall _ hid rfl

/-- **The configured order is a prefix, and the rest a permutation of the others.**  Only `RAND_bytes`
can fail. -/
theorem configured_order (kExtensions ids : List Nat) (draw : Nat → Option (List UInt32))
    (upstream : Except OrderError (List UInt8)) (hnodup : kExtensions.Nodup)
    (hsize : kExtensions.length ≤ 255) (hids : ids ≠ [])
    (hdraw : ∀ n seeds, draw n = some seeds → seeds.length = n) :
    (∃ n, draw n = none ∧ setupExtensionOrder kExtensions draw upstream
        (setExtensionOrder ids ids.length) = .error .randFailed)
      ∨ ∃ permutation, setupExtensionOrder kExtensions draw upstream
          (setExtensionOrder ids ids.length) = .ok permutation
        ∧ (permutation.map UInt8.toNat).Perm (List.range kExtensions.length)
        ∧ (permutation.take (knownIds kExtensions ids).length).map (kExtensions[·.toNat]?)
          = (knownIds kExtensions ids).map some
        ∧ ((permutation.drop (knownIds kExtensions ids).length).map UInt8.toNat).Perm
          ((List.range kExtensions.length).filter fun j => ∀ id ∈ ids, kExtensions[j]? ≠ some id) := by
  obtain ⟨st₁, st₂, -, -, -, hfilled⟩ := filled_all kExtensions ids
  have hrows := configuredRows_append_otherRows hfilled.nodup
  have hconfigured := toNat_ofNat_rows (configuredRows kExtensions ids) hsize
    fun j hj => hfilled.lt j (List.mem_append_left _ hj)
  have hother := toNat_ofNat_rows (otherRows kExtensions ids) hsize
    fun j hj => hfilled.lt j (List.mem_append_right _ hj)
  rw [setExtensionOrder_length, setupExtensionOrder_eq draw upstream hids]
  have hfits : ((otherRows kExtensions ids).map UInt8.ofNat).length ≤ kExtensions.length := by
    have hlen := hrows.length_eq
    rw [List.length_append, List.length_range] at hlen
    rw [List.length_map]
    omega
  rcases shuffleSuffix_perm hfits hdraw with ⟨n, hn, hfail⟩ | ⟨suffix, hsuffix, hperm⟩
  · rw [hfail]
    exact .inl ⟨n, hn, rfl⟩
  · have hsuffixRows : (suffix.map UInt8.toNat).Perm (otherRows kExtensions ids) :=
      (hperm.map UInt8.toNat).trans (.of_eq hother)
    have hfirst : (knownIds kExtensions ids).length
        = ((configuredRows kExtensions ids).map UInt8.ofNat).length := by
      rw [List.length_map, configuredRows, List.length_map]
    rw [hsuffix]
    refine .inr ⟨_, rfl, ?_, ?_, ?_⟩
    · rw [List.map_append, hconfigured]
      exact (hsuffixRows.append_left _).trans hrows
    · rw [hfirst, List.take_left, ← map_getElem?_configuredRows]
      refine (List.map_map (f := UInt8.toNat) (g := (kExtensions[·]?))).symm.trans ?_
      rw [hconfigured]
    · rw [hfirst, List.drop_left, ← otherRows_eq hnodup]
      exact hsuffixRows

/-- The order that the test of the source configures. -/
theorem configured_order_two :
    ∃ permutation, setupExtensionOrder [10, 43, 23, 51] (fun n => some (List.replicate n 7))
        (.error .internalError) (setExtensionOrder [43, 0xffff, 43, 51] 4) = .ok permutation
      ∧ (permutation.take 2).map ([10, 43, 23, 51][·.toNat]?) = [some 43, some 51] := by
  rcases configured_order [10, 43, 23, 51] [43, 0xffff, 43, 51] (fun n => some (List.replicate n 7))
      (.error .internalError) (by decide) (by decide) (by decide)
      (fun n seeds h => Option.some.inj h ▸ List.length_replicate) with
    ⟨n, hn, -⟩ | ⟨permutation, hpermutation, -, hfirst, -⟩
  · cases hn
  · exact ⟨permutation, hpermutation, hfirst⟩

/-- An order of all rows is a permutation as the handshake keeps it. -/
theorem exists_permutation {n : Nat} {permutation : List UInt8}
    (h : (permutation.map UInt8.toNat).Perm (List.range n)) :
    ∃ p : Permutation n, p.indices.map Fin.val = permutation.map UInt8.toNat := by
  have hlt : ∀ j ∈ permutation.map UInt8.toNat, j < n := fun j hj =>
    List.mem_range.mp (h.mem_iff.mp hj)
  have hmap : ((permutation.map UInt8.toNat).pmap Fin.mk hlt).map Fin.val
      = permutation.map UInt8.toNat := by
    rw [List.map_pmap, List.pmap_eq_map, List.map_id']
  refine ⟨⟨(permutation.map UInt8.toNat).pmap Fin.mk hlt, ?_⟩, hmap⟩
  refine (List.map_perm_map_iff Fin.val_injective).mp ?_
  rw [hmap, List.map_coe_finRange_eq_range]
  exact h

/-- **The encoder's loop follows the order.**  What `ssl_setup_extension_permutation` returns for a table is the
order of a handshake with that table. -/
theorem exists_order (hs : Handshake) {permutation : List UInt8}
    (h : (permutation.map UInt8.toNat).Perm (List.range hs.table.rows.length)) :
    ∃ p, Handshake.order { hs with permutation := some p } = p.indices
      ∧ p.indices.map Fin.val = permutation.map UInt8.toNat := by
  obtain ⟨p, hp⟩ := exists_permutation h
  exact ⟨p, rfl, hp⟩

end Btls.Hello
