import Btls.Seal.Budget
import Btls.Support.Panic

/-!
# Seal — Ivecs

`with_ivecs`, which hands the caller's slices to BoringSSL as `CRYPTO_IVEC`s.  Where `IoSlice` has
their layout the slices go as they are.  Elsewhere those that cover the budget are copied, on the
stack if there are at most `stackLen` and else in a `Vec`; the copy is sealed as the slices are.

`copied_ivecs_seal_alike`: whatever the slices, their number, the budget and the connection, the
copy does not panic, and the call on it returns what the call on the slices would.  The slices left
out are behind the budget (`take_covering`), and the sealer does not read so far.
-/

namespace Btls.Seal

open Btls.Support Btls.Tls Btls.Stream

/-- The count of `take_while`, which goes on while there is budget `left`. -/
def covering : (left : Nat) → List Slice → Nat
  | _, [] => 0
  | left, buf :: bufs => if 0 < left then covering (left - buf.len) bufs + 1 else 0

/-- `for (slot, ivec) in stack.iter_mut().zip(ivecs)`. -/
def fillSlots : (stack ivecs : List Slice) → List Slice
  | _ :: stack, ivec :: ivecs => ivec :: fillSlots stack ivecs
  | stack, _ => stack

def stackLen : Nat := 64

/-- The `CRYPTO_IVEC`s of `with_ivecs` where they are copied; `none` is a panic. -/
def withIvecs (bufs : List Slice) (maxIn : Nat) : Option (List Slice) := do
  let n := covering maxIn bufs
  let ivecs ← sliceTo bufs n
  if n ≤ stackLen then
    sliceTo (fillSlots (List.replicate stackLen ⟨none, []⟩) ivecs) n
  else return ivecs

theorem covering_le (left : Nat) (bufs : List Slice) : covering left bufs ≤ bufs.length := by
  induction bufs generalizing left with
  | nil => exact Nat.le_refl _
  | cons buf bufs ih =>
      rw [covering]
      split
      · exact Nat.succ_le_succ (ih _)
      · exact Nat.zero_le _

/-- Where the count stops, the budget is covered. -/
theorem take_covering (left : Nat) (bufs : List Slice) :
    ((bufs.take (covering left bufs)).map Slice.bytes).flatten.take left
      = (bufs.map Slice.bytes).flatten.take left := by
  induction bufs generalizing left with
  | nil => rfl
  | cons buf bufs ih =>
      rw [covering]
      split
      · have htail : ∀ rest : Bytes, (buf.bytes ++ rest).take left
            = buf.bytes.take left ++ rest.take (left - buf.len) := fun rest => List.take_append
        rw [List.take_succ_cons, List.map_cons, List.map_cons, List.flatten_cons, List.flatten_cons,
          htail, htail, ih]
      · rename_i hleft
        rw [Nat.eq_zero_of_not_pos hleft, List.take_zero, List.take_zero]

theorem take_fillSlots {stack ivecs : List Slice} (h : ivecs.length ≤ stack.length) :
    ivecs.length ≤ (fillSlots stack ivecs).length
      ∧ (fillSlots stack ivecs).take ivecs.length = ivecs := by
  induction stack generalizing ivecs with
  | nil =>
      rw [List.eq_nil_of_length_eq_zero (Nat.le_zero.mp h)]
      exact ⟨Nat.zero_le _, rfl⟩
  | cons slot stack ih =>
      cases ivecs with
      | nil => exact ⟨Nat.zero_le _, rfl⟩
      | cons ivec ivecs =>
          obtain ⟨hle, htake⟩ := ih (Nat.le_of_succ_le_succ h)
          exact ⟨Nat.succ_le_succ hle, congrArg (ivec :: ·) htake⟩

/-- On the stack or not, the copy is the slices that cover the budget. -/
theorem withIvecs_eq (bufs : List Slice) (maxIn : Nat) :
    withIvecs bufs maxIn = some (bufs.take (covering maxIn bufs)) := by
  have hle := covering_le maxIn bufs
  have hlen : (bufs.take (covering maxIn bufs)).length = covering maxIn bufs :=
    List.length_take_of_le hle
  unfold withIvecs
  simp only [sliceTo_of_le hle, Option.bind_eq_bind, Option.bind_some]
  split
  · rename_i hstack
    have hroom : (bufs.take (covering maxIn bufs)).length
        ≤ (List.replicate stackLen (⟨none, []⟩ : Slice)).length := by
      rw [hlen, List.length_replicate]
      exact hstack
    obtain ⟨hfill, htake⟩ := take_fillSlots hroom
    rw [hlen] at hfill htake
    rw [sliceTo_of_le hfill, htake]
  · rfl

/-- **Copied slices are sealed as the slices are.**  Whatever the slices, their number, the budget and the
connection, the copy never panics, and from wherever it lies outside the output `SSL_seal_app_data` returns
the same and leaves the same connection. -/
theorem copied_ivecs_seal_alike {κ ρ : Type} {A : Aead κ ρ} (U : Upstream A) (s : SslImpl κ)
    {out : OutSpan} {bufs : List Slice} {addr addr' : Nat} (maxIn : Nat) (husable : Usable out addr bufs)
    (hcopy : buffersAlias addr' (covering maxIn bufs * ivecSize) out.addr out.size = false) :
    ∃ ivecs, withIvecs bufs maxIn = some ivecs ∧ ivecs.length = covering maxIn bufs
      ∧ sslSealAppData U s out addr' ivecs maxIn = sslSealAppData U s out addr bufs maxIn := by
  have hlen : (bufs.take (covering maxIn bufs)).length = covering maxIn bufs :=
    List.length_take_of_le (covering_le maxIn bufs)
  refine ⟨_, withIvecs_eq bufs maxIn, hlen, tlsSealAppData_congr_take ⟨?_, ?_⟩ husable ?_⟩
  · rw [hlen]
    exact hcopy
  · exact fun slice hslice => husable.slices slice (List.mem_of_mem_take hslice)
  · exact take_covering maxIn bufs

/-- Of three slices the first two cover eleven bytes. -/
theorem copied_ivecs_seal_alike_three :
    ∃ ivecs, withIvecs (layout 200 [List.replicate 8 1, List.replicate 4 2, List.replicate 9 3]) 11 = some ivecs
      ∧ ivecs.length = 2
      ∧ sslSealAppData (.behindFlight Aead.tagOnly) sampleSsl ⟨0, 200⟩ 900 ivecs 11
        = sslSealAppData (.behindFlight Aead.tagOnly) sampleSsl ⟨0, 200⟩ 200
            (layout 200 [List.replicate 8 1, List.replicate 4 2, List.replicate 9 3]) 11 :=
  copied_ivecs_seal_alike _ _ 11 (layout_usable 200 200 _ (Nat.le_refl _)) rfl

end Btls.Seal
