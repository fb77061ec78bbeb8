import Btls.Support.Bytes
import Btls.Support.Interact
import Btls.Support.Panic

/-!
# Compression — Certificate

`raw_ssl_cert_compress` and `raw_ssl_cert_decompress`, which run a `CertificateCompressor` on a
certificate message.  The compressor is the caller's: a program over the `Write` it is given, that
goes on with what it is told and ends with `Ok` or not.

A byte of the decompression buffer that nobody wrote is `none`.  The buffer leaves the crate with
every byte written or is freed, whatever the compressor does (`decompressed_initialized`), and a
codec that writes out all it has gets the certificate across in any pieces (`certificate_survives`).
-/

namespace Btls.Compression

open Btls.Support

/-! ### Writers -/

/-- What a compressor asks of its `Write`. -/
inductive WriteOp where
  | write (buf : Bytes)
  | flush

/-- What it is told; nothing depends on which `io::Error` it is. -/
abbrev WriteRes : WriteOp → Type
  | .write _ => Except Unit Nat
  | .flush => Except Unit Unit

/-- A program that ends with whether it is `Ok`. -/
abbrev Writing := Prog WriteOp WriteRes Bool

/-- The bytes that a write took. -/
def taken : Prog.Event WriteOp WriteRes → Bytes
  | ⟨.write buf, .ok n⟩ => buf.take n
  | _ => []

structure CertificateCompressor where
  compress : Bytes → Writing
  decompress : Bytes → Writing

/-- `Write::write_all`, and then `next`.  A `Cursor` has one of its own, which ends the same. -/
def writeAll (buf : Bytes) (next : Writing) : Writing :=
  if _h : buf = [] then next
  else .call (.write buf) fun
    | .error () => .ret false
    | .ok 0 => .ret false
    | .ok (n + 1) => writeAll (buf.drop (n + 1)) next
termination_by buf.length
decreasing_by
  have := List.length_pos_iff.mpr _h
  rw [List.length_drop]
  omega

/-! ### Buffers -/

/-- `CBB`, and whether `CBB_add_bytes` and `CBB_flush` succeed. -/
structure CbbFfi (Cbb : Type) where
  addBytes : Cbb → Bytes → Bool × Cbb
  flush : Cbb → Bool × Cbb
  contents : Cbb → Bytes

/-- What is added is appended. -/
structure CbbFfi.Appends {Cbb : Type} (ffi : CbbFfi Cbb) : Prop where
  addBytes : ∀ cbb bytes, (ffi.addBytes cbb bytes).1 = true →
    ffi.contents (ffi.addBytes cbb bytes).2 = ffi.contents cbb ++ bytes
  flush : ∀ cbb, (ffi.flush cbb).1 = true → ffi.contents (ffi.flush cbb).2 = ffi.contents cbb

/-- `CryptoByteBuilder`. -/
def CryptoByteBuilder.handle {Cbb : Type} (ffi : CbbFfi Cbb) : (op : WriteOp) → Cbb → WriteRes op × Cbb
  | .write buf, cbb =>
      let (success, cbb) := ffi.addBytes cbb buf
      (if success then .ok buf.length else .error (), cbb)
  | .flush, cbb =>
      let (success, cbb) := ffi.flush cbb
      (if success then .ok () else .error (), cbb)

/-- `CryptoBufferBuilder`: the buffer, null once it was handed out, and where its cursor is. -/
structure CryptoBufferBuilder where
  buffer : Option (List (Option UInt8))
  position : Nat

/-- What happens to the memory of a `CRYPTO_BUFFER`. -/
inductive HeapEvent where
  | alloc
  | free
  deriving DecidableEq

namespace CryptoBufferBuilder

/-- `with_capacity`, where `CRYPTO_BUFFER_alloc` succeeds. -/
def withCapacity (capacity : Nat) : CryptoBufferBuilder := ⟨some (List.replicate capacity none), 0⟩

/-- A write through `as_writer`, the `Write` of `Cursor<&mut [u8]>`. -/
def write (b : CryptoBufferBuilder) (buf : Bytes) : Nat × CryptoBufferBuilder :=
  match b.buffer with
  | none => (0, b)
  | some cells =>
      let pos := min b.position cells.length
      let amt := min buf.length (cells.length - pos)
      (amt, ⟨some (splice cells pos ((buf.take amt).map some)), b.position + amt⟩)

def handle : (op : WriteOp) → CryptoBufferBuilder → WriteRes op × CryptoBufferBuilder
  | .write buf, b => let (n, b) := b.write buf; (.ok n, b)
  | .flush, b => (.ok (), b)

/-- `build`: the buffer, which is then no longer the builder's. -/
def build (b : CryptoBufferBuilder) : Option (List (Option UInt8)) × CryptoBufferBuilder :=
  match b.buffer with
  | none => (none, b)
  | some cells => if b.position ≠ cells.length then (none, b) else (some cells, { b with buffer := none })

/-- `Drop`. -/
def drop (b : CryptoBufferBuilder) : List HeapEvent := if b.buffer.isSome then [.free] else []

end CryptoBufferBuilder

/-! ### The callbacks -/

/-- `raw_ssl_cert_compress`: what it returns, and `*out`. -/
def rawSslCertCompress {Cbb : Type} (ffi : CbbFfi Cbb) (c : CertificateCompressor) (out : Cbb)
    (input : Bytes) : Nat × Cbb :=
  let (ok, out) := (c.compress input).interp (CryptoByteBuilder.handle ffi) out
  (if ok then 1 else 0, out)

/-- What `raw_ssl_cert_decompress` returns, the buffer it puts in `*out`, and what it did to the heap. -/
structure Decompressed where
  ret : Nat
  out : Option (List (Option UInt8))
  heap : List HeapEvent
  deriving DecidableEq

def rawSslCertDecompress (c : CertificateCompressor) (alloc : Bool) (uncompressedLen : Nat)
    (input : Bytes) : Decompressed :=
  if !alloc then ⟨0, none, []⟩
  else
    let (ok, b) := (c.decompress input).interp CryptoBufferBuilder.handle (.withCapacity uncompressedLen)
    if !ok then ⟨0, none, .alloc :: b.drop⟩
    else
      let (buffer, b) := b.build
      match buffer with
      | none => ⟨0, none, .alloc :: b.drop⟩
      | some buffer => ⟨1, some buffer, .alloc :: b.drop⟩

/-! ### The buffer fills from the front -/

/-- `written` are the bytes that were written, in front of what nobody wrote. -/
structure Filled (len : Nat) (written : Bytes) (b : CryptoBufferBuilder) : Prop where
  buffer : b.buffer = some (written.map some ++ List.replicate (len - written.length) none)
  position : b.position = written.length
  le : written.length ≤ len

variable {len : Nat} {written : Bytes} {b : CryptoBufferBuilder} {p : Writing}

theorem filled_withCapacity (len : Nat) : Filled len [] (.withCapacity len) := ⟨rfl, rfl, Nat.zero_le _⟩

theorem Filled.length (h : Filled len written b) :
    (written.map some ++ List.replicate (len - written.length) (none : Option UInt8)).length = len := by
  have := h.le
  rw [List.length_append, List.length_map, List.length_replicate]
  omega

theorem splice_filled (len : Nat) (written src : Bytes) :
    splice (written.map some ++ List.replicate (len - written.length) none) written.length (src.map some)
      = (written ++ src).map some ++ List.replicate (len - (written ++ src).length) none := by
  have hfront : (written.map some).length = written.length := List.length_map _
  rw [splice, List.take_left' hfront, List.drop_append, hfront, List.length_map,
    List.drop_eq_nil_of_le (by rw [hfront]; exact Nat.le_add_right _ _), List.nil_append,
    List.drop_replicate, Nat.add_sub_cancel_left, List.map_append, List.length_append, Nat.sub_sub]

/-- A write takes what there is room for. -/
theorem Filled.write (h : Filled len written b) (buf : Bytes) :
    (b.write buf).1 = min buf.length (len - written.length)
      ∧ Filled len (written ++ buf.take (b.write buf).1) (b.write buf).2 := by
  have hle := h.le
  have hpos : min written.length len = written.length := Nat.min_eq_left hle
  have hw : b.write buf = (min buf.length (len - written.length),
      ⟨some (splice (written.map some ++ List.replicate (len - written.length) none) written.length
          ((buf.take (min buf.length (len - written.length))).map some)),
        written.length + min buf.length (len - written.length)⟩) := by
    simp only [CryptoBufferBuilder.write, h.buffer, h.position, h.length, hpos]
  have htake : (buf.take (min buf.length (len - written.length))).length
      = min buf.length (len - written.length) := by
    rw [List.length_take]
    omega
  rw [hw]
  refine ⟨rfl, ?_, ?_, ?_⟩
  · exact congrArg some (splice_filled len written _)
  · show written.length + _ = _
    rw [List.length_append, htake]
  · rw [List.length_append, htake]
    omega

/-- **Whatever is written fills the buffer in that order.** -/
theorem Filled.interp (h : Filled len written b) (p : Writing) :
    Filled len (written ++ (p.events CryptoBufferBuilder.handle b).flatMap taken)
      (p.interp CryptoBufferBuilder.handle b).2 := by
  induction p generalizing b written with
  | ret ok =>
      rw [Prog.events, List.flatMap_nil, List.append_nil]
      exact h
  | call op k ih =>
      rw [Prog.interp, Prog.events, List.flatMap_cons, ← List.append_assoc]
      refine ih _ ?_
      cases op with
      | write buf => exact (h.write buf).2
      | flush =>
          show Filled len (written ++ []) b
          rw [List.append_nil]
          exact h

/-- What comes of a decompressor that filled the buffer with `written` and ended with `ok`. -/
theorem Filled.decompressed {c : CertificateCompressor} {input : Bytes}
    (h : Filled len written
      ((c.decompress input).interp CryptoBufferBuilder.handle (.withCapacity len)).2) :
    rawSslCertDecompress c true len input
      = if ((c.decompress input).interp CryptoBufferBuilder.handle (.withCapacity len)).1
          ∧ written.length = len
        then ⟨1, some (written.map some), [.alloc]⟩ else ⟨0, none, [.alloc, .free]⟩ := by
  unfold rawSslCertDecompress
  generalize (c.decompress input).interp CryptoBufferBuilder.handle (.withCapacity len) = r at h ⊢
  obtain ⟨ok, b⟩ := r
  have hfill : Filled len written b := h
  have hdrop : b.drop = [.free] := by
    rw [CryptoBufferBuilder.drop, hfill.buffer]
    rfl
  have hbuild : b.build = if written.length ≠ len then (none, b)
      else (some (written.map some ++ List.replicate (len - written.length) none),
        { b with buffer := none }) := by
    simp only [CryptoBufferBuilder.build, hfill.buffer, hfill.length, hfill.position]
  cases ok with
  | false => simp [hdrop]
  | true =>
      by_cases hfull : written.length = len
      · rw [if_neg (not_not.mpr hfull), hfull, Nat.sub_self, List.replicate_zero,
          List.append_nil] at hbuild
        simp [hbuild, hfull, CryptoBufferBuilder.drop]
      · rw [if_pos hfull] at hbuild
        simp [hbuild, hfull, hdrop]

/-- **No byte of a decompressed certificate is uninitialised, and no buffer is lost or freed twice.**  For
every decompressor: it is handed out, and then holds exactly what was written, all of it and in order, and is
not freed; or nothing is handed out, and what was allocated is freed once. -/
theorem decompressed_initialized (c : CertificateCompressor) (alloc : Bool) (len : Nat) (input : Bytes) :
    (∃ bytes, rawSslCertDecompress c alloc len input = ⟨1, some (bytes.map some), [.alloc]⟩
        ∧ bytes.length = len
        ∧ bytes
          = ((c.decompress input).events CryptoBufferBuilder.handle (.withCapacity len)).flatMap taken)
      ∨ rawSslCertDecompress c alloc len input = ⟨0, none, if alloc then [.alloc, .free] else []⟩ := by
  cases alloc with
  | false => exact .inr rfl
  | true =>
      have hfill := (filled_withCapacity len).interp (c.decompress input)
      rw [List.nil_append] at hfill
      rw [hfill.decompressed]
      split
      · next h => exact .inl ⟨_, rfl, h.2, rfl⟩
      · exact .inr rfl

/-! ### A certificate gets across -/

/-- `p` ends well if all it writes is taken, and then has written `out`, in any pieces. -/
inductive Writes : Bytes → Writing → Prop
  | done : Writes [] (.ret true)
  | writeAll (buf : Bytes) {out : Bytes} {p : Writing} (h : Writes out p) :
      Writes (buf ++ out) (writeAll buf p)
  | flush {out : Bytes} {p : Writing} (h : Writes out p) :
      Writes out (.call .flush fun | .ok () => p | .error () => .ret false)

/-- Whether it went well. -/
def accepted : Prog.Event WriteOp WriteRes → Bool
  | ⟨.write _, r⟩ => r.isOk
  | ⟨.flush, r⟩ => r.isOk

/-- How `write_all` goes on, whatever it is told. -/
theorem writeAll_of_ne_nil {buf : Bytes} (hbuf : buf ≠ []) (p : Writing) :
    ∃ k, writeAll buf p = .call (.write buf) k ∧ k (.error ()) = .ret false ∧ k (.ok 0) = .ret false
      ∧ ∀ n, n ≠ 0 → k (.ok n) = writeAll (buf.drop n) p := by
  rw [writeAll, dif_neg hbuf]
  refine ⟨_, rfl, rfl, rfl, fun n hn => ?_⟩
  obtain ⟨n, rfl⟩ := Nat.exists_eq_succ_of_ne_zero hn
  rfl

@[simp] theorem writeAll_nil (p : Writing) : writeAll [] p = p := by rw [writeAll, dif_pos rfl]

/-- **What is written is appended, if it all is taken.** -/
theorem Writes.compress {Cbb : Type} {ffi : CbbFfi Cbb} (hffi : ffi.Appends) {out : Bytes}
    (h : Writes out p) (cbb : Cbb) :
    (p.interp (CryptoByteBuilder.handle ffi) cbb).1
        = (p.events (CryptoByteBuilder.handle ffi) cbb).all accepted
      ∧ ((p.interp (CryptoByteBuilder.handle ffi) cbb).1 = true →
        ffi.contents (p.interp (CryptoByteBuilder.handle ffi) cbb).2 = ffi.contents cbb ++ out) := by
  induction h generalizing cbb with
  | done => exact ⟨rfl, fun _ => (List.append_nil _).symm⟩
  | @writeAll buf out p _ ih =>
      by_cases hbuf : buf = []
      · rw [hbuf, writeAll_nil]
        exact ih cbb
      · obtain ⟨k, hk, herr, -, hok⟩ := writeAll_of_ne_nil hbuf p
        have hlen : buf.length ≠ 0 := mt List.length_eq_zero_iff.mp hbuf
        have hadd := hffi.addBytes cbb buf
        have ih := ih (ffi.addBytes cbb buf).2
        rw [hk, Prog.interp, Prog.events, List.all_cons, CryptoByteBuilder.handle]
        cases hs : (ffi.addBytes cbb buf).1 with
        | false => simp [hs, herr, Prog.interp, accepted, Except.isOk, Except.toBool]
        | true =>
            rw [hs] at hadd
            simp only [hs, if_true, hok _ hlen, List.drop_length, writeAll_nil, ← List.append_assoc,
              ← hadd rfl]
            exact ih
  | @flush out p _ ih =>
      have hflush := hffi.flush cbb
      have ih := ih (ffi.flush cbb).2
      rw [Prog.interp, Prog.events, List.all_cons, CryptoByteBuilder.handle]
      cases hs : (ffi.flush cbb).1 with
      | false => simp [hs, Prog.interp, accepted, Except.isOk, Except.toBool]
      | true =>
          rw [hs] at hflush
          simp only [hs, if_true, ← hflush rfl]
          exact ih

/-- A write into a filled buffer, and what `write_all` is told. -/
theorem Filled.handle (h : Filled len written b) (buf : Bytes) :
    ∃ b', CryptoBufferBuilder.handle (.write buf) b = (.ok (min buf.length (len - written.length)), b')
      ∧ Filled len (written ++ buf.take (min buf.length (len - written.length))) b' := by
  obtain ⟨hn, hb⟩ := h.write buf
  rw [hn] at hb
  exact ⟨(b.write buf).2, congrArg (fun n => (Except.ok n, (b.write buf).2)) hn, hb⟩

/-- `write_all` goes on if there is room for everything. -/
theorem Filled.writeAll (h : Filled len written b) (buf : Bytes) (p : Writing)
    (hroom : written.length + buf.length ≤ len) :
    ∃ b', Filled len (written ++ buf) b' ∧ (writeAll buf p).interp CryptoBufferBuilder.handle b
      = p.interp CryptoBufferBuilder.handle b' := by
  by_cases hbuf : buf = []
  · rw [hbuf, writeAll_nil, List.append_nil]
    exact ⟨b, h, rfl⟩
  · obtain ⟨k, hk, -, -, hok⟩ := writeAll_of_ne_nil hbuf p
    obtain ⟨b', hb', hfill⟩ := h.handle buf
    have hmin : min buf.length (len - written.length) = buf.length := by omega
    rw [hmin, List.take_length] at hfill
    refine ⟨b', hfill, ?_⟩
    rw [hk, Prog.interp, hb', hmin, hok _ (mt List.length_eq_zero_iff.mp hbuf), List.drop_length,
      writeAll_nil]

/-- … and fails if there is not: when the buffer is full, a write takes nothing. -/
theorem Filled.writeAll_full (h : Filled len written b) (buf : Bytes) (p : Writing)
    (hroom : len < written.length + buf.length) :
    ((Compression.writeAll buf p).interp CryptoBufferBuilder.handle b).1 = false := by
  have hle := h.le
  induction hn : buf.length using Nat.strongRecOn generalizing buf written b with
  | ind n ih =>
      have hbuf : buf ≠ [] := List.ne_nil_of_length_pos (by omega)
      obtain ⟨k, hk, -, hzero, hok⟩ := writeAll_of_ne_nil hbuf p
      obtain ⟨b', hb', hfill⟩ := h.handle buf
      rw [hk, Prog.interp, hb']
      by_cases hfull : min buf.length (len - written.length) = 0
      · rw [hfull, hzero, Prog.interp]
      · rw [hok _ hfull]
        have hlen : (buf.drop (min buf.length (len - written.length))).length
            = buf.length - min buf.length (len - written.length) := List.length_drop
        have htake : (buf.take (min buf.length (len - written.length))).length
            = min buf.length (len - written.length) := by
          rw [List.length_take]
          omega
        exact ih _ (by omega) hfill _ (by rw [List.length_append]; omega) hfill.le rfl

/-- **What is written fills the buffer, if there is room.** -/
theorem Writes.decompress {out : Bytes} (h : Writes out p) (hb : Filled len written b) :
    (p.interp CryptoBufferBuilder.handle b).1 = decide (written.length + out.length ≤ len)
      ∧ (written.length + out.length ≤ len →
        Filled len (written ++ out) (p.interp CryptoBufferBuilder.handle b).2) := by
  induction h generalizing written b with
  | done =>
      rw [List.length_nil, List.append_nil, Nat.add_zero]
      exact ⟨(decide_eq_true hb.le).symm, fun _ => hb⟩
  | @writeAll buf out p _ ih =>
      rw [List.length_append, ← Nat.add_assoc]
      rcases Nat.lt_or_ge len (written.length + buf.length) with hroom | hroom
      · rw [hb.writeAll_full buf p hroom]
        exact ⟨(decide_eq_false (by omega)).symm, fun hle => absurd hle (by omega)⟩
      · obtain ⟨b', hb', hp⟩ := hb.writeAll buf p hroom
        have ih := ih hb'
        rw [List.length_append, List.append_assoc] at ih
        rw [hp]
        exact ih
  | flush _ ih => exact ih hb

/-- **A certificate survives its compression.**  For every codec that writes out what it has, in any pieces:
compression succeeds exactly if the `CBB` takes everything, and has then appended what, decompressed with the
length that was announced for it, is the certificate, and with any other is an error that loses no memory. -/
theorem certificate_survives {Cbb : Type} {ffi : CbbFfi Cbb} (hffi : ffi.Appends)
    {sender receiver : CertificateCompressor} {zip : Bytes → Bytes}
    (hsend : ∀ x, Writes (zip x) (sender.compress x))
    (hreceive : ∀ x, Writes x (receiver.decompress (zip x))) (cbb : Cbb) (x : Bytes) :
    ((rawSslCertCompress ffi sender cbb x).1 = 1
        ↔ ∀ e ∈ (sender.compress x).events (CryptoByteBuilder.handle ffi) cbb, accepted e = true)
      ∧ ((rawSslCertCompress ffi sender cbb x).1 = 1 →
        ∃ z, ffi.contents (rawSslCertCompress ffi sender cbb x).2 = ffi.contents cbb ++ z
          ∧ ∀ len, rawSslCertDecompress receiver true len z
            = if len = x.length then ⟨1, some (x.map some), [.alloc]⟩
              else ⟨0, none, [.alloc, .free]⟩) := by
  obtain ⟨hok, happend⟩ := (hsend x).compress hffi cbb
  have hret : (rawSslCertCompress ffi sender cbb x).1 = 1
      ↔ ((sender.compress x).interp (CryptoByteBuilder.handle ffi) cbb).1 = true := by
    show (if _ then 1 else 0) = 1 ↔ _
    split
    · next h => simp [h]
    · next h => simp [h]
  refine ⟨by rw [hret, hok, List.all_eq_true], fun h => ⟨zip x, happend (hret.mp h), fun len => ?_⟩⟩
  obtain ⟨hok, hfill⟩ := (hreceive x).decompress (filled_withCapacity len)
  rw [List.length_nil, Nat.zero_add] at hok hfill
  by_cases hle : x.length ≤ len
  · rw [(hfill hle).decompressed, hok, List.nil_append]
    simp [hle, eq_comm]
  · rw [((filled_withCapacity len).interp _).decompressed, hok, decide_eq_false hle,
      if_neg (fun h => Bool.false_ne_true h.1), if_neg (by omega)]

/-- A codec that reverses, written a byte at a time and read back in one piece. -/
def reversing : CertificateCompressor where
  compress x := x.reverse.foldr (fun byte p => writeAll [byte] p) (.ret true)
  decompress x := writeAll x.reverse (.ret true)

/-- A `CBB` with room for everything. -/
def roomy : CbbFfi Bytes where
  addBytes cbb bytes := (true, cbb ++ bytes)
  flush cbb := (true, cbb)
  contents cbb := cbb

theorem writes_reversing_compress (x : Bytes) : Writes x.reverse (reversing.compress x) := by
  show Writes _ (x.reverse.foldr (fun byte p => writeAll [byte] p) (.ret true))
  generalize x.reverse = out
  induction out with
  | nil => exact .done
  | cons byte out ih => exact .writeAll [byte] ih

theorem certificate_survives_reversing :
    ((rawSslCertCompress roomy reversing [9] [1, 2, 3]).1 = 1
        ↔ ∀ e ∈ (reversing.compress [1, 2, 3]).events (CryptoByteBuilder.handle roomy) [9],
          accepted e = true)
      ∧ ((rawSslCertCompress roomy reversing [9] [1, 2, 3]).1 = 1 →
        ∃ z, roomy.contents (rawSslCertCompress roomy reversing [9] [1, 2, 3]).2 = [9] ++ z
          ∧ ∀ len, rawSslCertDecompress reversing true len z
            = if len = 3 then ⟨1, some [some 1, some 2, some 3], [.alloc]⟩
              else ⟨0, none, [.alloc, .free]⟩) :=
  certificate_survives ⟨fun _ _ _ => rfl, fun _ _ => rfl⟩ writes_reversing_compress
    (fun x => by
      have h : Writes (x.reverse.reverse ++ []) (reversing.decompress x.reverse) := .writeAll _ .done
      rwa [List.append_nil, List.reverse_reverse] at h)
    [9] [1, 2, 3]

end Btls.Compression
