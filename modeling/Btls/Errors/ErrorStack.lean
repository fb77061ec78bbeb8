import Btls.Support.Runs
import Mathlib.Data.List.DropRight
import Mathlib.Logic.Function.Basic

/-!
# Errors — ErrorStack

BoringSSL leaves errors on a queue of the thread, which holds so many of them.  `ErrorStack::get`
takes what is on it, `put` puts errors back for whoever called, and some errors are the crate's own,
with a text that may not be one for C.

The queue is a parameter (`ErrQueue`), and that it keeps the last errors in order, and so much of a
line number, is its documented behaviour (`ErrQueue.Keeps`).  Errors have their accessors and are
displayed as the crate does it, by way of C strings that may not be UTF-8.

A `Call` is what happens on the thread: BoringSSL reports an error, or the program gets, puts,
clears or makes one.  The stacks that the program has are in the world, each under its number.
`Call.Allowed` is what can happen: BoringSSL reports errors of a library, or of the system with a
reason, and a program puts back only stacks that it was given.
-/

namespace Btls.Errors

open Btls.Support

/-! ### Errors -/

structure CString where
  bytes : ByteArray
  noNul : 0 ∉ bytes.data

/-- `CString::new`. -/
def CString.new (s : String) : Option CString :=
  if h : 0 ∈ s.toByteArray.data then none else some ⟨s.toByteArray, h⟩

/-- `CStr::to_str`. -/
def CString.toStr (c : CString) : Option String := String.fromUTF8? c.bytes

inductive Data where
  | none
  | cString (c : CString)
  | string (s : String)
  | static (s : String)

/-- A pointer to the name of a file: null, `BORING_INTERNAL`, or another. -/
inductive File where
  | null
  | boringInternal
  | other (p : Nat)
  deriving DecidableEq

structure Error where
  code : Nat
  file : File
  line : Nat
  data : Data

abbrev ErrorStack : Type := List Error

def errPack (l f r : Nat) : Nat := ((l &&& 0x0FF) <<< 24) ||| ((f &&& 0xFFF) <<< 12) ||| (r &&& 0xFFF)
def errGetLib (l : Nat) : Nat := (l >>> 24) &&& 0x0FF
def errGetFunc (l : Nat) : Nat := (l >>> 12) &&& 0xFFF
def errGetReason (l : Nat) : Nat := l &&& 0xFFF

/-- What the queue has of an error; the data, if any, is flagged as a string. -/
structure Entry where
  code : Nat
  file : File
  line : Nat
  data : Option CString

/-- The `ERR_*` of BoringSSL on a queue `Q`. -/
structure ErrQueue (Q : Type) where
  errLibNone : Nat
  errLibSys : Nat
  maxErrors : Nat
  getErrorLineData : Q → Entry × Q
  putError : (library func reason : Nat) → File → (line : Nat) → Q → Q
  addErrorData : CString → Q → Q
  clearError : Q → Q

/-- It is a queue of the last errors, and keeps `keptLine` of a line.  An error of the system without a reason
would get `errno` for one, so it is none of those spoken of; an empty queue has the code 0. -/
structure ErrQueue.Keeps {Q : Type} (ffi : ErrQueue Q) (contents : Q → List Entry) (keptLine : Nat → Nat) :
    Prop where
  room : 0 < ffi.maxErrors
  bounded : ∀ q, (contents q).length ≤ ffi.maxErrors
  libNone : ffi.errLibNone ≠ 0 ∧ ffi.errLibNone < 256 ∧ ffi.errLibNone ≠ ffi.errLibSys
  lineZero : keptLine 0 = 0
  lineKept : ∀ n, keptLine (keptLine n) = keptLine n
  getNil : ∀ {q}, contents q = [] →
    (ffi.getErrorLineData q).1.code = 0 ∧ contents (ffi.getErrorLineData q).2 = []
  getCons : ∀ {q e es}, contents q = e :: es →
    (ffi.getErrorLineData q).1 = e ∧ contents (ffi.getErrorLineData q).2 = es
  put : ∀ {library func reason file} line q, ¬ (library = ffi.errLibSys ∧ reason = 0) → file ≠ .null →
    contents (ffi.putError library func reason file line q)
      = (contents q ++ [Entry.mk (errPack library 0 reason) file (keptLine line) none]).rtake ffi.maxErrors
  add : ∀ {q es e} d, contents q = es ++ [e] →
    contents (ffi.addErrorData d q) = es ++ [{ e with data := some d }]
  clear : ∀ q, contents (ffi.clearError q) = []

namespace Error

/-- `data`. -/
def text (e : Error) : Option String :=
  match e.data with
  | .none => none
  | .cString c => c.toStr
  | .string s | .static s => some s

def dataCstr (e : Error) : Option CString :=
  match e.data with
  | .none => none
  | .cString c => some c
  | .string s | .static s => CString.new s

def isInternal (e : Error) : Bool := e.file == .boringInternal

/-- `library`, where `libError` are the strings of BoringSSL. -/
def library (libError : Nat → Option String) (e : Error) : Option String :=
  if e.isInternal then none else (libError e.code).filter (· ≠ "unknown library")

/-- `reason`. -/
def reason (reasonError : Nat → Option String) (e : Error) : Option String :=
  if e.isInternal then e.text else reasonError e.code

end Error

/-- What `Display` writes. -/
def ErrorStack.fmt (libError reasonError : Nat → Option String) (s : ErrorStack) : String :=
  if s.isEmpty then "unknown BoringSSL error"
  else " ".intercalate <| s.map fun err =>
    "[" ++ (((err.reason reasonError).or (err.library libError)).getD "unknown reason") ++ "]"

section

variable {Q : Type} (ffi : ErrQueue Q)

/-- `Error::get`. -/
def Error.ofEntry (e : Entry) : Error := ⟨e.code, e.file, e.line, e.data.elim .none .cString⟩

def Error.get (q : Q) : Option Error × Q :=
  match ffi.getErrorLineData q with
  | (e, q) => if e.code = 0 then (none, q) else (some (.ofEntry e), q)

def Error.put (e : Error) (q : Q) : Q :=
  let q := ffi.putError (errGetLib e.code) (errGetFunc e.code) (errGetReason e.code) e.file e.line q
  match e.dataCstr with
  | some cstr => ffi.addErrorData cstr q
  | none => q

def Error.newInternal (msg : Data) : Error := ⟨errPack ffi.errLibNone 0 0, .boringInternal, 0, msg⟩

namespace ErrorStack

/-- The loop of `get`.  No result is for more rounds than that. -/
def getLoop : Nat → Q → Option (ErrorStack × Q)
  | 0, _ => none
  | n + 1, q =>
      match Error.get ffi q with
      | (some err, q) => (getLoop n q).map fun (vec, q) => (err :: vec, q)
      | (none, q) => some ([], q)

def get (q : Q) : Option (ErrorStack × Q) := getLoop ffi (ffi.maxErrors + 1) q

def put (s : ErrorStack) (q : Q) : Q := s.foldl (fun q error => error.put ffi q) q

def internalError (err : String) : ErrorStack := [.newInternal ffi (.string err)]

def internalErrorStr (message : String) : ErrorStack := [.newInternal ffi (.static message)]

def clear (q : Q) : Q := ffi.clearError q

end ErrorStack

/-! ### A thread -/

/-- What happens on a thread: BoringSSL reports an error, or a program has one of these done. -/
inductive Call where
  | report (library reason : Nat) (file line : Nat) (data : Option CString)
  | get
  | put (i : Nat)
  | internalError (err : String)
  | internalErrorStr (message : String)
  | clear

inductive Ret where
  | unit
  | stack (i : Nat) (s : ErrorStack)

/-- The queue of the thread, and the stacks that the program has, each under a number. -/
structure World (Q : Type) where
  queue : Q
  held : Nat → Option ErrorStack
  next : Nat

def World.start (q : Q) : World Q := ⟨q, fun _ => none, 0⟩

def World.add (w : World Q) (s : ErrorStack) (q : Q) : Ret × World Q :=
  (.stack w.next s, ⟨q, Function.update w.held w.next (some s), w.next + 1⟩)

def exec : Call → World Q → Option (Ret × World Q)
  | .report library reason file line data, w =>
      let q := ffi.putError library 0 reason (.other file) line w.queue
      some (.unit, { w with queue := data.elim q (ffi.addErrorData · q) })
  | .get, w => (ErrorStack.get ffi w.queue).map fun (s, q) => w.add s q
  | .put i, w => (w.held i).map fun s => (.unit, { w with queue := s.put ffi w.queue })
  | .internalError err, w => some (w.add (.internalError ffi err) w.queue)
  | .internalErrorStr message, w => some (w.add (.internalErrorStr ffi message) w.queue)
  | .clear, w => some (.unit, { w with queue := ErrorStack.clear ffi w.queue })

/-- BoringSSL reports errors of a library, and those of the system with a reason; a program has only the stacks
that it was given. -/
def Call.Allowed (w : World Q) : Call → Prop
  | .report library reason _ _ _ =>
      library ≠ 0 ∧ library < 256 ∧ reason < 4096 ∧ ¬ (library = ffi.errLibSys ∧ reason = 0)
  | .put i => w.held i ≠ none
  | .get | .internalError _ | .internalErrorStr _ | .clear => True

def Step (w : World Q) (l : Call × Ret) (w' : World Q) : Prop :=
  l.1.Allowed ffi w ∧ exec ffi l.1 w = some (l.2, w')

end

end Btls.Errors
