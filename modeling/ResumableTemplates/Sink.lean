import ResumableTemplates.Failure

/-!
Sinks: where a render writes. A sink is asked whether it is ready before each write. It takes a
write as a whole or fails, and may answer that it wants a pause before the next one.
-/
namespace ResumableTemplates

inductive Readiness
  | ready | notReady
deriving DecidableEq

structure Throttle where
  pauseBefore : List Nat
  text : String
  writes : Nat
  pausedAt : Option Nat
  pauses : Nat
deriving DecidableEq

structure ByteWriter where
  chunk : Option Nat
  limit : Option Nat
  takesZero : Bool
  bytes : Array UInt8
deriving DecidableEq

structure Script where
  refuses : Nat → Bool
  holdsAfter : Nat → Bool
  failsAt : Option Nat
  text : String
  polls : Nat
  writes : Nat

inductive Sink
  | buffer (text : String)
  | capture (text : String)
  | throttled (t : Throttle)
  | writer (w : ByteWriter)
  | scripted (s : Script)

namespace Throttle

def of (pauseBefore : List Nat) : Throttle := ⟨pauseBefore, "", 0, none, 0⟩

def poll (t : Throttle) : Readiness × Throttle :=
  if t.writes ∈ t.pauseBefore ∧ t.pausedAt ≠ some t.writes then
    (.notReady, { t with pausedAt := some t.writes, pauses := t.pauses + 1 })
  else (.ready, t)

def append (t : Throttle) (s : String) : Throttle :=
  { t with text := t.text ++ s, writes := t.writes + 1 }

end Throttle

namespace ByteWriter

def taken (w : ByteWriter) (n : Nat) : Nat :=
  if w.chunk = some 0 then 0
  else match w.limit with
    | none => n
    | some limit => min n (limit - w.bytes.size)

def refusal (w : ByteWriter) : SinkError := if w.takesZero then .writeZero else .brokenPipe

def append (w : ByteWriter) (bytes : Array UInt8) : Except SinkError Unit × ByteWriter :=
  let n := w.taken bytes.size
  let after := { w with bytes := w.bytes ++ bytes.extract 0 n }
  if n = bytes.size then (.ok (), after) else (.error after.refusal, after)

end ByteWriter

namespace Script

def of (refuses holdsAfter : Nat → Bool) (failsAt : Option Nat) : Script :=
  ⟨refuses, holdsAfter, failsAt, "", 0, 0⟩

def poll (s : Script) : Readiness × Script :=
  (if s.refuses s.polls then .notReady else .ready, { s with polls := s.polls + 1 })

def append (s : Script) (text : String) : Except SinkError Readiness × Script :=
  if s.failsAt = some s.writes then (.error .refused, s)
  else (.ok (if s.holdsAfter s.writes then .notReady else .ready),
    { s with text := s.text ++ text, writes := s.writes + 1 })

end Script

namespace Sink

instance : Inhabited Sink := ⟨buffer ""⟩

def text : Sink → String
  | buffer s | capture s => s
  | throttled t => t.text
  | scripted s => s.text
  | writer _ => ""

def poll : Sink → Readiness × Sink
  | throttled t => let (r, t) := t.poll; (r, throttled t)
  | scripted s => let (r, s) := s.poll; (r, scripted s)
  | s => (.ready, s)

def append (chunk : String) : Sink → Except SinkError Readiness × Sink
  | buffer t => (.ok .ready, buffer (t ++ chunk))
  | capture t => (.ok .ready, capture (t ++ chunk))
  | throttled t => (.ok .ready, throttled (t.append chunk))
  | writer w =>
    let (r, w) := w.append chunk.toUTF8.data
    (r.map fun _ => .ready, writer w)
  | scripted s => let (r, s) := s.append chunk; (r, scripted s)

def clear : Sink → Sink
  | buffer _ => buffer ""
  | s => s

end Sink

end ResumableTemplates
