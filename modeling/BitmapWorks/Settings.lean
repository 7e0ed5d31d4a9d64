import BitmapWorks.Drain
import BitmapWorks.Json
/-!
# Settings — how large a dispatcher is and how long it drains

`check` tests settings field by field and names the first fault.  Settings come from defaults, from a text in the
interchange notation (`parse`), or from the variables of the environment.
-/
namespace BitmapWorks

structure Settings where
  workers : Nat
  queueBound : Nat
  stackBytes : Nat
  parallelism : Nat
  initialMicros : Nat
  longestMillis : Nat
  timeoutMillis : Option Nat
  deriving DecidableEq, Repr

inductive SettingField where
  | workers
  | queueBound
  | stackBytes
  | parallelism
  | initialMicros
  | longestMillis
  | timeoutMillis
  deriving DecidableEq, Repr

namespace SettingField

def all : List SettingField :=
  [workers, queueBound, stackBytes, parallelism, initialMicros, longestMillis, timeoutMillis]

def name : SettingField → String
  | workers => "worker_count"
  | queueBound => "max_queue_depth"
  | stackBytes => "thread_stack_size"
  | parallelism => "parallelism"
  | initialMicros => "drain_initial_backoff_us"
  | longestMillis => "drain_max_backoff_ms"
  | timeoutMillis => "drain_timeout_ms"

theorem mem_all (f : SettingField) : f ∈ all := by cases f <;> decide

def ofName? (name : String) : Option SettingField := all.find? (·.name == name)

end SettingField

namespace Settings

def limit : Nat := 1 <<< 64

def leastStackBytes : Nat := 65536

def defaults (processors : Nat) : Settings := ⟨processors, 1024, 2097152, processors, 50, 4, none⟩

def set (s : Settings) (n : Nat) : SettingField → Settings
  | .workers => { s with workers := n }
  | .queueBound => { s with queueBound := n }
  | .stackBytes => { s with stackBytes := n }
  | .parallelism => { s with parallelism := n }
  | .initialMicros => { s with initialMicros := n }
  | .longestMillis => { s with longestMillis := n }
  | .timeoutMillis => { s with timeoutMillis := some n }

def get? (s : Settings) : SettingField → Option Nat
  | .workers => some s.workers
  | .queueBound => some s.queueBound
  | .stackBytes => some s.stackBytes
  | .parallelism => some s.parallelism
  | .initialMicros => some s.initialMicros
  | .longestMillis => some s.longestMillis
  | .timeoutMillis => s.timeoutMillis

/-- Settings with a time limit given in seconds and nanoseconds, of which the whole milliseconds count. -/
def withTimeout (s : Settings) (seconds nanos : Nat) : Settings :=
  { s with timeoutMillis := some ((seconds * 1000 + nanos / 1000000) % limit) }

def fault? (s : Settings) : Option String :=
  if s.workers = 0 then some "worker_count must be greater than 0"
  else if s.queueBound = 0 then some "max_queue_depth must be greater than 0"
  else if s.stackBytes < leastStackBytes then some "thread_stack_size must be at least 64 KiB"
  else if s.parallelism = 0 then some "parallelism must be greater than 0"
  else if s.initialMicros = 0 then some "drain_initial_backoff_us must be greater than 0"
  else if min (s.longestMillis * 1000) (limit - 1) < s.initialMicros then
    some "drain_initial_backoff_us must not exceed drain_max_backoff_ms"
  else none

def check (s : Settings) : Except String Settings :=
  match s.fault? with
  | none => .ok s
  | some fault => .error fault

/-- The sleeps of a drain, in nanoseconds. -/
def backoff (s : Settings) : Backoff :=
  ⟨s.initialMicros * 1000, s.longestMillis * 1000000, s.timeoutMillis.map (· * 1000000)⟩

/-! ## As text -/

def render (s : Settings) : String :=
  let member (f : SettingField) : String :=
    "\"" ++ f.name ++ "\":" ++ (match s.get? f with
      | some n => toString n
      | none => "null")
  "\x7b" ++ ",".intercalate (SettingField.all.map member) ++ "\x7d"

def read? (s : Settings) (f : SettingField) (v : Json) : Option Settings :=
  match f, v with
  | .timeoutMillis, .null => some { s with timeoutMillis := none }
  | _, _ => (v.natBelow? limit).map (s.set · f)

/-- Settings with the members of an object read; a field may come once, and other keys are skipped. -/
def readMembers? (s : Settings) (seen : List SettingField) : List (Option String × Json) → Option Settings
  | [] => some s
  | (none, _) :: _ => none
  | (some key, v) :: rest =>
    match SettingField.ofName? key with
    | none => readMembers? s seen rest
    | some f => if seen.contains f then none else do readMembers? (← s.read? f v) (f :: seen) rest

def readItems? (s : Settings) : List SettingField → List Json → Option Settings
  | _, [] => some s
  | f :: fs, v :: rest => do readItems? (← s.read? f v) fs rest
  | [], _ :: _ => none

inductive ParseFault where
  | unreadable
  | invalid (fault : String)
  deriving DecidableEq, Repr

def parse (processors : Nat) (text : String) : Except ParseFault Settings :=
  let read := match Json.parse? text with
    | some (.object members) => (defaults processors).readMembers? [] members
    | some (.array items) => (defaults processors).readItems? SettingField.all items
    | _ => none
  match read with
  | none => .error .unreadable
  | some s => s.check.mapError .invalid

end Settings
end BitmapWorks
