/-!
# Fault — why an operation fails

One cause each, with what it names, and one text for every cause.  `Refusal` is why a crew of workers does not take a
job; a task that is refused ends with the fault of the refusal.
-/
namespace BitmapWorks

inductive Fault where
  /-- An argument is refused before any work starts. -/
  | argument (what : String)
  /-- So many bytes cannot be had. -/
  | allocation (bytes : Nat)
  /-- The input bytes are not what they should be. -/
  | corrupted (what : String)
  /-- A stretch of bytes does not start on the boundary that its format needs. -/
  | misaligned (required : Nat)
  /-- A caller's buffer is shorter than what goes into it. -/
  | bufferTooSmall (required available : Nat)
  /-- A call of the operating system fails on a path, with its error number. -/
  | system (errno : Int) (call path : String)
  /-- No new tasks are taken. -/
  | shuttingDown
  /-- A change is refused while a task reads the bitmap. -/
  | frozen
  /-- The crew does not take the job. -/
  | pool (what : String)
  /-- A rule of this library is broken, or work ends abnormally. -/
  | internal (what : String)
  deriving DecidableEq, Repr

namespace Fault

def message : Fault → String
  | argument what => "invalid argument: " ++ what
  | allocation bytes => "failed to allocate " ++ toString bytes ++ " bytes"
  | corrupted what => what
  | misaligned required => "buffer must be aligned to " ++ toString required ++ " bytes"
  | bufferTooSmall required available =>
    "buffer too small: need " ++ toString required ++ " bytes, got " ++ toString available
  | system errno call path => call ++ " failed for '" ++ path ++ "': os error " ++ toString errno
  | shuttingDown => "addon is shutting down"
  | frozen => "bitmap is frozen by a pending asynchronous operation"
  | pool what => "worker pool error: " ++ what
  | internal what => "internal error: " ++ what

end Fault

inductive Refusal where
  | queueFull
  | closed
  | badSettings (what : String)
  | internal (what : String)
  deriving DecidableEq, Repr

namespace Refusal

def message : Refusal → String
  | queueFull => "job queue is full"
  | closed => "pool has been shut down"
  | badSettings what => "invalid configuration: " ++ what
  | internal what => "internal error: " ++ what

def fault : Refusal → Fault
  | closed => .shuttingDown
  | refusal => .pool refusal.message

end Refusal
end BitmapWorks
