import StSpy.NativeStack
import StSpy.Config

/-!
# The two backends

`capture` and `resolve` of `NativeStack` with either unwinder. Libunwind gives the
addresses while the target is suspended; framehop copies the stack, and its walk
over the copy, `unwind`, comes later.
-/

namespace StSpy

open FramehopUnwind (Framehop StackSnapshot)

inductive ThreadCapture where
  | addresses (addrs : List UInt64)
  | snapshot (snap : StackSnapshot)

/-- What the capture of a thread meets: the mappings and files if the modules are
scanned again, its registers, and the addresses that libunwind's cursor gives,
each of which may be an error. -/
structure ThreadAnswers where
  scan : FramehopUnwind.Call
  regs : Option FramehopUnwind.Registers
  cursor : Option (List (Option UInt64))

namespace NativeStack

variable (kind : UnwinderKind) (ns : NativeStack)

/-- `reload_backend` does nothing with libunwind. -/
def countCapture : NativeStack :=
  if ns.capturesSinceReload + 1 ≥ framehopRefreshInterval then { ns with capturesSinceReload := 0 }
  else { ns with capturesSinceReload := ns.capturesSinceReload + 1 }

def captureThread (M : Memory) (answers : ThreadAnswers) : Option ThreadCapture × NativeStack :=
  match kind with
  | .libunwind => ((answers.cursor.bind (·.mapM id)).map .addresses, ns.countCapture)
  | .framehop =>
    let (snap, ns) := ns.capture answers.scan M answers.regs
    (snap.map .snapshot, ns)

/-- The addresses of a capture. Libunwind has no snapshots. -/
def addressesOf (unwind : Framehop → StackSnapshot → List UInt64) : ThreadCapture → List UInt64
  | .addresses addrs => addrs
  | .snapshot snap =>
    match kind with
    | .framehop => unwind ns.backend snap
    | .libunwind => []

def resolveCapture (lookups : Lookups) (unwind : Framehop → StackSnapshot → List UInt64) (reloaded : Symbolicator)
    (capture : ThreadCapture) : List Frame × NativeStack :=
  ns.resolve lookups reloaded (ns.addressesOf kind unwind capture)

end NativeStack

end StSpy
