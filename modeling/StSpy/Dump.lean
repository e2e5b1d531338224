import StSpy.Record

/-!
# Dumping a process

`writeTraces` prints the traces of a process and, with `subprocesses`, calls
itself on the children of the process, as `child_processes` lists them. What the
operating system and `SmalltalkSpy` answer is an argument. The recursion is
bounded by `fuel`; the source's by the process tree.
-/

namespace StSpy.Dump

/-- What the calls made for a process return. -/
structure Host where
  newSpy : Pid → Except String String
  getStackTraces : Pid → Except String (List StackTrace)
  cmdline : Pid → Except String (List String)
  exe : Pid → Except String String
  newProcess : Pid → Except String Unit
  childProcesses : Pid → Except String (List (Pid × Pid))

inductive Failure where
  | error (message : String)
  | panic (message : String)
  | outOfFuel

/-- What is printed: a line each, but for the traces of a process. -/
inductive Item where
  | json (pid : Pid) (traces : List StackTrace)
  | process (pid : Pid) (cmdline : String)
  | vm (version exe : String)
  | parentProcess (pid : Pid) (cmdline : String)
  | blank
  | traces (pid : Pid) (traces : List StackTrace)
  | separator

/-- What a call prints before it returns or fails. -/
structure Run where
  out : List Item
  result : Except Failure Unit

namespace Run

def print (item : Item) : Run := ⟨[item], .ok ()⟩

def fail (failure : Failure) : Run := ⟨[], .error failure⟩

def skip : Run := ⟨[], .ok ()⟩

/-- The second run starts when the first one returns. -/
def andThen (first second : Run) : Run :=
  match first.result with
  | .ok () => ⟨first.out ++ second.out, second.result⟩
  | .error _ => first

/-- A fallible call, then the rest with its result. -/
def call {α : Type} (x : Except String α) (rest : α → Run) : Run :=
  match x with
  | .ok a => rest a
  | .error message => fail (.error message)

end Run

variable (host : Host)

/-- `get_stack_traces` with its context. -/
def stackTraces (pid : Pid) : Except String (List StackTrace) :=
  match host.getStackTraces pid with
  | .ok traces => .ok traces
  | .error _ => .error "Failed to get stack traces"

def writeJson (pid : Pid) : Run :=
  .call (stackTraces host pid) fun traces => .print (.json pid traces)

def writeParent (parent : Option Pid) : Run :=
  match parent with
  | none => .skip
  | some parentpid =>
    .call (host.newProcess parentpid) fun _ =>
      .call (host.cmdline parentpid) fun cmdline => .print (.parentProcess parentpid (" ".intercalate cmdline))

/-- The lines about the process itself. -/
def writeProcess (pid : Pid) (vmVersion : String) (parent : Option Pid) : Run :=
  (Run.call (host.cmdline pid) fun cmdline => .print (.process pid (" ".intercalate cmdline))).andThen <|
    (Run.call (host.exe pid) fun exe => .print (.vm vmVersion exe)).andThen <|
      (writeParent host parent).andThen <|
        (Run.print .blank).andThen <|
          Run.call (stackTraces host pid) fun traces => .print (.traces pid traces.reverse)

/-- The loop over the listed processes; `recurse` is the call for a child. -/
def writeChildren (recurse : Pid → Option Pid → Run) (pid : Pid) : List (Pid × Pid) → Run
  | [] => .skip
  | (childpid, parentpid) :: processes =>
    (Run.print .separator).andThen <|
      (if parentpid = pid then recurse childpid (some parentpid) else .skip).andThen <|
        writeChildren recurse pid processes

def writeTraces (config : Config) : Nat → Pid → Option Pid → Run
  | 0, _, _ => .fail .outOfFuel
  | fuel + 1, pid, parent =>
    .call (host.newSpy pid) fun vmVersion =>
      if config.dumpJson then writeJson host pid
      else
        (writeProcess host pid vmVersion parent).andThen <|
          if config.subprocesses then
            match host.childProcesses pid with
            | .error _ => .fail (.panic "failed to get subprocesses")
            | .ok processes => writeChildren (writeTraces config fuel) pid processes
          else .skip

end StSpy.Dump
