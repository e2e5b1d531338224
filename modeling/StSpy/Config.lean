import StSpy.Record
import StSpy.Text.Numbers

/-!
# The command line

`Config` as a whole and `from_args`, from where clap has matched the arguments.
`Matches` holds what clap's declarations let through: a value for each argument
with a default, and a format or a backend that is one of those there are. What the
viewer's refresh takes from the configuration is left out.
-/

namespace StSpy

inductive LockingStrategy where
  | alreadyLocked
  | lock
  deriving DecidableEq

inductive FileFormat where
  | flamegraph
  | raw
  | speedscope
  | chrometrace
  deriving DecidableEq

inductive UnwinderKind where
  | framehop
  | libunwind
  deriving DecidableEq

/-- On Linux x86-64. -/
def UnwinderKind.platformDefault : UnwinderKind := framehop

/-- `Config` with its defaults. -/
structure SpyConfig extends RecordConfig where
  blocking : LockingStrategy := .lock
  command : String := "top"
  pid : Option Pid := none
  program : Option (List String) := none
  filename : Option String := none
  format : Option FileFormat := none
  hideProgress : Bool := false
  captureOutput : Bool := true
  fullFilenames : Bool := false
  hideNativeRoots : Bool := true
  unwinder : UnwinderKind := .platformDefault

/-- The arguments that the three commands have in common. -/
structure CommonArgs where
  pid : Option String := none
  fullFilenames : Bool := false
  keepNativeRoots : Bool := false
  unwinder : Option UnwinderKind := none
  subprocesses : Bool := false
  nonblocking : Bool := false

structure RecordArgs extends CommonArgs where
  program : Option (List String) := none
  rate : UInt64 := 100
  idle : Bool := false
  output : Option String := none
  format : FileFormat := .flamegraph
  duration : String := "unlimited"
  nolineno : Bool := false
  threads : Bool := false
  capture : Bool := false
  hideprogress : Bool := false

structure TopArgs extends CommonArgs where
  program : Option (List String) := none
  rate : UInt64 := 100
  idle : Bool := false

structure DumpArgs extends CommonArgs where
  json : Bool := false

inductive Matches where
  | record (args : RecordArgs)
  | top (args : TopArgs)
  | dump (args : DumpArgs)
  | completions

/-- How `from_args` ends. -/
inductive FromArgs where
  | config (config : SpyConfig)
  | exit (code : Int32)
  | panic (message : String)

def parseDuration (duration : String) : Option RecordDuration :=
  if duration = "unlimited" then some .unlimited else (parseU64 duration.toList).map .seconds

/-- In decimal, or in hexadecimal behind `0x`. Of the letters that
`to_lowercase` changes only those of ASCII are ever parsed. -/
def parsePid (pid : String) : Option Pid :=
  match pid.toList.map Char.toLower with
  | '0' :: 'x' :: digits => parseI32 16 digits
  | _ => parseI32 10 pid.toList

/-- The part of `from_args` behind the two matches on the command. -/
def SpyConfig.withCommon (config : SpyConfig) (args : CommonArgs) (command : String) (capture : Bool) : FromArgs :=
  let finish (pid : Option Pid) : FromArgs :=
    let config := { config with
      subprocesses := args.subprocesses
      command
      pid
      fullFilenames := args.fullFilenames
      hideNativeRoots := !args.keepNativeRoots
      unwinder := args.unwinder.getD config.unwinder
      captureOutput := command ≠ "record" || capture }
    let config := if !config.captureOutput then { config with hideProgress := true } else config
    if args.nonblocking then .exit 1 else .config config
  match args.pid with
  | none => finish none
  | some text =>
    match parsePid text with
    | none => .panic "invalid pid"
    | some pid => finish (some pid)

def fromArgs : Matches → FromArgs
  | .record args =>
    match parseDuration args.duration with
    | none => .panic "invalid duration"
    | some duration =>
      SpyConfig.withCommon
        { samplingRate := args.rate
          duration
          format := some args.format
          filename := args.output
          showLineNumbers := !args.nolineno
          includeThreadIds := args.threads
          hideProgress := args.hideprogress
          program := args.program
          includeIdle := args.idle }
        args.toCommonArgs "record" args.capture
  | .top args =>
    SpyConfig.withCommon { samplingRate := args.rate, program := args.program, includeIdle := args.idle }
      args.toCommonArgs "top" false
  | .dump args => SpyConfig.withCommon { dumpJson := args.json } args.toCommonArgs "dump" false
  | .completions => .exit 0

/-! ## Numbers on the command line -/

/-- The ways to write a pid. -/
inductive PidText (pid : Pid) : String → Prop
  | decimal : PidText pid pid.toInt.repr
  | hexadecimal {n : Nat} {text : String} (hn : n < 2 ^ 31) (hpid : pid = Int32.ofNat n)
      (htext : text.toList.map Char.toLower = '0' :: 'x' :: Nat.toDigits 16 n) : PidText pid text

theorem PidText.parsePid {pid : Pid} {text : String} (h : PidText pid text) : parsePid text = some pid := by
  cases h with
  | decimal =>
    unfold StSpy.parsePid
    split
    · rename_i digits htext
      have hx : 'x' ∈ pid.toInt.repr.toList.map Char.toLower := by rw [htext]; simp
      obtain ⟨c, hc, heq⟩ := List.mem_map.mp hx
      exact absurd heq (toLower_ne_of_mem_repr hc)
    · exact parseI32_repr pid
  | hexadecimal hn hpid htext =>
    subst hpid
    unfold StSpy.parsePid
    rw [htext]
    exact parseI32_toDigits (by decide) (by decide) hn

theorem parseDuration_repr {n : Nat} (h : n < 2 ^ 64) : parseDuration n.repr = some (.seconds (UInt64.ofNat n)) := by
  have hne : n.repr ≠ "unlimited" := by
    intro heq
    have hhead : (Nat.toDigits 10 n).head? = some 'u' := by rw [← Nat.toList_repr, heq]; rfl
    exact head?_toDigits_ne n (by decide) (by decide) (by decide) hhead
  rw [parseDuration, if_neg hne, Nat.toList_repr, parseU64_toDigits h]
  rfl

end StSpy
