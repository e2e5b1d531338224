import StSpy.Config
import StSpy.SmalltalkProcessInfo

/-!
# The program

`stspy_main`, as it is built for Linux: it samples the process that the arguments name,
the only VM there is, or one that it launches. What the operating system answers and how
a command ends are arguments. Messages other than the errors are left out, and so is the
text that `main` prints for them.
-/

namespace StSpy

inductive SpyCommand where
  | dump
  | record
  | top
  deriving DecidableEq

/-- As `config.command` has it. -/
def SpyCommand.name : SpyCommand → String
  | dump => "dump"
  | record => "record"
  | top => "top"

inductive Failure where
  | error (message : String)
  | panic (message : String)

/-- What the program meets. -/
structure Surroundings where
  /-- `str::to_lowercase`. -/
  lower : String → String
  selfPid : Pid
  procEntries : Option (List ProcEntry)
  /-- `print_traces`, `record_samples` and `sample_console`. -/
  call : SpyCommand → Pid → SpyConfig → Except Failure Unit
  tempfile : Except String Unit
  /-- The effective user is root. -/
  root : Bool
  /-- The variable `SUDO_UID`, parsed. -/
  sudoUid : Option (Except String UInt32)
  sudoUser : Option String
  /-- The temporary file is opened again, for each of the child's outputs. -/
  reopen : Except String Unit
  /-- The program with its arguments, and the user it runs as if that is another. -/
  spawn : String → List String → Option UInt32 → Except String Pid
  /-- Whether the child has been successful, if it has ended. -/
  tryWait : Except String (Option Bool)
  readOutput : Option String

/-- What the program does to processes, and the child's output that it prints. -/
inductive Effect where
  | called (command : SpyCommand) (pid : Pid) (config : SpyConfig)
  | spawned (pid : Pid)
  | printed (buffer : String)
  | killed (pid : Pid)

structure ProgramRun where
  effects : List Effect
  result : Except Failure Unit

def noVmFound (command : String) : String :=
  "No running OpenSmalltalk VM found. Specify one with --pid <pid>, or launch one with: st-spy " ++ command ++
    " -- <vm> <image>"

def multipleVmsFound (pids : List Pid) : String :=
  "Multiple OpenSmalltalk VMs found (pids: " ++ ", ".intercalate (pids.map fun pid => pid.toInt.repr) ++
    "). Disambiguate with --pid <pid>."

namespace Surroundings

variable (env : Surroundings)

def runSpyCommand (pid : Pid) (config : SpyConfig) : ProgramRun :=
  let run (command : SpyCommand) : ProgramRun := ⟨[.called command pid config], env.call command pid config⟩
  if config.command = "dump" then run .dump
  else if config.command = "record" then run .record
  else if config.command = "top" then run .top
  else ⟨[], .error (.error ("Unknown command " ++ config.command))⟩

/-- The user that a program launched through sudo runs as. -/
def commandUid : Except String (Option UInt32) :=
  if env.root then
    match env.sudoUid with
    | none => .ok none
    | some sudoUid =>
      match env.sudoUser with
      | none => .error "environment variable not found"
      | some _ => sudoUid.map some
  else .ok none

/-- The branch for a program that is to be launched. -/
def launch (subprocess : List String) (config : SpyConfig) : ProgramRun :=
  let fail (message : String) : ProgramRun := ⟨[], .error (.error message)⟩
  match env.tempfile, subprocess with
  | .error e, _ => fail e
  | .ok (), [] => ⟨[], .error (.panic "index out of bounds: the len is 0 but the index is 0")⟩
  | .ok (), program :: arguments =>
    match env.commandUid with
    | .error e => fail e
    | .ok uid =>
      match if config.captureOutput then env.reopen else .ok () with
      | .error e => fail e
      | .ok () =>
        match env.spawn program arguments uid with
        | .error e => fail ("Failed to create process '" ++ program ++ "': " ++ e)
        | .ok pid =>
          let run := env.runSpyCommand pid config
          match run.result with
          -- the child is left behind
          | .error (.panic _) => ⟨.spawned pid :: run.effects, run.result⟩
          | _ =>
            match env.tryWait with
            | .error e => ⟨.spawned pid :: run.effects, .error (.error e)⟩
            | .ok exit =>
              let failed := !exit.getD true || !run.result.isOk
              let output := if config.captureOutput && failed then env.readOutput else none
              ⟨.spawned pid :: run.effects ++ (output.map Effect.printed).toList ++ [.killed pid], run.result⟩

def vms : List Pid := findVmProcesses env.lower env.procEntries env.selfPid

def stspyMain (config : SpyConfig) : ProgramRun :=
  match config.pid, config.program with
  | some pid, _ => env.runSpyCommand pid config
  | none, none =>
    match env.vms with
    | [] => ⟨[], .error (.error (noVmFound config.command))⟩
    | [pid] => env.runSpyCommand pid config
    | many => ⟨[], .error (.error (multipleVmsFound many))⟩
  | none, some subprocess => env.launch subprocess config

end Surroundings

/-! ## The arguments -/

def Matches.command : Matches → Option SpyCommand
  | record _ => some .record
  | top _ => some .top
  | dump _ => some .dump
  | completions => none

/-- The same command line with a pid. -/
def Matches.setPid (text : String) : Matches → Matches
  | record args => record { args with pid := some text }
  | top args => top { args with pid := some text }
  | dump args => dump { args with pid := some text }
  | completions => completions

theorem withCommon_eq_config {base config : SpyConfig} {args : CommonArgs} {command : String} {capture : Bool}
    (h : base.withCommon args command capture = .config config) :
    config.command = command ∧ config.format = base.format ∧ config.program = base.program ∧
      config.pid = args.pid.bind parsePid ∧ (args.pid = none ∨ config.pid ≠ none) := by
  unfold SpyConfig.withCommon at h
  dsimp only at h
  split at h
  · rename_i hpid
    rw [hpid]
    split at h
    · cases h
    · cases h
      split <;> exact ⟨rfl, rfl, rfl, rfl, .inl rfl⟩
  · rename_i text hpid
    rw [hpid]
    split at h
    · cases h
    · rename_i pid hparse
      split at h
      · cases h
      · cases h
        split <;> exact ⟨rfl, rfl, rfl, hparse.symm, .inr (Option.some_ne_none pid)⟩

/-- Another pid changes nothing else. -/
theorem withCommon_setPid {base config : SpyConfig} {args : CommonArgs} {command : String} {capture : Bool}
    (h : base.withCommon args command capture = .config config) (hnone : args.pid = none) {pid : Pid} {text : String}
    (hpid : parsePid text = some pid) :
    base.withCommon { args with pid := some text } command capture = .config { config with pid := some pid } := by
  unfold SpyConfig.withCommon at h ⊢
  simp only [hnone] at h
  simp only [hpid]
  split at h
  · cases h
  · rename_i hnonblocking
    cases h
    rw [if_neg hnonblocking]
    split <;> rfl

theorem fromArgs_eq_config {m : Matches} {config : SpyConfig} (h : fromArgs m = .config config) :
    ∃ command, m.command = some command ∧ config.command = command.name ∧
      (command = .record → config.format ≠ none) := by
  cases m with
  | record args =>
    simp only [fromArgs] at h
    split at h
    · cases h
    · obtain ⟨hcommand, hformat, -⟩ := withCommon_eq_config h
      refine ⟨.record, rfl, hcommand, fun _ => ?_⟩
      rw [hformat]
      exact Option.some_ne_none _
  | top args => exact ⟨.top, rfl, (withCommon_eq_config h).1, SpyCommand.noConfusion⟩
  | dump args => exact ⟨.dump, rfl, (withCommon_eq_config h).1, SpyCommand.noConfusion⟩
  | completions => cases h

theorem fromArgs_setPid {m : Matches} {config : SpyConfig} (h : fromArgs m = .config config) (hnone : config.pid = none)
    {pid : Pid} {text : String} (hpid : parsePid text = some pid) :
    fromArgs (m.setPid text) = .config { config with pid := some pid } := by
  have hargs : ∀ {base : SpyConfig} {args : CommonArgs} {command : String} {capture : Bool},
      base.withCommon args command capture = .config config →
      base.withCommon { args with pid := some text } command capture = .config { config with pid := some pid } := by
    intro base args command capture hcommon
    obtain ⟨-, -, -, -, hempty | hsome⟩ := withCommon_eq_config hcommon
    · exact withCommon_setPid hcommon hempty hpid
    · exact absurd hnone hsome
  cases m with
  | record args =>
    simp only [fromArgs] at h
    split at h
    · cases h
    · rename_i duration hduration
      simp only [Matches.setPid, fromArgs, hduration]
      exact hargs h
  | top args => exact hargs h
  | dump args => exact hargs h
  | completions => cases h

/-! ## Runs -/

namespace Surroundings

variable {env : Surroundings} {config : SpyConfig} {pid : Pid}

theorem runSpyCommand_eq {command : SpyCommand} (h : config.command = command.name) :
    env.runSpyCommand pid config = ⟨[.called command pid config], env.call command pid config⟩ := by
  cases command <;> simp [runSpyCommand, h, SpyCommand.name]

/-- A launched program is killed, unless the command panics or the program's state cannot be read. -/
theorem launch_kills {subprocess : List String} (h : .spawned pid ∈ (env.launch subprocess config).effects) :
    .killed pid ∈ (env.launch subprocess config).effects ∨
      (∃ message, (env.launch subprocess config).result = .error (.panic message)) ∨ ∃ e, env.tryWait = .error e := by
  have hcalled : ∀ child, Effect.spawned pid ∉ (env.runSpyCommand child config).effects := by
    intro child
    unfold runSpyCommand
    dsimp only
    split_ifs <;> simp
  unfold launch at h ⊢
  dsimp only at h ⊢
  split at h
  · cases h
  · cases h
  · split at h
    · cases h
    · split at h
      · cases h
      · split at h
        · cases h
        · rename_i child hspawn
          split at h
          · rename_i message hpanic
            exact .inr (.inl ⟨message, hpanic⟩)
          · split at h
            · rename_i e hwait
              exact .inr (.inr ⟨e, hwait⟩)
            · refine .inl ?_
              have hchild : pid = child := by simpa [hcalled child] using h
              rw [hchild]
              exact List.mem_append_right _ List.mem_cons_self

end Surroundings

/-- A VM that is found: another process that looks like one and that attaching would take for one. -/
inductive FoundVm (env : Surroundings) (pid : Pid) : ProcEntry → Prop
  | mk {entry : ProcEntry} {name : String} {process : OpenProcess} {info : SmalltalkProcessInfo}
      (hname : entry.name = some name) (hpid : parseI32 10 name.toList = some pid) (hother : pid ≠ env.selfPid)
      (hlooks : nameLooksLikeVm env.lower (entry.comm.getD "") = true ∨
        nameLooksLikeVm env.lower (entry.exe.getD "") = true)
      (hprocess : entry.process = .ok process) (hinfo : SmalltalkProcessInfo.new env.lower process = .ok info) :
      FoundVm env pid entry

theorem vmProcess_eq_some {env : Surroundings} {pid : Pid} {entry : ProcEntry} :
    vmProcess env.lower env.selfPid entry = some pid ↔ FoundVm env pid entry := by
  constructor
  · intro h
    unfold vmProcess at h
    obtain ⟨name, hname, h⟩ := Option.bind_eq_some_iff.mp h
    obtain ⟨found, hpid, h⟩ := Option.bind_eq_some_iff.mp h
    split at h
    · cases h
    · rename_i hother
      split at h
      · cases h
      · rename_i hlooks
        split at h
        · cases h
        · rename_i process hprocess
          split at h
          · cases h
          · rename_i info hinfo
            cases h
            exact .mk hname hpid hother (by simpa [or_iff_not_imp_left] using hlooks) hprocess hinfo
  · rintro ⟨hname, hpid, hother, hlooks, hprocess, hinfo⟩
    have hcandidate : (!nameLooksLikeVm env.lower (entry.comm.getD "") &&
        !nameLooksLikeVm env.lower (entry.exe.getD "")) = false := by
      rcases hlooks with hcomm | hexe
      · rw [hcomm]
        rfl
      · rw [hexe, Bool.not_true, Bool.and_false]
    simp [vmProcess, hname, hpid, hother, hcandidate, hprocess, hinfo]

theorem Surroundings.mem_vms {env : Surroundings} {pid : Pid} :
    pid ∈ env.vms ↔ ∃ entries, env.procEntries = some entries ∧ ∃ entry ∈ entries, FoundVm env pid entry := by
  unfold vms findVmProcesses
  cases env.procEntries with
  | none => simp
  | some entries => simp [vmProcess_eq_some]

theorem Surroundings.vms_pairwise (env : Surroundings) : env.vms.Pairwise (· ≤ ·) := by
  unfold vms findVmProcesses
  split
  · exact .nil
  · refine (List.pairwise_mergeSort (fun _ _ _ hab hbc => ?_) (fun a b => ?_) _).imp of_decide_eq_true
    · exact decide_eq_true (Int32.le_trans (of_decide_eq_true hab) (of_decide_eq_true hbc))
    · simpa using Int32.le_total a b

/-- Without a pid and a program to launch, the command runs on the VM if there is one only. If there are several they
are listed, and with the text of any pid, in decimal or in hexadecimal, the command runs on that process. What is to
be recorded has a format. -/
theorem main_targets (env : Surroundings) {m : Matches} {config : SpyConfig} (hargs : fromArgs m = .config config)
    (hpid : config.pid = none) (hprogram : config.program = none) :
    ∃ command, m.command = some command ∧ (command = .record → config.format ≠ none) ∧
      env.vms.Pairwise (· ≤ ·) ∧
      (∀ pid, pid ∈ env.vms ↔
        ∃ entries, env.procEntries = some entries ∧ ∃ entry ∈ entries, FoundVm env pid entry) ∧
      (env.vms = [] → env.stspyMain config = ⟨[], .error (.error (noVmFound command.name))⟩) ∧
      (∀ pid, env.vms = [pid] →
        env.stspyMain config = ⟨[.called command pid config], env.call command pid config⟩) ∧
      (2 ≤ env.vms.length → env.stspyMain config = ⟨[], .error (.error (multipleVmsFound env.vms))⟩) ∧
      ∀ pid text, PidText pid text →
        ∃ config', fromArgs (m.setPid text) = .config config' ∧ config' = { config with pid := some pid } ∧
          env.stspyMain config' = ⟨[.called command pid config'], env.call command pid config'⟩ := by
  obtain ⟨command, hcommand, hname, hformat⟩ := fromArgs_eq_config hargs
  refine ⟨command, hcommand, hformat, env.vms_pairwise, fun pid => Surroundings.mem_vms, fun hnone => ?_,
    fun pid hone => ?_, fun hseveral => ?_, fun pid text htext => ⟨_, fromArgs_setPid hargs hpid htext.parsePid, rfl, ?_⟩⟩
  · simp only [Surroundings.stspyMain, hpid, hprogram, hnone, hname]
  · simp only [Surroundings.stspyMain, hpid, hprogram, hone]
    exact Surroundings.runSpyCommand_eq hname
  · simp only [Surroundings.stspyMain, hpid, hprogram]
    split
    · rename_i hnone
      rw [hnone] at hseveral
      cases hseveral
    · rename_i pid hone
      rw [hone, List.length_singleton] at hseveral
      omega
    · rfl
  · exact Surroundings.runSpyCommand_eq hname

/-- Two VMs run. -/
def squeaks : Surroundings where
  lower := id
  selfPid := 3
  procEntries :=
    let process : OpenProcess :=
      { exe := .ok "/squeak"
        maps := .ok [⟨0, 4096, true, some "/squeak"⟩]
        parseBinary := fun _ _ => none
        mem := .ofWords [] }
    some [⟨some "12", some "squeak", none, .ok process⟩, ⟨some "self", none, none, .error "no pid"⟩,
      ⟨some "7", none, some "/squeak", .ok process⟩]
  call _ _ _ := .ok ()
  tempfile := .ok ()
  root := false
  sudoUid := none
  sudoUser := none
  reopen := .ok ()
  spawn _ _ _ := .error "nothing to launch"
  tryWait := .ok none
  readOutput := none

theorem main_targets_squeaks :
    ∃ config, fromArgs (.top {}) = .config config ∧ squeaks.vms.length = 2 ∧
      ∃ command, (Matches.top {}).command = some command ∧ (command = .record → config.format ≠ none) ∧
        squeaks.vms.Pairwise (· ≤ ·) ∧
        (∀ pid, pid ∈ squeaks.vms ↔
          ∃ entries, squeaks.procEntries = some entries ∧ ∃ entry ∈ entries, FoundVm squeaks pid entry) ∧
        (squeaks.vms = [] → squeaks.stspyMain config = ⟨[], .error (.error (noVmFound command.name))⟩) ∧
        (∀ pid, squeaks.vms = [pid] →
          squeaks.stspyMain config = ⟨[.called command pid config], squeaks.call command pid config⟩) ∧
        (2 ≤ squeaks.vms.length →
          squeaks.stspyMain config = ⟨[], .error (.error (multipleVmsFound squeaks.vms))⟩) ∧
        ∀ pid text, PidText pid text →
          ∃ config', fromArgs ((Matches.top {}).setPid text) = .config config' ∧
            config' = { config with pid := some pid } ∧
            squeaks.stspyMain config' = ⟨[.called command pid config'], squeaks.call command pid config'⟩ :=
  ⟨_, rfl, (List.length_mergeSort _).trans rfl, main_targets squeaks rfl rfl rfl⟩

end StSpy
