import TuxDock.App.Output
import TuxDock.Lib.CommandLine

/-!
# The commands that are run

Images are pulled, containers created and shells run by a process: `DockerManager` puts the words of
a `docker` command together from what the user has entered or chosen.  How `docker` reads them is
no part of the repository: it is a parameter, and what is documented of it a hypothesis.

* `pullImage`, `createContainer`, `execShell`, `execDetachedCommand` : the calls;
* `Documented` : the rules that `docker` reads its words by;
* `success_iff` : a call succeeds iff its process has been run, and without an error;
* `done_as_asked_iff` : **what `docker` has been asked for then is what was meant, exactly when the
  image or the id does not look like an option** and the path to be mounted has no colon.
-/

namespace TuxDock

namespace Docker

open Text Process CommandLine App

/-! ### The calls -/

/-- `processError`: the standard error of the process, or a text instead of it. -/
def processError (fallback stderrText : Bytes) : Bytes :=
  if stderrText = [] then fallback else stderrText

/-- The options of `runProcess`. -/
def processOptions (inheritStdio : Bool) : ProcessOptions where
  captureStdout := !inheritStdio
  captureStderr := !inheritStdio
  inheritStdio := inheritStdio

section Calls

variable (run : List Bytes → ProcessOptions → ProcessResult)

/-- `runProcess`: whether it has succeeded, and its message if it has not. -/
def runProcess (args : List Bytes) (inheritStdio : Bool) : Bool × Bytes :=
  let result := run args (processOptions inheritStdio)
  if result.ok then (true, [])
  else (false, processError (lit "Docker command failed.") result.stderrText)

/-- A call of `runProcess` with the message that follows a success. -/
def dispatch (args : List Bytes) (inheritStdio : Bool) (done : Bytes) : Outcome :=
  let result := runProcess run args inheritStdio
  ⟨result.1, [], if result.1 then done else result.2⟩

/-- The words of `pullImage`. -/
def pullArgs (image : Bytes) : List Bytes := [lit "docker", lit "pull", image]

/-- `DockerManager::pullImage`. -/
def pullImage (image : Bytes) : Outcome :=
  if image = [] then ⟨false, [], lit "Please provide an image name."⟩
  else dispatch run (pullArgs image) false (lit "Image pulled successfully.")

/-- The words of `execShell`. -/
def shellArgs (id : Bytes) : List Bytes :=
  [lit "docker", lit "exec", lit "-it", id, lit "/bin/sh"]

/-- `DockerManager::execShell`; the process uses the terminal itself. -/
def execShell (id : Bytes) : Outcome :=
  dispatch run (shellArgs id) true (lit "Shell session finished.")

/-- The words of `execDetachedCommand`. -/
def detachedArgs (id command : Bytes) : List Bytes :=
  [lit "docker", lit "exec", lit "-d", id, lit "/bin/sh", lit "-c", command]

/-- `DockerManager::execDetachedCommand`. -/
def execDetachedCommand (id command : Bytes) : Outcome :=
  if command = [] then ⟨false, [], lit "Please provide a command to run."⟩
  else
    dispatch run (detachedArgs id command) false (lit "Command dispatched in detached mode.")

/-! ### A new container -/

/-- `operator/` of `std::filesystem::path`, for a relative path on the right. -/
def slash (dir name : Bytes) : Bytes :=
  if dir = [] ∨ dir.getLast? = some 47 then dir ++ name else dir ++ 47 :: name

/-- `parent_path`: without the last component and the slashes before it, up to the root. -/
def parentPath (path : Bytes) : Bytes :=
  let dir := path.rdropWhile (· ≠ 47)
  if dir.all (· = 47) then dir.take 1 else dir.rdropWhile (· = 47)

/-- What `createContainer` finds: the current directory, the answers of its two calls of `exists`,
and what `/proc/self/exe` links to if that can be read; `none` for a call that throws. -/
structure Host where
  currentPath : Option Bytes
  existsFirst : Bytes → Option Bool
  existsAgain : Bytes → Option Bool
  exe : Option Bytes

/-- The path that `createContainer` looks at last. -/
def hostReaperPath (host : Host) : Option Bytes :=
  host.currentPath.bind fun current =>
    let path := slash current (lit "tuxreaperd")
    (host.existsFirst path).map fun found =>
      if found then path
      else host.exe.elim path fun exe => slash (parentPath exe) (lit "tuxreaperd")

/-- Where the reaper is mounted in a container. -/
def target : Bytes := lit "/usr/local/bin/tuxreaperd"

/-- The value of `-v`. -/
def mount (path : Bytes) : Bytes := path ++ lit ":/usr/local/bin/tuxreaperd:ro"

/-- The words of `createContainer`, with the path of the reaper. -/
def createArgs (name image : Bytes) (ports : List Bytes) (path : Bytes) : List Bytes :=
  [lit "docker", lit "create", lit "--name", name] ++ [lit "--stop-timeout=60"] ++
    ports.flatMap (fun port => [lit "-p", port]) ++ [lit "-v", mount path] ++
    [image, target, lit "sleep", lit "infinity"]

/-- `createContainer`; `none` when an exception leaves it. -/
def createContainer (host : Host) (name image : Bytes) (ports : List Bytes) : Option Outcome :=
  if name = [] ∨ image = [] then
    some ⟨false, [], lit "Please provide a container name and choose an image first."⟩
  else
    (hostReaperPath host).bind fun path => (host.existsAgain path).map fun found =>
      if found then
        dispatch run (createArgs name image ports path) false
          (lit "Container created with tuxreaperd PID 1 supervisor and ready to start.")
      else
        ⟨false, [], lit "Failed to create container: tuxreaperd binary not found in the current " ++
          lit "directory or next to the tux-dock executable."⟩

/-! ### All of them -/

/-- The calls that run a process. -/
inductive Command where
  | pullImage (image : Bytes)
  | createContainer (name image : Bytes) (ports : List Bytes)
  | execShell (id : Bytes)
  | execDetachedCommand (id command : Bytes)
  | execCommandWithOutput (id command : Bytes)
  deriving Repr, DecidableEq

namespace Command

/-- What the call returns; `none` when an exception leaves it. -/
def call (host : Host) : Command → Option Outcome
  | pullImage image => some (Docker.pullImage run image)
  | createContainer name image ports => Docker.createContainer run host name image ports
  | execShell id => some (Docker.execShell run id)
  | execDetachedCommand id command => some (Docker.execDetachedCommand run id command)
  | execCommandWithOutput id command => some (Docker.execCommandWithOutput run id command)

/-- The options of the process. -/
def options : Command → ProcessOptions
  | execShell _ => processOptions true
  | execCommandWithOutput _ _ => captureBoth
  | _ => processOptions false

/-- The words of the process, given the path of the reaper. -/
def args (path : Bytes) : Command → List Bytes
  | pullImage image => pullArgs image
  | createContainer name image ports => createArgs name image ports path
  | execShell id => shellArgs id
  | execDetachedCommand id command => detachedArgs id command
  | execCommandWithOutput id command => execArgs id command

/-- A process is run: nothing is missing, and the reaper is found. -/
def Runs (host : Host) : Command → Prop
  | pullImage image => image ≠ []
  | createContainer name image _ => name ≠ [] ∧ image ≠ [] ∧
      ∃ path, hostReaperPath host = some path ∧ host.existsAgain path = some true
  | execShell _ => True
  | execDetachedCommand _ command | execCommandWithOutput _ command => command ≠ []

end Command

end Calls

variable {run : List Bytes → ProcessOptions → ProcessResult} {host : Host} {outcome : Outcome}

theorem success_dispatch (args : List Bytes) (inheritStdio : Bool) (done : Bytes) :
    (dispatch run args inheritStdio done).success =
      (run args (processOptions inheritStdio)).ok := by
  unfold dispatch runProcess
  cases h : (run args (processOptions inheritStdio)).ok <;> simp [h]

theorem success_execCommandWithOutput {id command : Bytes} (h : command ≠ []) :
    (execCommandWithOutput run id command).success =
      (run (execArgs id command) captureBoth).ok := by
  unfold execCommandWithOutput ProcessResult.ok
  simp only [h, ↓reduceIte]
  split_ifs with hsignaled hexit
  · simp [hsignaled]
  · simp [hexit]
  · simp only [not_not] at hexit
    simp [hsignaled, hexit]

/-- The path of the reaper, if one is looked for and no exception is thrown. -/
def reaperPath (host : Host) : Bytes := (hostReaperPath host).getD []

/-- A container is created only if a reaper is found. -/
theorem success_createContainer {name image : Bytes} {ports : List Bytes}
    (h : createContainer run host name image ports = some outcome) :
    outcome.success = true ↔
      (Command.createContainer name image ports).Runs host ∧
        (run (createArgs name image ports (reaperPath host)) (processOptions false)).ok = true := by
  unfold createContainer at h
  split_ifs at h with hempty
  · cases h
    refine iff_of_false (by simp) ?_
    rintro ⟨⟨hname, himage, -⟩, -⟩
    exact hempty.elim hname himage
  · obtain ⟨path, hpath, hmap⟩ := Option.bind_eq_some_iff.1 h
    obtain ⟨found, hfound, rfl⟩ := Option.map_eq_some_iff.1 hmap
    obtain ⟨hname, himage⟩ := not_or.1 hempty
    have hreaper : reaperPath host = path := by rw [reaperPath, hpath, Option.getD_some]
    rw [hreaper]
    cases found with
    | true =>
      have hruns : (Command.createContainer name image ports).Runs host :=
        ⟨hname, himage, path, hpath, hfound⟩
      simp [success_dispatch, hruns]
    | false =>
      refine iff_of_false (by simp) ?_
      rintro ⟨⟨-, -, path', hpath', hfound'⟩, -⟩
      rw [hpath] at hpath'
      cases hpath'
      rw [hfound] at hfound'
      cases hfound'

/-- **A call succeeds iff its process is run, and without an error.** -/
theorem success_iff {command : Command} (h : command.call run host = some outcome) :
    outcome.success = true ↔ command.Runs host ∧
      (run (command.args (reaperPath host)) command.options).ok = true := by
  cases command with
  | createContainer name image ports => exact success_createContainer h
  | pullImage image =>
    cases h
    by_cases himage : image = []
    · simp [pullImage, Command.Runs, himage]
    · simp [pullImage, Command.Runs, himage, success_dispatch, Command.args, Command.options]
  | execShell id =>
    cases h
    simp [execShell, Command.Runs, success_dispatch, Command.args, Command.options]
  | execDetachedCommand id command =>
    cases h
    by_cases hcommand : command = []
    · simp [execDetachedCommand, Command.Runs, hcommand]
    · simp [execDetachedCommand, Command.Runs, hcommand, success_dispatch, Command.args,
        Command.options]
  | execCommandWithOutput id command =>
    cases h
    by_cases hcommand : command = []
    · simp [execCommandWithOutput, Command.Runs, hcommand]
    · simp [Command.Runs, hcommand, success_execCommandWithOutput, Command.args, Command.options]

/-! ### What `docker` reads -/

/-- `-` and `=`. -/
def signs : Signs UInt8 := ⟨45, 61⟩

/-- How `docker` reads: the words after the name of a command, and the fields of a value of `-v`. -/
structure Reader where
  line : Bytes → List Bytes → Option (Line UInt8)
  fields : Bytes → Option (List Bytes)

/-- What a command of `docker` reads of its words, the fields of its mounts among it. -/
structure Asked where
  name : Bytes
  options : List (Name UInt8 × Option Bytes)
  mounts : List (Option (List Bytes))
  operands : List Bytes
  deriving Repr, DecidableEq

/-- The fields of the values of `-v`. -/
def Reader.mounts (reader : Reader) (options : List (Name UInt8 × Option Bytes)) :
    List (Option (List Bytes)) :=
  options.filterMap fun option =>
    if option.1 = .short 118 then option.2.map reader.fields else none

/-- What is read of the words of a process. -/
def Reader.read (reader : Reader) : List Bytes → Option Asked
  | _ :: name :: words =>
    (reader.line name words).map fun line =>
      ⟨name, line.options, reader.mounts line.options, line.operands⟩
  | _ => none

/-- The options of `docker create` that are used here, as they are written. -/
inductive CreateOption : Written UInt8 → Prop
  | name (value : Bytes) : CreateOption (.name (lit "name") value)
  | stopTimeout : CreateOption (.equals (lit "stop-timeout") (lit "60"))
  | publish (value : Bytes) : CreateOption (.letter 112 value)
  | volume (value : Bytes) : CreateOption (.letter 118 value)

/-- The options of `docker exec` that are used here: `-it` and `-d`. -/
inductive ExecOption : Written UInt8 → Prop
  | interactiveTty : ExecOption (.switches 105 [116])
  | detach : ExecOption (.switches 100 [])

/-- What is documented of `docker`: `create` and `exec` read their options before their operands,
and these options among them; `pull` reads one operand; and colons separate the fields of a
mount. -/
structure Documented (reader : Reader) : Prop where
  create : Lawful signs CreateOption (reader.line (lit "create"))
  exec : Lawful signs ExecOption (reader.line (lit "exec"))
  pull : ∀ image, ¬ LooksOptional signs image →
    reader.line (lit "pull") [image] = some ⟨[], [image]⟩
  pull_optional : ∀ image line, LooksOptional signs image →
    reader.line (lit "pull") [image] = some line → line.operands = []
  fields : ∀ a b c : Bytes, 58 ∉ a → 58 ∉ b → 58 ∉ c →
    reader.fields (a ++ 58 :: (b ++ 58 :: c)) = some [a, b, c]
  separated : ∀ value fields, reader.fields value = some fields → ∀ field ∈ fields, 58 ∉ field

namespace Command

/-- What is meant. -/
def asked (host : Host) : Command → Asked
  | pullImage image => ⟨lit "pull", [], [], [image]⟩
  | createContainer name image ports =>
    ⟨lit "create",
      [(.long (lit "name"), some name), (.long (lit "stop-timeout"), some (lit "60"))] ++
        ports.map (fun port => (.short 112, some port)) ++
        [(.short 118, some (mount (reaperPath host)))],
      [some [reaperPath host, target, lit "ro"]], [image, target, lit "sleep", lit "infinity"]⟩
  | execShell id => ⟨lit "exec", [(.short 105, none), (.short 116, none)], [], [id, lit "/bin/sh"]⟩
  | execDetachedCommand id command =>
    ⟨lit "exec", [(.short 100, none)], [], [id, lit "/bin/sh", lit "-c", command]⟩
  | execCommandWithOutput id command =>
    ⟨lit "exec", [], [], [id, lit "/bin/sh", lit "-c", command]⟩

/-- The image or the id. -/
def subject : Command → Bytes
  | pullImage image => image
  | createContainer _ image _ => image
  | execShell id => id
  | execDetachedCommand id _ => id
  | execCommandWithOutput id _ => id

/-- Nothing in it is read as something else. -/
structure Plain (host : Host) (command : Command) : Prop where
  subject : ¬ LooksOptional signs command.subject
  path : ∀ name image ports, command = .createContainer name image ports → 58 ∉ reaperPath host

/-- How the options are written. -/
def written (host : Host) : Command → List (Written UInt8)
  | pullImage _ => []
  | createContainer name _ ports =>
    [.name (lit "name") name, .equals (lit "stop-timeout") (lit "60")] ++
      ports.map (.letter 112) ++ [.letter 118 (mount (reaperPath host))]
  | execShell _ => [.switches 105 [116]]
  | execDetachedCommand _ _ => [.switches 100 []]
  | execCommandWithOutput _ _ => []

theorem args_eq (host : Host) (command : Command) : command.args (reaperPath host) =
    lit "docker" :: (command.asked host).name ::
      ((command.written host).flatMap (·.text signs) ++ (command.asked host).operands) := by
  cases command with
  | createContainer name image ports =>
    have hports : (ports.map (Written.letter 112)).flatMap (·.text signs) =
        ports.flatMap fun port => [lit "-p", port] := by
      rw [List.flatMap_map]
      rfl
    simp only [args, asked, written, createArgs, List.flatMap_append, hports]
    rfl
  | pullImage image | execShell id => rfl
  | execDetachedCommand id command | execCommandWithOutput id command => rfl

theorem options_eq (host : Host) (command : Command) :
    (command.written host).flatMap Written.options = (command.asked host).options := by
  cases command with
  | createContainer name image ports =>
    have hports : (ports.map (Written.letter (112 : UInt8))).flatMap Written.options =
        ports.map fun port => (.short 112, some port) := by
      rw [List.flatMap_map, List.map_eq_flatMap]
      rfl
    simp only [asked, written, List.flatMap_append, hports]
    rfl
  | pullImage image | execShell id => rfl
  | execDetachedCommand id command | execCommandWithOutput id command => rfl

theorem fields_mount_iff {reader : Reader} (hreader : Documented reader) {path : Bytes} :
    reader.fields (mount path) = some [path, target, lit "ro"] ↔ 58 ∉ path := by
  refine ⟨?_, ?_⟩
  · intro hfields
    exact hreader.separated _ _ hfields path List.mem_cons_self
  · intro hpath
    have htarget : (58 : UInt8) ∉ target := by decide +kernel
    have hro : (58 : UInt8) ∉ lit "ro" := by decide +kernel
    exact hreader.fields path target (lit "ro") hpath htarget hro

/-- The mounts that are read are the ones that are meant. -/
theorem mounts_iff {reader : Reader} (hreader : Documented reader) (host : Host)
    (command : Command) :
    reader.mounts (command.asked host).options = (command.asked host).mounts ↔
      ∀ name image ports, command = .createContainer name image ports → 58 ∉ reaperPath host := by
  cases command with
  | createContainer name image ports =>
    have hmounts : reader.mounts ((createContainer name image ports).asked host).options =
        [reader.fields (mount (reaperPath host))] := by
      simp [asked, Reader.mounts]
    have hmeant : ((createContainer name image ports).asked host).mounts =
        [some [reaperPath host, target, lit "ro"]] := rfl
    rw [hmounts, hmeant, List.cons_eq_cons, and_iff_left rfl, fields_mount_iff hreader]
    exact ⟨fun hcolon _ _ _ _ => hcolon, fun hcolon => hcolon name image ports rfl⟩
  | pullImage image | execShell id => exact iff_of_true rfl nofun
  | execDetachedCommand id command | execCommandWithOutput id command =>
    exact iff_of_true rfl nofun

theorem createOption_written (host : Host) (name image : Bytes) (ports : List Bytes) :
    ∀ w ∈ (createContainer name image ports).written host, CreateOption w := by
  intro w hw
  simp only [written, List.mem_append, List.mem_map, List.mem_cons, List.not_mem_nil,
    or_false] at hw
  rcases hw with ((rfl | rfl) | ⟨port, -, rfl⟩) | rfl
  · exact .name name
  · exact .stopTimeout
  · exact .publish port
  · exact .volume _

/-- The options and the operands that are read are the ones that are meant. -/
theorem line_iff {reader : Reader} (hreader : Documented reader) (host : Host)
    (command : Command) :
    reader.line (command.asked host).name
        ((command.written host).flatMap (·.text signs) ++ (command.asked host).operands) =
        some ⟨(command.asked host).options, (command.asked host).operands⟩ ↔
      ¬ LooksOptional signs command.subject := by
  rw [← options_eq]
  cases command with
  | pullImage image =>
    refine ⟨?_, hreader.pull image⟩
    intro hread hlooks
    have hoperands := hreader.pull_optional image _ hlooks hread
    cases hoperands
  | createContainer name image ports =>
    exact hreader.create.read_iff (createOption_written host name image ports) image _
  | execShell id =>
    exact hreader.exec.read_iff (List.forall_mem_singleton.2 .interactiveTty) id _
  | execDetachedCommand id command =>
    exact hreader.exec.read_iff (List.forall_mem_singleton.2 .detach) id _
  | execCommandWithOutput id command =>
    exact hreader.exec.read_iff (List.forall_mem_nil _) id _

/-- **`docker` reads what is meant exactly when the call is plain.** -/
theorem read_iff {reader : Reader} (hreader : Documented reader) (host : Host)
    (command : Command) :
    reader.read (command.args (reaperPath host)) = some (command.asked host) ↔
      command.Plain host := by
  have hline := command.line_iff hreader host
  have hmounts := command.mounts_iff hreader host
  rw [args_eq, Reader.read]
  refine ⟨?_, ?_⟩
  · intro hasked
    obtain ⟨⟨options, operands⟩, hread, heq⟩ := Option.map_eq_some_iff.1 hasked
    have hoptions : options = (command.asked host).options := congrArg Asked.options heq
    have hoperands : operands = (command.asked host).operands := congrArg Asked.operands heq
    subst hoptions hoperands
    exact ⟨hline.1 hread, hmounts.1 (congrArg Asked.mounts heq)⟩
  · intro hplain
    rw [hline.2 hplain.subject, Option.map_some, hmounts.2 hplain.path]

end Command

/-- The options used here, and no others. -/
def dockerOptions (name : Bytes) : Options UInt8 where
  long option :=
    if name = lit "create" ∧ (option = lit "name" ∨ option = lit "stop-timeout") then some .value
    else none
  short letter :=
    if name = lit "create" ∧ letter ∈ lit "pv" then some .value
    else if name = lit "exec" ∧ letter ∈ lit "dit" then some .switch
    else none

/-- A reader of these options that takes the words from left to right. -/
def dockerReader : Reader where
  line name words := readWords signs (dockerOptions name) words
  fields value := some (value.splitOn 58)

theorem isName_name : Written.IsName signs (lit "name") :=
  ⟨by decide +kernel, by decide +kernel, by decide +kernel⟩

theorem isName_stopTimeout : Written.IsName signs (lit "stop-timeout") :=
  ⟨by decide +kernel, by decide +kernel, by decide +kernel⟩

theorem correct_create {w : Written UInt8} (h : CreateOption w) :
    w.Correct signs (dockerOptions (lit "create")) := by
  cases h with
  | name value => exact ⟨isName_name, by decide +kernel⟩
  | stopTimeout => exact ⟨isName_stopTimeout, by decide +kernel⟩
  | publish value | volume value => exact ⟨by decide, by decide +kernel⟩

theorem correct_exec {w : Written UInt8} (h : ExecOption w) :
    w.Correct signs (dockerOptions (lit "exec")) := by
  cases h with
  | interactiveTty | detach => exact ⟨by decide, by decide +kernel, by decide +kernel⟩

theorem splitOn_fields {a b c : Bytes} (ha : 58 ∉ a) (hb : 58 ∉ b) (hc : 58 ∉ c) :
    (a ++ 58 :: (b ++ 58 :: c)).splitOn 58 = [a, b, c] := by
  rw [List.splitOn_append_cons_self_of_not_mem ha, List.splitOn_append_cons_self_of_not_mem hb,
    List.splitOn_eq_singleton hc]

theorem not_mem_of_mem_splitOn {value field : Bytes} (h : field ∈ value.splitOn 58) :
    58 ∉ field := by
  -- by induction on the length: what is before the first colon is the first field
  induction hlength : value.length using Nat.strong_induction_on generalizing value with
  | _ length ih =>
    by_cases hcolon : 58 ∈ value
    · obtain ⟨before, after, rfl, hbefore⟩ := List.eq_append_cons_of_mem hcolon
      rw [List.splitOn_append_cons_self_of_not_mem hbefore] at h
      rcases List.mem_cons.1 h with rfl | hrest
      · exact hbefore
      · refine ih after.length ?_ hrest rfl
        rw [← hlength, List.length_append, List.length_cons]
        omega
    · rw [List.splitOn_eq_singleton hcolon] at h
      obtain rfl := List.mem_singleton.1 h
      exact hcolon

theorem dockerReader_documented : Documented dockerReader where
  create := readWords_lawful.mono fun _ => correct_create
  exec := readWords_lawful.mono fun _ => correct_exec
  pull image h := readWords_of_not h
  pull_optional image line h hread := List.suffix_nil.1 (suffix_of_looksOptional h hread)
  fields a b c ha hb hc := congrArg some (splitOn_fields ha hb hc)
  separated value fields h field hfield := by
    cases h
    exact not_mem_of_mem_splitOn hfield

/-- The reaper is found next to the executable. -/
def webHost : Host where
  currentPath := some (lit "/home/user")
  existsFirst path := some (path = lit "/usr/bin/tuxreaperd")
  existsAgain path := some (path = lit "/usr/bin/tuxreaperd")
  exe := some (lit "/usr/bin/tux-dock")

/-- A container is created, with one port. -/
def webCommand : Command := .createContainer (lit "web") (lit "nginx") [lit "8080:80"]

/-- A process that ends without an error. -/
def endsWell (_ : List Bytes) (_ : ProcessOptions) : ProcessResult := { exitCode := 0 }

theorem webCommand_plain : webCommand.Plain webHost := by
  refine ⟨?_, ?_⟩
  · rintro ⟨b, text, heq⟩
    have hhead : webCommand.subject.head? = some 45 := congrArg List.head? heq
    exact absurd hhead (by decide +kernel)
  · intro _ _ _ _
    decide +kernel

end Docker

end TuxDock
