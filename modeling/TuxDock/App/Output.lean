import TuxDock.App.Modal
import TuxDock.Process.Runner
import TuxDock.Text.Decimal

/-!
# The output of a command

`execCommandWithOutput` tells the application whether the command has succeeded, but the thread that
has called it hands on one text only; the dialog that shows the text finds out from its beginning
whether to call it a failure.

* `execCommandWithOutput` : the call;
* `Underway.advance` : **a busy dialog ends with the completion of its operation**;
* `title_iff` : when the title that is found is the right one;
* `output_iff` : **so it is when the application shows it, in every run**.
-/

namespace TuxDock

namespace Docker

open Text Process

/-! ### The call -/

/-- The output of a command: what it has written to the one stream and then to the other. -/
def joined (stdoutText stderrText : Bytes) : Bytes :=
  if stderrText = [] then stdoutText
  else (if stdoutText = [] then [] else stdoutText ++ lit "\n") ++ stderrText

/-- The arguments and the options of the process. -/
def execArgs (id command : Bytes) : List Bytes :=
  [lit "docker", lit "exec", id, lit "/bin/sh", lit "-c", command]

/-- Both streams are captured. -/
def captureBoth : ProcessOptions := ⟨true, true, false⟩

/-- `execCommandWithOutput`, with the output and the message it leaves. -/
def execCommandWithOutput (run : List Bytes → ProcessOptions → ProcessResult) (id command : Bytes) :
    App.Outcome :=
  if command = [] then ⟨false, [], lit "Please provide a command to run."⟩
  else
    let result := run (execArgs id command) captureBoth
    let output := joined result.stdoutText result.stderrText
    if result.signaled then
      ⟨false, output, lit "Command terminated by signal " ++ decimal result.signal ++ lit "."⟩
    else if result.exitCode ≠ 0 then
      ⟨false, output, lit "Command exited with code " ++ decimal result.exitCode ++ lit "."⟩
    else ⟨true, output, lit "Command completed successfully."⟩

end Docker

namespace App

open Text History Transition Process Docker

/-! ### The operation of a busy dialog -/

/-- An operation of which the call returns `outcome` is under way: it is running, its thread is
about to post, or its completion is posted. -/
inductive Underway (action : Operation) (onComplete : Option OnComplete) (outcome : Outcome)
    (s : System) : Prop where
  | running (threads : s.app.actionThreads = [.busy action onComplete])
      (quiet : ∀ p ∈ s.queue, p.post.isCompletion = false)
  | ended (threads : s.app.actionThreads = [.complete (action.result outcome) onComplete])
      (quiet : ∀ p ∈ s.queue, p.post.isCompletion = false)
  | posted (threads : s.app.actionThreads = [])
      (only : ∀ p ∈ s.queue, p.post.isCompletion = true →
        p.post = .complete (action.result outcome) onComplete)

variable {L : Json.Library} {env : Env} {s t : System} {label : Label} {action : Operation}
  {onComplete : Option OnComplete} {outcome : Outcome}

/-- It depends on the threads of operations and on the completions that are posted. -/
theorem Underway.congr (h : Underway action onComplete outcome s)
    (hthreads : t.app.actionThreads = s.app.actionThreads)
    (hqueue : ∀ p ∈ t.queue, p ∈ s.queue ∨ p.post.isCompletion = false) :
    Underway action onComplete outcome t := by
  have hquiet (hs : ∀ p ∈ s.queue, p.post.isCompletion = false) :
      ∀ p ∈ t.queue, p.post.isCompletion = false := by
    intro p hp
    exact (hqueue p hp).elim (hs p) id
  cases h with
  | running threads quiet => exact .running (hthreads.trans threads) (hquiet quiet)
  | ended threads quiet => exact .ended (hthreads.trans threads) (hquiet quiet)
  | posted threads only =>
    refine .posted (hthreads.trans threads) ?_
    intro p hp hcompletion
    refine only p ((hqueue p hp).resolve_right ?_) hcompletion
    rw [hcompletion]
    nofun

/-- The thread of the operation fetches nothing. -/
theorem Underway.fetch_action (h : Underway action onComplete outcome s) (k : ℕ) :
    s.app.fetch (.action k) = none := by
  unfold TuxDockApp.fetch
  cases h with
  | running threads quiet | ended threads quiet =>
    rw [threads]
    rcases k with _ | k <;> rfl
  | posted threads only =>
    rw [threads]
    rfl

theorem Underway.setFetch {fetch : Fetch} {w : Worker} {old : Fetch}
    (h : Underway action onComplete outcome s) (hold : s.app.fetch w = some old) :
    Underway action onComplete outcome { s with app := s.app.setFetch fetch w } := by
  refine h.congr ?_ fun p hp => .inl hp
  cases w with
  | poller => rfl
  | refresh => rfl
  | action k =>
    rw [h.fetch_action] at hold
    cases hold

theorem Underway.act {k : ℕ} {old new : ActionThread} (h : Underway action onComplete outcome s)
    (hruns : s.app.actionThreads[k]? = some old) (hacts : old.act outcome = some new) :
    Underway action onComplete outcome
      { s with app.actionThreads := s.app.actionThreads.set k new } := by
  cases h with
  | running threads quiet =>
    rw [threads, List.getElem?_singleton] at hruns
    obtain ⟨rfl, hold⟩ := Option.ite_none_right_eq_some.1 hruns
    cases hold
    cases hacts
    exact .ended (by simp only [threads, List.set_cons_zero]) quiet
  | ended threads quiet =>
    rw [threads, List.getElem?_singleton] at hruns
    obtain ⟨rfl, hold⟩ := Option.ite_none_right_eq_some.1 hruns
    cases hold
    cases hacts
  | posted threads only =>
    rw [threads, List.getElem?_nil] at hruns
    cases hruns

/-- A completion that is posted is that of the operation. -/
theorem Underway.post {w : Worker} {post : Post} {a : TuxDockApp} {time : ℕ}
    (h : Underway action onComplete outcome s) (hposts : s.app.post w = some (post, a)) :
    Underway action onComplete outcome { s with app := a, queue := s.queue ++ [⟨post, time⟩] } := by
  have hqueue (hpost : post.isCompletion = false) :
      ∀ p ∈ s.queue ++ [⟨post, time⟩], p ∈ s.queue ∨ p.post.isCompletion = false := by
    intro p hp
    rcases List.mem_append.1 hp with hold | hnew
    · exact .inl hold
    · rw [List.mem_singleton.1 hnew]
      exact .inr hpost
  cases posts_of_post hposts with
  | poll containers images fetched => exact h.congr rfl (hqueue rfl)
  | refresh containers images fetched => exact h.congr rfl (hqueue rfl)
  | stopped k success message containers images fetched =>
    have hfetch : s.app.fetch (.action k) = some (.images containers images) := by
      simp only [TuxDockApp.fetch, fetched]
    rw [h.fetch_action] at hfetch
    cases hfetch
  | complete k message onComplete' ended =>
    cases h with
    | running threads quiet =>
      rw [threads, List.getElem?_singleton] at ended
      obtain ⟨-, hthread⟩ := Option.ite_none_right_eq_some.1 ended
      cases hthread
    | ended threads quiet =>
      rw [threads, List.getElem?_singleton] at ended
      obtain ⟨rfl, hthread⟩ := Option.ite_none_right_eq_some.1 ended
      cases hthread
      refine .posted (by simp only [threads, List.eraseIdx_cons_zero]) ?_
      intro p hp hcompletion
      rcases List.mem_append.1 hp with hold | hnew
      · rw [quiet p hold] at hcompletion
        cases hcompletion
      · rw [List.mem_singleton.1 hnew]
    | posted threads only =>
      rw [threads, List.getElem?_nil] at ended
      cases ended

/-- **A step of a busy dialog**: its operation stays under way, and the dialog busy, or the
completion of the operation is applied. -/
theorem Underway.advance (h : Underway action onComplete outcome s)
    (hmode : s.app.modalMode = .busy) (hanswer : ∀ k outcome', label = .act k outcome' →
      outcome' = outcome) (hadvance : App.advance L env s label = some t) :
    (Underway action onComplete outcome t ∧ t.app.modalMode = .busy) ∨
      t.app = (Post.complete (action.result outcome) onComplete).run s.app := by
  have hbusy (hevent : ∀ event o, label ≠ .event event o) (hdeliver : label ≠ .deliver) :
      t.app.modalMode = .busy := by
    have hdialog := (works_of_advance hadvance hevent hdeliver).dialog
    exact (congrArg Dialog.mode hdialog).trans hmode
  cases advance_cases hadvance with
  | event event o a handled =>
    obtain rfl := onEvent_busy hmode handled
    exact .inl ⟨h, hmode⟩
  | halt event o halt handled ends =>
    simp only [TuxDockApp.onEvent, hmode] at handled
    cases handled
  | deliver p queue next =>
    cases hp : p.post.isCompletion with
    | true =>
      refine .inr ?_
      cases h with
      | running threads quiet | ended threads quiet =>
        rw [quiet p (by simp [next])] at hp
        cases hp
      | posted threads only => rw [only p (by simp [next]) hp]
    | false =>
      have hdialog := dialog_run p.post s.app
      rw [if_neg (by simp [hp])] at hdialog
      refine .inl ⟨h.congr (actionThreads_run p.post s.app) ?_, ?_⟩
      · intro q hq
        exact .inl (by rw [next]; exact List.mem_cons_of_mem p hq)
      · exact (congrArg Dialog.mode hdialog).trans hmode
  | wake waits => exact .inl ⟨h.congr rfl fun p hp => .inl hp, hmode⟩
  | act k outcome' old new runs acts =>
    obtain rfl := hanswer k outcome' rfl
    exact .inl ⟨h.act runs acts, hmode⟩
  | fetchContainers w result starts => exact .inl ⟨h.setFetch starts, hbusy (by simp) (by simp)⟩
  | fetchImages w result containers fetched =>
    exact .inl ⟨h.setFetch fetched, hbusy (by simp) (by simp)⟩
  | post w post a posts => exact .inl ⟨h.post posts, hbusy (by simp) (by simp)⟩

theorem mode_complete (message : Bytes) (onComplete : Option OnComplete) (a : TuxDockApp) :
    ((Post.complete message onComplete).run a).modalMode = .message :=
  congrArg Dialog.mode (dialog_run (.complete message onComplete) a)

theorem Underway.exec {labels : List Label} (h : Underway action onComplete outcome s)
    (hbusy : Always (App.step L env) (fun s => s.app.modalMode = .busy) s labels)
    (hanswer : ∀ k outcome', .act k outcome' ∈ labels → outcome' = outcome)
    (hrun : Transition.exec (App.step L env) s labels = some t) :
    Underway action onComplete outcome t ∧ t.app.modalMode = .busy := by
  induction labels generalizing s with
  | nil =>
    cases hrun
    exact ⟨h, hbusy⟩
  | cons label labels ih =>
    obtain ⟨u, hu, hrest⟩ := exec_cons_eq_some.1 hrun
    have hnext := hbusy.2 u hu
    have hmode : u.app.modalMode = .busy := by
      cases labels with
      | nil => exact hnext
      | cons _ _ => exact hnext.1
    have hanswer' : ∀ k outcome', .act k outcome' ∈ labels → outcome' = outcome := by
      intro k outcome' hmem
      exact hanswer k outcome' (List.mem_cons_of_mem _ hmem)
    refine ih ?_ hnext hanswer' hrest
    obtain ⟨-, u', hu', rfl⟩ := advance_of_step hu
    have hlabel : ∀ k outcome', label = .act k outcome' → outcome' = outcome := by
      rintro k outcome' rfl
      exact hanswer k outcome' List.mem_cons_self
    rcases h.advance hbusy.1 hlabel hu' with ⟨hunderway, -⟩ | happlied
    · exact hunderway.congr rfl fun p hp => .inl hp
    · rw [happlied, mode_complete] at hmode
      cases hmode

theorem underway_confirm {u : System} {o : Outside} (hone : OneOperation s)
    (hmode : s.app.modalMode = .input) (hprompt : s.app.inputCallback = some .commandWithOutput)
    (hconfirm : App.step L env s (.event .ret o) = some u) :
    Underway (.execCommandWithOutput s.app.modalInput) (some .commandWithOutput) outcome u := by
  obtain ⟨-, u', hu', rfl⟩ := advance_of_step hconfirm
  obtain ⟨hthreads, hquiet⟩ := hone.quiet (by simp [hmode])
  simp only [App.advance, TuxDockApp.onEvent, hmode, TuxDockApp.onInputEvent,
    TuxDockApp.resolveInput, hprompt, InputCallback.run, Bool.true_eq_false, ↓reduceIte] at hu'
  cases hu'
  refine .running ?_ hquiet
  simp only [TuxDockApp.beginBusyOperation, TuxDockApp.beginOperation, hthreads, List.nil_append]

/-! ### The title -/

/-- The beginnings from which a failure is told. -/
def TellsFailure (text : Bytes) : Prop :=
  lit "Command exited with code" <+: text ∨ lit "Command terminated by signal" <+: text

/-- There is a command, and if its process has ended well, its output does not tell a failure. -/
def ToldApart (command : Bytes) (result : ProcessResult) : Prop :=
  command ≠ [] ∧
    (result.ok = true → ¬ TellsFailure (joined result.stdoutText result.stderrText))

theorem find_eq_zero_iff (text pat : Bytes) : find text pat 0 = some 0 ↔ pat <+: text := by
  rw [find_zero, Search.indexOf_eq_some_iff, List.drop_zero]
  exact and_iff_left fun j hj => absurd hj (Nat.not_lt_zero j)

theorem title_complete (text : Bytes) (a : TuxDockApp) :
    ((Post.complete text (some .commandWithOutput)).run a).modalTitle = lit "Command failed" ↔
      TellsFailure text := by
  simp only [Post.run, OnComplete.run, TuxDockApp.openListMessage, find_eq_zero_iff]
  rw [TellsFailure]
  split_ifs with h
  · exact iff_of_true rfl h
  · exact iff_of_false (by decide) h

theorem tellsFailure_signal (rest : Bytes) :
    TellsFailure (lit "Command terminated by signal " ++ rest) := by
  have hlit : lit "Command terminated by signal " =
      lit "Command terminated by signal" ++ [32] := rfl
  rw [hlit, List.append_assoc]
  exact .inr (List.prefix_append _ _)

theorem tellsFailure_exit (rest : Bytes) :
    TellsFailure (lit "Command exited with code " ++ rest) := by
  have hlit : lit "Command exited with code " = lit "Command exited with code" ++ [32] := rfl
  rw [hlit, List.append_assoc]
  exact .inl (List.prefix_append _ _)

/-- **What the thread hands on** tells a failure if and only if the call has failed, exactly when
the two can be told apart. -/
theorem title_iff (run : List Bytes → ProcessOptions → ProcessResult) (id command : Bytes) :
    (TellsFailure ((Operation.execCommandWithOutput command).result
        (execCommandWithOutput run id command)) ↔
      (execCommandWithOutput run id command).success = false) ↔
    ToldApart command (run (execArgs id command) captureBoth) := by
  generalize hr : run (execArgs id command) captureBoth = r
  simp only [execCommandWithOutput, hr, ToldApart]
  by_cases hcommand : command = []
  · -- no command was there to fail
    simp only [hcommand, ↓reduceIte, Operation.result, ne_eq, not_true_eq_false, false_and,
      iff_false]
    intro h
    exact absurd (h.2 trivial) (by unfold TellsFailure; decide)
  rw [if_neg hcommand, and_iff_right hcommand]
  by_cases hsignaled : r.signaled = true
  · have hok : r.ok = false := by simp [ProcessResult.ok, hsignaled]
    simp only [hsignaled, hok, ↓reduceIte, Operation.result, Bool.false_eq_true, List.append_assoc,
      tellsFailure_signal, false_imp_iff]
  · by_cases hexit : r.exitCode = 0
    · have hok : r.ok = true := by simp [ProcessResult.ok, hsignaled, hexit]
      simp only [hsignaled, hexit, hok, ↓reduceIte, Operation.result, Bool.false_eq_true, ne_eq,
        not_true_eq_false, iff_false, forall_const, Bool.true_eq_false]
    · have hok : r.ok = false := by simp [ProcessResult.ok, hexit]
      simp only [hsignaled, hexit, hok, ↓reduceIte, Operation.result, Bool.false_eq_true, ne_eq,
        not_false_eq_true, List.append_assoc, tellsFailure_exit, false_imp_iff]

/-- **The title of the output.**  For every run of the application up to a prompt for a command,
every command that is then confirmed, every result of its process and every way the threads go on
while the dialog is busy: the dialog that opens is titled as a failure if and only if the call has
failed, exactly when there is a command and, if its process has ended well, its output does not
begin as a failure is told. -/
theorem output_iff (L : Json.Library) (env : Env) (historyFile : Option Bytes)
    (containers : ListResult ContainerInfo) (images : ListResult ImageInfo)
    (run : List Bytes → ProcessOptions → ProcessResult) (before during : List Label) (last : Label)
    (o : Outside) (s u t v : System) (id command : Bytes)
    (hbefore : exec (step L env) (boot historyFile containers images) before = some s)
    (hmode : s.app.modalMode = .input) (hprompt : s.app.inputCallback = some .commandWithOutput)
    (hcommand : s.app.modalInput = command) (hid : s.app.historyContainerId = id)
    (hconfirm : step L env s (.event .ret o) = some u)
    (hduring : exec (step L env) u during = some t)
    (hbusy : Always (step L env) (fun s => s.app.modalMode = .busy) u during)
    (hanswer : ∀ k outcome, .act k outcome ∈ during →
      outcome = execCommandWithOutput run id command)
    (hlast : step L env t last = some v) (hends : v.app.modalMode ≠ .busy) :
    v.app.modalMode = .message ∧
      ((v.app.modalTitle = lit "Command failed" ↔
        (execCommandWithOutput run id command).success = false) ↔
      ToldApart command (run (execArgs id command) captureBoth)) := by
  subst hcommand hid
  have hone := (reaches_of_exec hbefore).one
  obtain ⟨hunderway, hbusy'⟩ :=
    (underway_confirm hone hmode hprompt hconfirm).exec hbusy hanswer hduring
  obtain ⟨-, v', hv', rfl⟩ := advance_of_step hlast
  -- a thread that runs its operation does not end the dialog
  have hlabel : ∀ k outcome', last = .act k outcome' →
      outcome' = execCommandWithOutput run s.app.historyContainerId s.app.modalInput := by
    rintro k outcome' rfl
    have hdialog := (works_of_advance hv' nofun nofun).dialog
    exact absurd ((congrArg Dialog.mode hdialog).trans hbusy') hends
  rcases hunderway.advance hbusy' hlabel hv' with ⟨-, hstill⟩ | happlied
  · exact absurd hstill hends
  · rw [← title_iff, happlied, mode_complete, title_complete]
    exact ⟨rfl, Iff.rfl⟩

/-! ### Three commands -/

/-- The application with a container to run commands in. -/
def withContainer : System := boot none ⟨[sample "a" "first"], []⟩ ⟨[], []⟩

/-- The command is typed into its prompt. -/
def typed (command : Bytes) : List Label :=
  [.event .other { still with index := 10 }, .event .ret still, .event .ret still,
    .event .other { still with text := command }]

/-- A process that writes this and ends well. -/
def writes (text : Bytes) (_ : List Bytes) (_ : ProcessOptions) : ProcessResult :=
  ⟨0, false, 0, text, []⟩

/-- The thread calls the manager and posts. -/
def answered (text command : Bytes) : List Label :=
  [.act 0 (execCommandWithOutput (writes text) (lit "a") command), .post (.action 0)]

/-- The dialog in which the output of a command is shown that writes this and ends well. -/
def shown (text command : Bytes) : TuxDockApp :=
  (after withContainer
    (typed command ++ .event .ret still :: (answered text command ++ [.deliver]))).app

theorem output_iff_listed :
    (shown (lit "a.txt") (lit "ls")).modalTitle = lit "Command failed" ↔
      (execCommandWithOutput (writes (lit "a.txt")) (lit "a") (lit "ls")).success = false := by
  have hplain : ToldApart (lit "ls")
      (writes (lit "a.txt") (execArgs (lit "a") (lit "ls")) captureBoth) := by
    unfold ToldApart TellsFailure
    decide
  refine (output_iff layoutLibrary goodEnv none ⟨[sample "a" "first"], []⟩ ⟨[], []⟩
    (writes (lit "a.txt")) (typed (lit "ls")) (answered (lit "a.txt") (lit "ls")) .deliver still
    (after withContainer (typed (lit "ls")))
    (after withContainer (typed (lit "ls") ++ [.event .ret still]))
    (after withContainer
      (typed (lit "ls") ++ .event .ret still :: answered (lit "a.txt") (lit "ls")))
    (after withContainer
      (typed (lit "ls") ++ .event .ret still :: (answered (lit "a.txt") (lit "ls") ++ [.deliver])))
    (lit "a") (lit "ls") ?_ ?_ ?_ ?_ ?_ ?_ ?_ ?_ ?_ ?_ ?_).2.2 hplain
  case refine_9 =>
    intro k outcome hmem
    obtain ⟨-, houtcome⟩ : k = 0 ∧ outcome = _ := by simpa [answered] using hmem
    exact houtcome
  all_goals decide +kernel

/-- **Two commands with the wrong title**: one that prints a log that tells a failure, and none. -/
theorem output_mistitled :
    ((shown (lit "Command exited with code 3") (lit "cat log")).modalTitle = lit "Command failed" ∧
      (execCommandWithOutput (writes (lit "Command exited with code 3")) (lit "a")
        (lit "cat log")).success = true) ∧
    (shown [] []).modalTitle = lit "Command output" ∧
      (execCommandWithOutput (writes []) (lit "a") []).success = false := by
  decide +kernel

end App

end TuxDock
