import TuxDock.App.Select

/-!
# The ports of a new container

`PromptPortCountAndRun` asks how many port mappings the container is to have, and `PromptNextPort`
for one after the other; then the container is created.

* `isDigits_iff`, `isValidPortMapping_iff` : the strings that the prompts accept;
* `WizardOutcome` : what a sequence of confirmed strings is to come to: the prompts stop at the
  first string they reject, the container is created with the mappings in the order of entry, or
  there are not yet as many as were asked for;
* `runWizard_iff` : **it comes to that exactly when a count of digits alone is an `int`**.
-/

namespace TuxDock

namespace App

open Text Search History

/-! ### The strings -/

/-- A number as it is typed: digits alone. -/
def IsNumber (value : Bytes) : Prop := value ≠ [] ∧ ∀ c ∈ value, isDigit 10 c = true

/-- A host port and a container port with a colon between them. -/
def IsMapping (value : Bytes) : Prop :=
  ∃ host container, IsNumber host ∧ IsNumber container ∧ value = host ++ 58 :: container

theorem isDigits_iff {value : Bytes} : isDigits value = true ↔ IsNumber value := by
  simp [isDigits, IsNumber]

theorem IsNumber.colon_notMem {value : Bytes} (h : IsNumber value) : (58 : UInt8) ∉ value := by
  intro hmem
  exact absurd (h.2 58 hmem) (by decide)

theorem find_colon {host : Bytes} (h : (58 : UInt8) ∉ host) (container : Bytes) :
    find (host ++ 58 :: container) (lit ":") 0 = some host.length := by
  rw [find_zero]
  exact indexOf_first h container

theorem isValidPortMapping_iff {value : Bytes} :
    isValidPortMapping value = true ↔ IsMapping value := by
  constructor
  · intro h
    unfold isValidPortMapping at h
    split at h
    · cases h
    · rename_i separator hfind
      rw [find_zero] at hfind
      rw [Bool.and_eq_true, isDigits_iff, isDigits_iff] at h
      exact ⟨_, _, h.1, h.2, eq_append_of_indexOf hfind⟩
  · rintro ⟨host, container, hhost, hcontainer, rfl⟩
    simp only [isValidPortMapping, find_colon hhost.colon_notMem]
    rw [List.take_left, Bool.and_eq_true, isDigits_iff, isDigits_iff]
    refine ⟨hhost, ?_⟩
    simpa using hcontainer

theorem stoi_of_isNumber {value : Bytes} (h : IsNumber value) :
    stoi value = if numeral 10 value < 2 ^ 31 then some (numeral 10 value : ℤ) else none := by
  have hdigits : DigitsThen 10 value [] := ⟨h.2, h.1, by simp⟩
  have hread := hdigits.stoi_ite
  rwa [List.append_nil] at hread

/-! ### The prompts -/

/-- One of the two prompts for ports is open. -/
def TuxDockApp.asksPorts (a : TuxDockApp) : Bool :=
  a.modalMode = .input &&
    match a.inputCallback with
    | some (.portCount _) | some (.portMapping _ _) => true
    | _ => false

section

variable (L : Json.Library) (env : Env)

/-- A string is typed into the prompt, and Return confirms it. -/
def enter (value : Bytes) (o : Outside) (a : TuxDockApp) : Except Halt TuxDockApp := do
  let typed ← a.onEvent L env .other { o with text := value }
  typed.onEvent L env .ret o

/-- The strings are confirmed one after the other, as long as the prompts ask for one. -/
def runWizard : List (Bytes × Outside) → TuxDockApp → Except Halt TuxDockApp
  | [], a => .ok a
  | (value, o) :: rest, a =>
    if a.asksPorts then do
      let b ← enter L env value o a
      runWizard rest b
    else .ok a

end

/-! ### What the strings come to -/

/-- The prompts have stopped with a message; no operation is begun. -/
structure Stopped (threads : List ActionThread) (message : Bytes) (b : TuxDockApp) : Prop where
  mode : b.modalMode = .none
  status : b.status = message
  callback : b.inputCallback = none
  threads : b.actionThreads = threads

/-- The container is created. -/
structure Created (threads : List ActionThread) (name image : Bytes) (ports : List Bytes)
    (b : TuxDockApp) : Prop where
  mode : b.modalMode = .busy
  threads : b.actionThreads = threads ++ [.busy (.createContainer name image ports) none]

/-- The next mapping is asked for; no operation is begun. -/
structure Asking (threads : List ActionThread) (name image : Bytes) (n : ℕ) (ports : List Bytes)
    (b : TuxDockApp) : Prop where
  mode : b.modalMode = .input
  callback : b.inputCallback = some (.portMapping ⟨name, image, n, ports⟩ ports.length)
  threads : b.actionThreads = threads

/-- What the strings entered for `n` mappings come to. -/
inductive PortsOutcome (threads : List ActionThread) (name image : Bytes) (n : ℕ)
    (mappings : List Bytes) (b : TuxDockApp) : Prop where
  | stopped (read : List Bytes) (rejected : Bytes) (rest : List Bytes)
      (entered : mappings = read ++ rejected :: rest) (asked : read.length < n)
      (accepts : ∀ m ∈ read, IsMapping m) (rejects : ¬ IsMapping rejected)
      (stopped : Stopped threads (lit "Use host:container format.") b)
  | created (ports rest : List Bytes) (entered : mappings = ports ++ rest)
      (asked : ports.length = n) (accepts : ∀ m ∈ ports, IsMapping m)
      (created : Created threads name image ports b)
  | asking (asked : mappings.length < n) (accepts : ∀ m ∈ mappings, IsMapping m)
      (asking : Asking threads name image n mappings b)

/-- What the strings entered at the two prompts come to. -/
inductive WizardOutcome (threads : List ActionThread) (name image count : Bytes)
    (mappings : List Bytes) (b : TuxDockApp) : Prop where
  | stopped (rejects : ¬ IsNumber count)
      (stopped : Stopped threads (lit "Please enter a valid number.") b)
  | counted (accepts : IsNumber count)
      (ports : PortsOutcome threads name image (numeral 10 count) mappings b)

/-! ### One string -/

variable {L : Json.Library} {env : Env} {a b : TuxDockApp} {n : ℕ}

theorem enter_eq {callback : InputCallback} (hmode : a.modalMode = .input)
    (hcallback : a.inputCallback = some callback) (value : Bytes) (o : Outside) :
    enter L env value o a = callback.run L env o true value
      { a with modalInput := value, modalMode := .none, inputCallback := none } := by
  have htyped : a.onEvent L env .other { o with text := value } =
      .ok { a with modalInput := value } := by
    simp only [TuxDockApp.onEvent, hmode, TuxDockApp.onInputEvent]
  have hret : ({ a with modalInput := value } : TuxDockApp).onEvent L env .ret o =
      callback.run L env o true value
        { a with modalInput := value, modalMode := .none, inputCallback := none } := by
    simp only [TuxDockApp.onEvent, hmode, TuxDockApp.onInputEvent, TuxDockApp.resolveInput,
      hcallback]
  rw [enter, htyped]
  exact hret

/-- Strings that nobody asks for are not read. -/
theorem runWizard_of_not_asksPorts (h : a.asksPorts = false) (entries : List (Bytes × Outside)) :
    runWizard L env entries a = .ok a := by
  cases entries with
  | nil => rfl
  | cons entry rest => simp only [runWizard, h, Bool.false_eq_true, ↓reduceIte]

theorem runWizard_cons {callback : InputCallback} (hasks : a.asksPorts = true)
    (hcallback : a.inputCallback = some callback) (value : Bytes) (o : Outside)
    (rest : List (Bytes × Outside)) :
    runWizard L env ((value, o) :: rest) a =
      (callback.run L env o true value
        { a with modalInput := value, modalMode := .none, inputCallback := none }).bind
        (runWizard L env rest) := by
  have hmode : a.modalMode = .input := by
    rw [TuxDockApp.asksPorts, Bool.and_eq_true] at hasks
    exact of_decide_eq_true hasks.1
  rw [runWizard, if_pos hasks, enter_eq hmode hcallback]
  rfl

/-! ### The mappings -/

theorem promptNextPort_done (name image : Bytes) {ports : List Bytes} (hlen : ports.length = n)
    (a : TuxDockApp) :
    Created a.actionThreads name image ports
      (a.promptNextPort ⟨name, image, n, ports⟩ ports.length) := by
  rw [TuxDockApp.promptNextPort, if_pos (by simp [hlen])]
  exact ⟨rfl, rfl⟩

theorem promptNextPort_more (name image : Bytes) {ports : List Bytes} (hlen : ports.length < n)
    (a : TuxDockApp) :
    Asking a.actionThreads name image n ports
      (a.promptNextPort ⟨name, image, n, ports⟩ ports.length) := by
  rw [TuxDockApp.promptNextPort, if_neg (by simpa using hlen)]
  exact ⟨rfl, rfl, rfl⟩

theorem Asking.asksPorts {threads : List ActionThread} {name image : Bytes} {ports : List Bytes}
    (h : Asking threads name image n ports a) : a.asksPorts = true := by
  simp [TuxDockApp.asksPorts, h.mode, h.callback]

/-- Nothing is read once all mappings are there. -/
theorem exists_runWizard_done (L : Json.Library) (env : Env) (name image : Bytes)
    (entries : List (Bytes × Outside)) {ports : List Bytes} (hlen : ports.length = n)
    (hports : ∀ m ∈ ports, IsMapping m) (a : TuxDockApp) :
    ∃ b, runWizard L env entries (a.promptNextPort ⟨name, image, n, ports⟩ ports.length) = .ok b ∧
      PortsOutcome a.actionThreads name image n (ports ++ entries.map Prod.fst) b := by
  have hcreated := promptNextPort_done name image hlen a
  refine ⟨_, runWizard_of_not_asksPorts ?_ entries, ?_⟩
  · simp [TuxDockApp.asksPorts, hcreated.mode]
  · exact .created ports _ rfl hlen hports hcreated

/-- **The prompts for the mappings**, when some have been accepted: by induction on the strings that
are entered next. -/
theorem exists_runWizard_ports (L : Json.Library) (env : Env) (name image : Bytes) (n : ℕ)
    (entries : List (Bytes × Outside)) {ports : List Bytes} (hlen : ports.length ≤ n)
    (hports : ∀ m ∈ ports, IsMapping m) (a : TuxDockApp) :
    ∃ b, runWizard L env entries (a.promptNextPort ⟨name, image, n, ports⟩ ports.length) = .ok b ∧
      PortsOutcome a.actionThreads name image n (ports ++ entries.map Prod.fst) b := by
  induction entries generalizing ports a with
  | nil =>
    rcases hlen.eq_or_lt with hdone | hmore
    · exact exists_runWizard_done L env name image [] hdone hports a
    · refine ⟨_, rfl, ?_⟩
      rw [List.map_nil, List.append_nil]
      exact .asking hmore hports (promptNextPort_more name image hmore a)
  | cons entry rest ih =>
    rcases hlen.eq_or_lt with hdone | hmore
    · exact exists_runWizard_done L env name image _ hdone hports a
    obtain ⟨value, o⟩ := entry
    have hasking := promptNextPort_more name image hmore a
    rw [runWizard_cons hasking.asksPorts hasking.callback]
    by_cases hvalid : IsMapping value
    · -- the mapping is added, and the next prompt opened
      have hports' : ∀ m ∈ ports ++ [value], IsMapping m := by
        simpa [or_imp, forall_and] using ⟨hports, hvalid⟩
      obtain ⟨b, hb, houtcome⟩ := ih (by rw [List.length_append]; exact hmore) hports'
        { a.promptNextPort ⟨name, image, n, ports⟩ ports.length with
          modalInput := value, modalMode := .none, inputCallback := none }
      rw [List.length_append, List.length_singleton, Nat.cast_add_one] at hb
      refine ⟨b, ?_, ?_⟩
      · simp only [InputCallback.run, isValidPortMapping_iff.2 hvalid, Bool.true_eq_false,
          ↓reduceIte]
        exact hb
      · rw [hasking.threads] at houtcome
        rwa [List.map_cons, List.append_cons]
    · have hinvalid : isValidPortMapping value = false := by
        rw [Bool.eq_false_iff]
        exact mt isValidPortMapping_iff.1 hvalid
      simp only [InputCallback.run, hinvalid, Bool.true_eq_false, ↓reduceIte]
      refine ⟨_, runWizard_of_not_asksPorts ?_ rest, ?_⟩
      · simp [TuxDockApp.asksPorts, TuxDockApp.setStatus]
      · exact .stopped ports value (rest.map Prod.fst) rfl hmore hports hvalid
          ⟨rfl, rfl, rfl, hasking.threads⟩

/-! ### The whole dialog -/

/-- **The strings entered for the ports of a new container.**  For every string entered as the count
and all strings entered after it: no exception is thrown, and the prompts stop with a message at the
first string that they reject, or create the container with as many mappings as the count says, in
the order of entry, or ask for the next one; exactly when the count, if it is of digits alone, is
less than `2^31`. -/
theorem runWizard_iff (L : Json.Library) (env : Env) (a : TuxDockApp) (name image count : Bytes)
    (o : Outside) (mappings : List (Bytes × Outside)) :
    (∃ b, runWizard L env ((count, o) :: mappings)
        (a.promptPortCountAndRun ⟨name, image, 0, []⟩) = .ok b ∧
      WizardOutcome a.actionThreads name image count (mappings.map Prod.fst) b) ↔
      (IsNumber count → numeral 10 count < 2 ^ 31) := by
  rw [runWizard_cons rfl rfl]
  by_cases hcount : IsNumber count
  · rw [imp_iff_right hcount]
    simp only [InputCallback.run, isDigits_iff.2 hcount, Bool.true_eq_false, ↓reduceIte,
      stoi_of_isNumber hcount]
    split_ifs with hlt
    · refine iff_of_true ?_ hlt
      obtain ⟨b, hb, hports⟩ := exists_runWizard_ports L env name image (numeral 10 count) mappings
        (Nat.zero_le _) (List.forall_mem_nil _)
        { a.promptPortCountAndRun ⟨name, image, 0, []⟩ with
          modalInput := count, modalMode := .none, inputCallback := none }
      exact ⟨b, hb, .counted hcount hports⟩
    · refine iff_of_false ?_ hlt
      rintro ⟨b, hb, -⟩
      cases hb
  · refine iff_of_true ?_ fun h => absurd h hcount
    have hnot : isDigits count = false := by
      rw [Bool.eq_false_iff]
      exact mt isDigits_iff.1 hcount
    simp only [InputCallback.run, hnot, Bool.true_eq_false, ↓reduceIte]
    refine ⟨_, runWizard_of_not_asksPorts ?_ mappings, ?_⟩
    · simp [TuxDockApp.asksPorts, TuxDockApp.setStatus]
    · exact .stopped hcount ⟨rfl, rfl, rfl, rfl⟩

/-- A count of eleven digits ends the program. -/
theorem runWizard_throws :
    isDigits (lit "99999999999") = true ∧
      runWizard layoutLibrary goodEnv [(lit "99999999999", still)]
        ((TuxDockApp.initial none).promptPortCountAndRun ⟨lit "web", lit "nginx", 0, []⟩) =
          .error .exception := by
  have hthrows : stoi (lit "99999999999") = none := by decide +kernel
  refine ⟨by decide +kernel, ?_⟩
  rw [runWizard_cons rfl rfl]
  simp only [InputCallback.run, hthrows]
  rfl

end App

end TuxDock
