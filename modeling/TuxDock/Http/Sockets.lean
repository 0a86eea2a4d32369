import Mathlib.Data.List.Nodup
import Mathlib.Logic.Function.Basic
import TuxDock.Http.Client
import TuxDock.Lib.Transition

/-!
# Concurrent calls

The poller, the refresh thread and the threads of operations call `DockerEngineClient::request` at
the same time.  A call opens a socket, and another one after each read that is interrupted; all
calls share the table of descriptors with each other and with the rest of the program, and a number
that was closed is given out again.

A system call is answered by what its number stands for at that time.  What each socket has answered
is kept, so that it can be told whether a call was served by its own sockets.

* `step` : any number of calls, one system call at a time, in any order;
* `Label.keeps` : the rest of the program closes no socket of a call (a double close of one of its
  own numbers can, `closedTwice_misused`);
* `Serves` : what the answers of the current socket and the place of the call have to do with each
  other;
* `calls_isolated` : **in a run that meets this condition, a call returns what `request` makes of
  the answers of its own sockets**, whatever the others do; no number is used that is not its own,
  and no socket is left open.
-/

namespace TuxDock

namespace Http

namespace Sockets

open Text Transition

/-- What a call sends. -/
structure Args where
  method : Bytes
  path : Bytes
  body : Bytes
  deriving DecidableEq

/-- The bytes of its request. -/
def Args.wire (a : Args) : Bytes := wireRequest a.method a.path a.body

/-! ### One call -/

/-- What follows the closing of the socket: the request is sent once more, or the call returns. -/
inductive After where
  | again
  | response (x : Exchange)
  deriving DecidableEq

/-- Where a call is: the next system call, with the descriptor it is made on and what the loop
holds. -/
inductive Pc where
  | socket
  | connect (fd : ℕ)
  | write (fd left : ℕ)
  | read (fd : ℕ) (raw : Bytes)
  | close (fd : ℕ) (after : After)
  | returned (x : Exchange)
  deriving DecidableEq

/-- The descriptor that the call holds. -/
def Pc.fd : Pc → Option ℕ
  | connect fd => some fd
  | write fd _ => some fd
  | read fd _ => some fd
  | close fd _ => some fd
  | _ => none

/-- The answer of a system call on the socket. -/
inductive Answer where
  | connect (r : Except Errno Unit)
  | write (r : Except Errno ℕ)
  | read (r : Except Errno Bytes)

section Call

variable (strerror : Errno → Bytes) (socketPath : Bytes) (a : Args)

/-- The call returns the text of the error. -/
def failed (e : Errno) : After := .response (.response { error := strerror e })

/-- The condition of the read loop. -/
def reading (fd : ℕ) (raw : Bytes) : Pc :=
  if httpResponseComplete raw a.method then .close fd (.response (parsed raw)) else .read fd raw

/-- After `socket`. -/
def connecting (fd : ℕ) : Pc :=
  if 108 ≤ socketPath.length then
    .close fd (.response (.response { error := lit "Docker socket path is too long." }))
  else .connect fd

/-- `close` is called before `errno` is read, and leaves it as it is. -/
def afterRead (fd : ℕ) (raw : Bytes) : Except Errno Bytes → Pc
  | .error .EINTR => .close fd .again
  | .error .EAGAIN =>
    .close fd (.response (if httpResponseComplete raw a.method then parsed raw
      else .response { error := lit "Docker Engine response timed out." }))
  | .error (.other code) => .close fd (failed strerror (.other code))
  | .ok [] => .close fd (.response (parsed raw))
  | .ok (b :: bs) => reading a fd (raw ++ b :: bs)

/-- After a system call on the socket; `none` if this is not the next one. -/
def Pc.next : Pc → Answer → Option Pc
  | connect fd, .connect (.error e) => some (.close fd (failed strerror e))
  | connect fd, .connect (.ok ()) => some (.write fd a.wire.length)
  | write fd _, .write (.error e) => some (.close fd (failed strerror e))
  | write fd _, .write (.ok 0) => some (.close fd (failed strerror (.other 0)))
  | write fd left, .write (.ok (count + 1)) =>
    if count < left then
      some (if count + 1 = left then reading a fd [] else .write fd (left - (count + 1)))
    else none
  | read fd raw, .read r => some (afterRead strerror a fd raw r)
  | _, _ => none

end Call

/-! ### All calls -/

/-- What a descriptor stands for: the socket of this number, or something of the rest of the
program. -/
inductive Slot where
  | socket (n : ℕ)
  | other
  deriving DecidableEq

/-- The calls and the table of descriptors.  The sockets are numbered in the order they are made
in; `answers` is what each has answered, `opened` those that a call has made, and `misused` the
descriptors that a call has used when they were no sockets. -/
structure State (ι : Type*) where
  pc : ι → Pc
  table : ℕ → Option Slot
  answers : ℕ → Connection
  count : ℕ
  opened : ι → List ℕ
  misused : List ℕ

/-- What happens next. -/
inductive Label (ι : Type*) where
  /-- The system answers `socket`. -/
  | socket (i : ι) (r : Except Errno ℕ)
  /-- The system answers a call on the socket. -/
  | use (i : ι) (answer : Answer)
  /-- The socket is closed. -/
  | close (i : ι)
  /-- The rest of the program opens a descriptor. -/
  | opened (fd : ℕ)
  /-- The rest of the program closes a number, whatever it stands for. -/
  | released (fd : ℕ)

/-- The answers of a socket with one more. -/
def record (c : Connection) : Answer → Connection
  | .connect r => { c with connect := r }
  | .write r => { c with writes := c.writes ++ [r] }
  | .read r => { c with reads := c.reads ++ [r] }

variable {ι : Type*}

/-- The calls before anything is done; `open_` are the descriptors of the rest of the program. -/
def start (open_ : ℕ → Bool) : State ι where
  pc := fun _ => .socket
  table := fun fd => if open_ fd then some .other else none
  answers := fun _ => ⟨.ok (), .ok (), [], []⟩
  count := 0
  opened := fun _ => []
  misused := []

namespace State

variable (s : State ι)

/-- The answers of the sockets of a call, in the order they were made in. -/
def connections (i : ι) : List Connection := (s.opened i).map s.answers

/-- A system call on `fd`. -/
def answered (fd : ℕ) (answer : Answer) : State ι :=
  match s.table fd with
  | some (.socket n) =>
    { s with answers := Function.update s.answers n (record (s.answers n) answer) }
  | _ => { s with misused := s.misused ++ [fd] }

/-- The descriptor is closed, which is a misuse if it is that of no socket. -/
def closed (fd : ℕ) : State ι :=
  match s.table fd with
  | some (.socket _) => { s with table := Function.update s.table fd none }
  | _ => { s with table := Function.update s.table fd none, misused := s.misused ++ [fd] }

section Calls

variable [DecidableEq ι]

/-- The call goes on there. -/
def goTo (i : ι) (pc : Pc) : State ι := { s with pc := Function.update s.pc i pc }

/-- A socket is made, or cannot be. -/
def made (i : ι) (r : Except Errno Unit) : State ι :=
  { s with
    answers := Function.update s.answers s.count ⟨r, .ok (), [], []⟩
    count := s.count + 1
    opened := Function.update s.opened i (s.opened i ++ [s.count]) }

end Calls

end State

variable (strerror : Errno → Bytes) (socketPath : Bytes) (args : ι → Args)

/-- A step of a call or of the rest of the program. -/
def step [DecidableEq ι] (s : State ι) : Label ι → Option (State ι)
  | .socket i (.error e) =>
    if s.pc i = .socket then
      some ((s.made i (.error e)).goTo i (.returned (.response { error := strerror e })))
    else none
  | .socket i (.ok fd) =>
    if s.pc i = .socket ∧ s.table fd = none then
      some { (s.made i (.ok ())).goTo i (connecting socketPath fd) with
        table := Function.update s.table fd (some (.socket s.count)) }
    else none
  | .use i answer =>
    match (s.pc i).fd, (s.pc i).next strerror (args i) answer with
    | some fd, some pc => some ((s.answered fd answer).goTo i pc)
    | _, _ => none
  | .close i =>
    match s.pc i with
    | .close fd .again => some ((s.closed fd).goTo i .socket)
    | .close fd (.response x) => some ((s.closed fd).goTo i (.returned x))
    | _ => none
  | .opened fd =>
    if s.table fd = none then
      some { s with table := Function.update s.table fd (some .other) }
    else none
  | .released fd => some { s with table := Function.update s.table fd none }

/-- The number stands for the socket of a call. -/
def State.isSocket (s : State ι) (fd : ℕ) : Bool :=
  match s.table fd with
  | some (.socket _) => true
  | _ => false

/-- The rest of the program closes no socket of a call. -/
def Label.keeps (s : State ι) : Label ι → Bool
  | .released fd => !s.isSocket fd
  | _ => true

/-! ### The answers of the current socket -/

/-- What the socket of a call has answered when the call is at `pc`: the loops have got this far,
and a call that is about to close the socket has got all it needs from it. -/
def Serves (a : Args) : Pc → Connection → Prop
  | .connect _, c => socketPath.length < 108 ∧ c = ⟨.ok (), .ok (), [], []⟩
  | .write _ left, c => socketPath.length < 108 ∧ 0 < left ∧ ∃ writes,
      c = ⟨.ok (), .ok (), writes, []⟩ ∧
      ∀ later, sendLoop a.wire.length (writes ++ later) = sendLoop left later
  | .read _ raw, c => socketPath.length < 108 ∧ httpResponseComplete raw a.method = false ∧
      ∃ writes reads, c = ⟨.ok (), .ok (), writes, reads⟩ ∧
      sendLoop a.wire.length writes = some (.ok ()) ∧
      ∀ later, readLoop a.method [] (reads ++ later) = readLoop a.method raw later
  | .close _ (.response x), c => ∀ later,
      request strerror socketPath a.method a.path a.body (c :: later) = x
  | .close _ .again, c => ∀ later,
      request strerror socketPath a.method a.path a.body (c :: later) =
        request strerror socketPath a.method a.path a.body later
  | _, _ => False

variable {strerror socketPath args} {a : Args} {s t : State ι}

theorem length_wire_pos (a : Args) : 0 < a.wire.length := by
  simp [Args.wire, wireRequest, lit]

/-- What the end of the read loop comes to. -/
def readEnded (strerror : Errno → Bytes) (socketPath : Bytes) (a : Args)
    (later : List Connection) : Bytes × ReadStop → Exchange
  | (_, .waiting) => .waiting
  | (_, .failed .EINTR) => request strerror socketPath a.method a.path a.body later
  | (_, .failed (.other code)) => .response { error := strerror (.other code) }
  | (raw, .failed .EAGAIN) =>
    if httpResponseComplete raw a.method then parsed raw
    else .response { error := lit "Docker Engine response timed out." }
  | (raw, .complete) => parsed raw
  | (raw, .closed) => parsed raw

/-- A request that has been sent comes to what the read loop makes of it. -/
theorem request_read {writes : List (Except Errno ℕ)} {reads : List (Except Errno Bytes)}
    (hpath : socketPath.length < 108) (hsent : sendLoop a.wire.length writes = some (.ok ()))
    (later : List Connection) :
    request strerror socketPath a.method a.path a.body (⟨.ok (), .ok (), writes, reads⟩ :: later) =
      readEnded strerror socketPath a later (readLoop a.method [] reads) := by
  have hsent : sendLoop (wireRequest a.method a.path a.body).length writes = some (.ok ()) := hsent
  rw [request]
  simp only [hsent, if_neg hpath.not_ge]
  obtain ⟨raw, stop⟩ := readLoop a.method [] reads
  cases stop with
  | failed e => cases e <;> rfl
  | complete | closed | waiting => rfl

theorem Serves.reading {fd : ℕ} {raw : Bytes} {writes : List (Except Errno ℕ)}
    {reads : List (Except Errno Bytes)} (hpath : socketPath.length < 108)
    (hsent : sendLoop a.wire.length writes = some (.ok ()))
    (hread : ∀ later, readLoop a.method [] (reads ++ later) = readLoop a.method raw later) :
    Serves strerror socketPath a (reading a fd raw) ⟨.ok (), .ok (), writes, reads⟩ := by
  unfold Sockets.reading
  split_ifs with hcomplete
  · intro later
    have hloop : readLoop a.method [] reads = (raw, .complete) := by
      have hnil := hread []
      rw [List.append_nil] at hnil
      rw [hnil, readLoop, if_pos hcomplete]
    rw [request_read hpath hsent, hloop, readEnded]
  · exact ⟨hpath, Bool.eq_false_iff.2 hcomplete, writes, reads, rfl, hsent, hread⟩

/-- **A system call on the socket** takes the call and the answers of its socket on together. -/
theorem Serves.next {pc pc' : Pc} {c : Connection} {answer : Answer}
    (h : Serves strerror socketPath a pc c) (hnext : pc.next strerror a answer = some pc') :
    Serves strerror socketPath a pc' (record c answer) := by
  cases pc with
  | socket | close | returned => cases hnext
  | connect fd =>
    obtain ⟨hpath, rfl⟩ := h
    cases answer with
    | write | read => cases hnext
    | connect r =>
      cases r with
      | error e =>
        cases hnext
        intro later
        simp only [record, request, if_neg hpath.not_ge]
      | ok u =>
        cases hnext
        exact ⟨hpath, length_wire_pos a, [], rfl, fun _ => rfl⟩
  | write fd left =>
    obtain ⟨hpath, hleft, writes, rfl, hwrites⟩ := h
    obtain ⟨n, rfl⟩ : ∃ n, left = n + 1 := ⟨left - 1, by omega⟩
    cases answer with
    | connect | read => cases hnext
    | write r =>
      cases r with
      | error e =>
        cases hnext
        intro later
        have hloop : sendLoop (wireRequest a.method a.path a.body).length
            (writes ++ [.error e]) = some (.error e) := hwrites [.error e]
        simp only [record, request, if_neg hpath.not_ge, hloop]
      | ok sent =>
        cases sent with
        | zero =>
          cases hnext
          intro later
          have hloop : sendLoop (wireRequest a.method a.path a.body).length
              (writes ++ [.ok 0]) = some (.error (.other 0)) := hwrites [.ok 0]
          simp only [record, request, if_neg hpath.not_ge, hloop]
        | succ sent =>
          obtain ⟨hle, hpc⟩ := Option.ite_none_right_eq_some.1 hnext
          have hloop (later : List (Except Errno ℕ)) :
              sendLoop a.wire.length (writes ++ [.ok (sent + 1)] ++ later) =
                sendLoop (n + 1 - (sent + 1)) later := by
            rw [List.append_assoc, hwrites, Nat.add_sub_add_right]
            rfl
          cases hpc
          split_ifs with hall
          · refine Serves.reading hpath ?_ fun _ => rfl
            have hzero : n + 1 - (sent + 1) = 0 := by omega
            have hnil := hloop []
            rw [List.append_nil, hzero, sendLoop] at hnil
            exact hnil
          · exact ⟨hpath, by omega, _, rfl, hloop⟩
  | read fd raw =>
    obtain ⟨hpath, hopen, writes, reads, rfl, hsent, hreads⟩ := h
    cases answer with
    | connect | write => cases hnext
    | read r =>
      cases hnext
      have hlast : readLoop a.method [] (reads ++ [r]) = readLoop a.method raw [r] := hreads [r]
      cases r with
      | error e =>
        have hstop : readLoop a.method raw [.error e] = (raw, .failed e) := by
          rw [readLoop, if_neg (Bool.eq_false_iff.1 hopen)]
        cases e with
        | EINTR =>
          intro later
          rw [record, request_read hpath hsent, hlast, hstop, readEnded]
        | EAGAIN =>
          intro later
          rw [record, request_read hpath hsent, hlast, hstop, readEnded]
        | other code =>
          intro later
          rw [record, request_read hpath hsent, hlast, hstop, readEnded]
      | ok bytes =>
        cases bytes with
        | nil =>
          intro later
          have hstop : readLoop a.method raw [.ok []] = (raw, .closed) := by
            rw [readLoop, if_neg (Bool.eq_false_iff.1 hopen)]
          rw [record, request_read hpath hsent, hlast, hstop, readEnded]
        | cons b bytes =>
          refine Serves.reading hpath hsent ?_
          intro later
          rw [List.append_assoc, hreads, List.singleton_append, readLoop,
            if_neg (Bool.eq_false_iff.1 hopen)]

theorem fd_next {pc pc' : Pc} {answer : Answer} (hnext : pc.next strerror a answer = some pc') :
    pc'.fd = pc.fd := by
  have hreading (fd : ℕ) (raw : Bytes) : (reading a fd raw).fd = some fd := by
    unfold reading
    split_ifs <;> rfl
  cases pc with
  | socket | close | returned => cases hnext
  | connect fd =>
    cases answer with
    | write | read => cases hnext
    | connect r => cases r <;> cases hnext <;> rfl
  | write fd left =>
    cases answer with
    | connect | read => cases hnext
    | write r =>
      cases r with
      | error e =>
        cases hnext
        rfl
      | ok sent =>
        cases sent with
        | zero =>
          cases hnext
          rfl
        | succ sent =>
          obtain ⟨-, hpc⟩ := Option.ite_none_right_eq_some.1 hnext
          cases hpc
          split_ifs
          · exact hreading fd []
          · rfl
  | read fd raw =>
    cases answer with
    | connect | write => cases hnext
    | read r =>
      cases hnext
      cases r with
      | error e => cases e <;> rfl
      | ok bytes =>
        cases bytes with
        | nil => rfl
        | cons b bytes => exact hreading fd _

/-! ### The invariant -/

/-- Where a call is with its sockets: between two of them, on one that its descriptor stands for, or
at its end. -/
inductive Placed (strerror : Errno → Bytes) (socketPath : Bytes) (a : Args) (s : State ι) (i : ι) :
    Prop
  | idle (pc : s.pc i = .socket)
    (past : ∀ later, request strerror socketPath a.method a.path a.body
      (s.connections i ++ later) = request strerror socketPath a.method a.path a.body later)
  | busy (fd n : ℕ) (before : List ℕ) (pc : (s.pc i).fd = some fd)
    (opened : s.opened i = before ++ [n]) (slot : s.table fd = some (.socket n))
    (past : ∀ later, request strerror socketPath a.method a.path a.body
      (before.map s.answers ++ later) = request strerror socketPath a.method a.path a.body later)
    (serves : Serves strerror socketPath a (s.pc i) (s.answers n))
  | done (x : Exchange) (pc : s.pc i = .returned x)
    (result : request strerror socketPath a.method a.path a.body (s.connections i) = x)

/-- Each call has its socket to itself. -/
structure Inv (strerror : Errno → Bytes) (socketPath : Bytes) (args : ι → Args) (s : State ι) :
    Prop where
  placed : ∀ i, Placed strerror socketPath (args i) s i
  holder : ∀ fd n, s.table fd = some (.socket n) → ∃ i, (s.pc i).fd = some fd ∧ n ∈ s.opened i
  fresh : ∀ i, ∀ n ∈ s.opened i, n < s.count
  apart : ∀ i j n, n ∈ s.opened i → n ∈ s.opened j → i = j
  nodup : ∀ i, (s.opened i).Nodup
  misused : s.misused = []

/-- A step that does not touch the sockets of a call leaves it where it is. -/
theorem Placed.congr {i : ι} (h : Placed strerror socketPath a s i) (hpc : t.pc i = s.pc i)
    (hopened : t.opened i = s.opened i) (hanswers : ∀ n ∈ s.opened i, t.answers n = s.answers n)
    (htable : ∀ fd n, (s.pc i).fd = some fd → s.table fd = some (.socket n) →
      t.table fd = some (.socket n)) : Placed strerror socketPath a t i := by
  have hconnections : t.connections i = s.connections i := by
    rw [State.connections, State.connections, hopened]
    exact List.map_congr_left hanswers
  cases h with
  | idle pc past => exact .idle (hpc.trans pc) (by rwa [hconnections])
  | done x pc result => exact .done x (hpc.trans pc) (by rwa [hconnections])
  | busy fd n before pc opened slot past serves =>
    have hbefore : before.map t.answers = before.map s.answers :=
      List.map_congr_left fun m hm => hanswers m (by rw [opened]; exact List.mem_append_left _ hm)
    have hn : t.answers n = s.answers n := hanswers n (by rw [opened]; simp)
    refine .busy fd n before (by rw [hpc, pc]) (hopened.trans opened) (htable fd n pc slot) ?_ ?_
    · rwa [hbefore]
    · rwa [hpc, hn]

/-- A descriptor of a call is its own. -/
theorem Inv.holds (h : Inv strerror socketPath args s) {i : ι} {fd : ℕ}
    (hfd : (s.pc i).fd = some fd) : ∃ before n, s.opened i = before ++ [n] ∧
      s.table fd = some (.socket n) ∧
      (∀ later, request strerror socketPath (args i).method (args i).path (args i).body
        (before.map s.answers ++ later) =
          request strerror socketPath (args i).method (args i).path (args i).body later) ∧
      Serves strerror socketPath (args i) (s.pc i) (s.answers n) := by
  cases h.placed i with
  | idle pc past =>
    rw [pc] at hfd
    cases hfd
  | done x pc result =>
    rw [pc] at hfd
    cases hfd
  | busy fd' n before pc opened slot past serves =>
    obtain rfl : fd' = fd := Option.some.inj (pc.symm.trans hfd)
    exact ⟨before, n, opened, slot, past, serves⟩

/-- The sockets of a call that is about to make one have all been interrupted. -/
theorem Inv.idle (h : Inv strerror socketPath args s) {i : ι} (hpc : s.pc i = .socket)
    (later : List Connection) :
    request strerror socketPath (args i).method (args i).path (args i).body
      (s.connections i ++ later) =
        request strerror socketPath (args i).method (args i).path (args i).body later := by
  cases h.placed i with
  | idle pc past => exact past later
  | busy fd n before pc =>
    rw [hpc] at pc
    cases pc
  | done x pc =>
    rw [hpc] at pc
    cases pc

theorem Inv.start (open_ : ℕ → Bool) : Inv strerror socketPath args (start open_ : State ι) where
  placed i := .idle rfl fun _ => rfl
  holder fd n hslot := by
    simp only [Sockets.start] at hslot
    split_ifs at hslot
    cases hslot
  fresh _ _ hn := by cases hn
  apart _ _ _ hn := by cases hn
  nodup _ := List.nodup_nil
  misused := rfl

/-- The rest of the program changes what a number stands for that is no socket. -/
theorem Inv.elsewhere (h : Inv strerror socketPath args s) {fd : ℕ} {slot : Option Slot}
    (hold : ∀ n, s.table fd ≠ some (.socket n)) (hnew : ∀ n, slot ≠ some (.socket n)) :
    Inv strerror socketPath args { s with table := Function.update s.table fd slot } := by
  have hne {fd' n : ℕ} (hslot : s.table fd' = some (.socket n)) : fd' ≠ fd := by
    rintro rfl
    exact hold n hslot
  refine ⟨?_, ?_, h.fresh, h.apart, h.nodup, h.misused⟩
  · intro j
    refine (h.placed j).congr rfl rfl (fun _ _ => rfl) ?_
    intro fd' n _ hslot
    exact (Function.update_of_ne (hne hslot) _ _).trans hslot
  · intro fd' n hslot
    by_cases hfd : fd' = fd
    · subst hfd
      simp only [Function.update_self] at hslot
      exact absurd hslot (hnew n)
    · simp only [Function.update_of_ne hfd] at hslot
      exact h.holder fd' n hslot

variable [DecidableEq ι]

/-- **A system call on a socket of the call.** -/
theorem Inv.use (h : Inv strerror socketPath args s) {i : ι} {fd : ℕ} {pc : Pc} {answer : Answer}
    (hfd : (s.pc i).fd = some fd) (hnext : (s.pc i).next strerror (args i) answer = some pc) :
    Inv strerror socketPath args ((s.answered fd answer).goTo i pc) := by
  obtain ⟨before, n, hopened, hslot, hpast, hserves⟩ := h.holds hfd
  have heq : (s.answered fd answer).goTo i pc =
      { s with
        answers := Function.update s.answers n (record (s.answers n) answer)
        pc := Function.update s.pc i pc } := by
    simp only [State.answered, hslot, State.goTo]
  rw [heq]
  have hmem : n ∈ s.opened i := by rw [hopened]; simp
  have hnew : n ∉ before := by
    have hnodup := h.nodup i
    rw [hopened, List.nodup_append] at hnodup
    exact fun hn => hnodup.2.2 n hn n (by simp) rfl
  have hpc : (Function.update s.pc i pc i).fd = some fd := by
    rw [Function.update_self, fd_next hnext, hfd]
  refine ⟨?_, ?_, h.fresh, h.apart, h.nodup, h.misused⟩
  · intro j
    by_cases hj : j = i
    · subst hj
      refine .busy fd n before hpc hopened hslot ?_ ?_
      · have hbefore : before.map (Function.update s.answers n (record (s.answers n) answer)) =
            before.map s.answers :=
          List.map_congr_left fun m hm =>
            Function.update_of_ne (fun hmn : m = n => hnew (hmn ▸ hm)) _ _
        simpa only [hbefore] using hpast
      · simp only [Function.update_self]
        exact hserves.next hnext
    · refine (h.placed j).congr (Function.update_of_ne hj _ _) rfl ?_ fun _ _ _ => id
      intro m hm
      exact Function.update_of_ne (fun hmn : m = n => hj (h.apart j i n (hmn ▸ hm) hmem)) _ _
  · intro fd' m hslot'
    obtain ⟨j, hj, hm⟩ := h.holder fd' m hslot'
    refine ⟨j, ?_, hm⟩
    by_cases hji : j = i
    · subst hji
      rw [hpc, ← hfd, hj]
    · simpa only [Function.update_of_ne hji] using hj

theorem Inv.made (h : Inv strerror socketPath args s) {i : ι} (hpc : s.pc i = .socket)
    {table : ℕ → Option Slot} {r : Except Errno Unit} {pc : Pc}
    (hplaced : Placed strerror socketPath (args i)
      { (s.made i r).goTo i pc with table := table } i)
    (hkeep : ∀ fd n, s.table fd = some (.socket n) → table fd = some (.socket n))
    (hnew : ∀ fd n, table fd = some (.socket n) → s.table fd = some (.socket n) ∨
      pc.fd = some fd ∧ n = s.count) :
    Inv strerror socketPath args { (s.made i r).goTo i pc with table := table } := by
  have hopened (j : ι) : (s.made i r).opened j =
      if j = i then s.opened i ++ [s.count] else s.opened j := by
    simp only [State.made, Function.update_apply]
  have hmem (j : ι) (n : ℕ) : n ∈ (s.made i r).opened j ↔
      n ∈ s.opened j ∨ j = i ∧ n = s.count := by
    rw [hopened]
    by_cases hj : j = i
    · subst hj
      simp
    · simp [hj]
  refine ⟨?_, ?_, ?_, ?_, ?_, h.misused⟩
  · intro j
    by_cases hj : j = i
    · subst hj
      exact hplaced
    · refine (h.placed j).congr (Function.update_of_ne hj _ _) ?_ ?_ fun fd n _ => hkeep fd n
      · exact (hopened j).trans (if_neg hj)
      · intro n hn
        exact Function.update_of_ne (h.fresh j n hn).ne _ _
  · intro fd n hslot
    rcases hnew fd n hslot with hold | ⟨hfd, rfl⟩
    · obtain ⟨j, hj, hn⟩ := h.holder fd n hold
      have hji : j ≠ i := by
        rintro rfl
        rw [hpc] at hj
        cases hj
      have hsame : ((s.made i r).goTo i pc).pc j = s.pc j := Function.update_of_ne hji _ _
      exact ⟨j, (congrArg Pc.fd hsame).trans hj, (hmem j n).2 (.inl hn)⟩
    · have hself : ((s.made i r).goTo i pc).pc i = pc := Function.update_self _ _ _
      exact ⟨i, (congrArg Pc.fd hself).trans hfd, (hmem i s.count).2 (.inr ⟨rfl, rfl⟩)⟩
  · intro j n hn
    rcases (hmem j n).1 hn with hold | ⟨-, rfl⟩
    · exact Nat.lt_succ_of_lt (h.fresh j n hold)
    · exact Nat.lt_succ_self _
  · intro j k n hj hk
    rcases (hmem j n).1 hj with hjold | ⟨hji, hjn⟩
    · rcases (hmem k n).1 hk with hkold | ⟨-, hkn⟩
      · exact h.apart j k n hjold hkold
      · exact absurd (h.fresh j n hjold) hkn.not_lt
    · rcases (hmem k n).1 hk with hkold | ⟨hki, -⟩
      · exact absurd (h.fresh k n hkold) hjn.not_lt
      · rw [hji, hki]
  · intro j
    have hj := hopened j
    split_ifs at hj with hji
    · rw [show ({ (s.made i r).goTo i pc with table := table } : State ι).opened j = _ from hj]
      refine List.nodup_append.2 ⟨h.nodup i, List.nodup_singleton _, ?_⟩
      rintro n hn m hm rfl
      exact absurd (h.fresh i n hn) (by rw [List.mem_singleton.1 hm]; exact lt_irrefl _)
    · rw [show ({ (s.made i r).goTo i pc with table := table } : State ι).opened j = _ from hj]
      exact h.nodup j

theorem Inv.close (h : Inv strerror socketPath args s) {i : ι} {fd : ℕ} {pc : Pc}
    (hfd : (s.pc i).fd = some fd)
    (hplaced : ∀ n, Serves strerror socketPath (args i) (s.pc i) (s.answers n) →
      ∀ before, s.opened i = before ++ [n] →
      (∀ later, request strerror socketPath (args i).method (args i).path (args i).body
        (before.map s.answers ++ later) =
          request strerror socketPath (args i).method (args i).path (args i).body later) →
      Placed strerror socketPath (args i) ((s.closed fd).goTo i pc) i) :
    Inv strerror socketPath args ((s.closed fd).goTo i pc) := by
  obtain ⟨before, n, hopened, hslot, hpast, hserves⟩ := h.holds hfd
  have hmem : n ∈ s.opened i := by rw [hopened]; simp
  have hself := hplaced n hserves before hopened hpast
  have heq : (s.closed fd).goTo i pc =
      { s with
        table := Function.update s.table fd none
        pc := Function.update s.pc i pc } := by
    simp only [State.closed, hslot, State.goTo]
  rw [heq] at hself ⊢
  refine ⟨?_, ?_, h.fresh, h.apart, h.nodup, h.misused⟩
  · intro j
    by_cases hj : j = i
    · subst hj
      exact hself
    · refine (h.placed j).congr (Function.update_of_ne hj _ _) rfl (fun _ _ => rfl) ?_
      intro fd' m hfd' hslot'
      have hne : fd' ≠ fd := by
        rintro rfl
        -- one number stands for one socket, and that belongs to one call
        obtain ⟨before', n', hopened', hslot'', -, -⟩ := h.holds hfd'
        obtain rfl : n' = n := by simpa using hslot''.symm.trans hslot
        exact hj (h.apart j i n' (by rw [hopened']; simp) hmem)
      simpa only [Function.update_of_ne hne] using hslot'
  · intro fd' m hslot'
    have hne : fd' ≠ fd := by
      rintro rfl
      simp only [Function.update_self] at hslot'
      cases hslot'
    simp only [Function.update_of_ne hne] at hslot'
    obtain ⟨j, hj, hm⟩ := h.holder fd' m hslot'
    have hji : j ≠ i := by
      rintro rfl
      exact hne (Option.some.inj (hj.symm.trans hfd))
    exact ⟨j, by simpa only [Function.update_of_ne hji] using hj, hm⟩

theorem Inv.connections_made (h : Inv strerror socketPath args s) (i : ι) (r : Except Errno Unit) :
    (s.made i r).connections i = s.connections i ++ [⟨r, .ok (), [], []⟩] := by
  have hold : (s.opened i).map (s.made i r).answers = s.connections i :=
    List.map_congr_left fun n hn => Function.update_of_ne (h.fresh i n hn).ne _ _
  have hopened : (s.made i r).opened i = s.opened i ++ [s.count] := Function.update_self _ _ _
  have hnew : (s.made i r).answers s.count = ⟨r, .ok (), [], []⟩ := Function.update_self _ _ _
  rw [State.connections, hopened, List.map_append, hold, List.map_singleton, hnew]

theorem connections_closed {i : ι} {fd n : ℕ} {pc : Pc} {before : List ℕ}
    (hopened : s.opened i = before ++ [n]) :
    ((s.closed fd).goTo i pc).connections i = before.map s.answers ++ [s.answers n] := by
  have hsame : ((s.closed fd).goTo i pc).connections i = s.connections i := by
    unfold State.closed
    split <;> rfl
  rw [hsame, State.connections, hopened, List.map_append, List.map_singleton]

/-- **Every step keeps the calls on their own sockets**, if no other part of the program closes
one. -/
theorem Inv.step {label : Label ι} (h : Inv strerror socketPath args s)
    (hkeeps : label.keeps s = true)
    (hstep : Sockets.step strerror socketPath args s label = some t) :
    Inv strerror socketPath args t := by
  cases label with
  | socket i r =>
    cases r with
    | error e =>
      obtain ⟨hpc, ht⟩ := Option.ite_none_right_eq_some.1 hstep
      cases ht
      refine h.made hpc (.done _ (Function.update_self _ _ _) ?_) (fun _ _ => id) fun _ _ => .inl
      have hresult : request strerror socketPath (args i).method (args i).path (args i).body
          ((s.made i (.error e)).connections i) = .response { error := strerror e } := by
        rw [h.connections_made, h.idle hpc, request]
      exact hresult
    | ok fd =>
      obtain ⟨⟨hpc, hfree⟩, ht⟩ := Option.ite_none_right_eq_some.1 hstep
      cases ht
      have hserves : Serves strerror socketPath (args i) (connecting socketPath fd)
          ⟨.ok (), .ok (), [], []⟩ := by
        unfold connecting
        split_ifs with hlong
        · intro later
          simp only [request, if_pos hlong]
        · exact ⟨not_le.1 hlong, rfl⟩
      have hfd : (connecting socketPath fd).fd = some fd := by
        unfold connecting
        split_ifs <;> rfl
      refine h.made hpc ?_ ?_ ?_
      · have hself : ((s.made i (.ok ())).goTo i (connecting socketPath fd)).pc i =
            connecting socketPath fd := Function.update_self _ _ _
        refine .busy fd s.count (s.opened i) ((congrArg Pc.fd hself).trans hfd)
          (Function.update_self _ _ _) (Function.update_self _ _ _) ?_ ?_
        · have hbefore : (s.opened i).map ((s.made i (.ok ())).answers) = s.connections i :=
            List.map_congr_left fun n hn => Function.update_of_ne (h.fresh i n hn).ne _ _
          intro later
          exact (congrArg (fun l => request strerror socketPath (args i).method (args i).path
            (args i).body (l ++ later)) hbefore).trans (h.idle hpc later)
        · have hnew : (s.made i (.ok ())).answers s.count = ⟨.ok (), .ok (), [], []⟩ :=
            Function.update_self _ _ _
          have hplace : Serves strerror socketPath (args i)
              (((s.made i (.ok ())).goTo i (connecting socketPath fd)).pc i)
              ((s.made i (.ok ())).answers s.count) := by rwa [hself, hnew]
          exact hplace
      · intro fd' n hslot
        have hne : fd' ≠ fd := by
          rintro rfl
          rw [hfree] at hslot
          cases hslot
        rw [Function.update_of_ne hne, hslot]
      · intro fd' n hslot
        by_cases hfd' : fd' = fd
        · subst hfd'
          rw [Function.update_self] at hslot
          cases hslot
          exact .inr ⟨hfd, rfl⟩
        · rw [Function.update_of_ne hfd'] at hslot
          exact .inl hslot
  | use i answer =>
    simp only [Sockets.step] at hstep
    split at hstep
    · rename_i fd pc hfd hnext
      cases hstep
      exact h.use hfd hnext
    · cases hstep
  | close i =>
    simp only [Sockets.step] at hstep
    split at hstep <;> cases hstep
    · rename_i fd hpc
      refine h.close (by rw [hpc]; rfl) ?_
      intro n hserves before hopened hpast
      rw [hpc] at hserves
      refine .idle (Function.update_self _ _ _) ?_
      intro later
      rw [connections_closed hopened, List.append_assoc, hpast]
      exact hserves later
    · rename_i fd x hpc
      refine h.close (by rw [hpc]; rfl) ?_
      intro n hserves before hopened hpast
      rw [hpc] at hserves
      refine .done x (Function.update_self _ _ _) ?_
      rw [connections_closed hopened, hpast]
      exact hserves []
  | opened fd =>
    obtain ⟨hfree, ht⟩ := Option.ite_none_right_eq_some.1 hstep
    cases ht
    refine h.elsewhere ?_ ?_
    · intro n hslot
      rw [hfree] at hslot
      cases hslot
    · intro n hslot
      cases hslot
  | released fd =>
    cases hstep
    refine h.elsewhere ?_ ?_
    · intro n hslot
      simp only [Label.keeps, State.isSocket, hslot, Bool.not_true, Bool.false_eq_true] at hkeeps
    · intro n hslot
      cases hslot

/-- **Calls do not disturb each other.**  In every run of any number of calls, one system call at a
time in any order, with descriptors being opened and closed by the rest of the program, none of
which stands for a socket of a call as it is closed: a call that has returned has returned what
`request` makes of the answers of its own sockets; no two calls have a socket in common; no call has
used or closed a number that was not a socket; and every socket that is open is one of a call that
has not returned, at the number the call holds. -/
theorem calls_isolated (strerror : Errno → Bytes) (socketPath : Bytes) (args : ι → Args)
    (open_ : ℕ → Bool) (labels : List (Label ι)) (s : State ι)
    (hkeeps : StepsMeet (step strerror socketPath args) (fun s l => l.keeps s = true) (start open_)
      labels)
    (hs : exec (step strerror socketPath args) (start open_) labels = some s) :
    (∀ i x, s.pc i = .returned x →
      request strerror socketPath (args i).method (args i).path (args i).body (s.connections i) =
        x) ∧
    (∀ i j n, n ∈ s.opened i → n ∈ s.opened j → i = j) ∧
    s.misused = [] ∧
    ∀ fd n, s.table fd = some (.socket n) → ∃ i, (s.pc i).fd = some fd ∧ n ∈ s.opened i := by
  have hinv : Inv strerror socketPath args s :=
    exec_invariant (I := Inv strerror socketPath args)
      (fun _ _ _ hinv hkeeps hstep => hinv.step hkeeps hstep) (.start open_) hkeeps hs
  refine ⟨?_, hinv.apart, hinv.misused, hinv.holder⟩
  intro i x hpc
  cases hinv.placed i with
  | idle pc =>
    rw [pc] at hpc
    cases hpc
  | busy fd n before pc =>
    rw [hpc] at pc
    cases pc
  | done x' pc result =>
    obtain rfl := Pc.returned.inj (pc.symm.trans hpc)
    exact result

/-! ### A number that is given out again -/

/-- A ping and a request to remove a container. -/
def pingAndRemove : Bool → Args
  | true => ⟨lit "GET", lit "/_ping", []⟩
  | false => ⟨lit "DELETE", lit "/containers/a", []⟩

/-- A pipe of the rest of the program comes and goes.  The ping is interrupted and closes its
socket; its number goes to the other call, which is answered while the ping is made again. -/
def reused : List (Label Bool) :=
  [.opened 3, .released 3, .socket true (.ok 3), .use true (.connect (.ok ())),
    .use true (.write (.ok 107)), .use true (.read (.error .EINTR)), .close true,
    .socket false (.ok 3), .use false (.connect (.ok ())), .socket true (.ok 4),
    .use false (.write (.ok 117)), .use true (.connect (.ok ())), .use true (.write (.ok 107)),
    .use false (.read (.ok (lit "HTTP/1.1 204 No Content\r\n\r\n"))), .close false,
    .use true (.read (.ok (lit "HTTP/1.1 200 OK\r\nContent-Length: 2\r\n\r\nOK"))), .close true]

/-- A pipe of another thread is closed twice, the second time when its number is the socket of a
ping. -/
def closedTwice : List (Label Bool) :=
  [.opened 3, .released 3, .socket true (.ok 3), .released 3,
    .use true (.connect (.error (.other 9)))]

/-- **Without the condition a call is disturbed**: it is answered by no socket of its own. -/
theorem closedTwice_misused :
    (exec (step (fun _ => []) [] pingAndRemove) (start fun _ => false) closedTwice).map
      (·.misused) = some [3] := by
  decide +kernel

/-- The ping returns what its own sockets have answered, the first and the third. -/
theorem calls_isolated_reused : ∃ s,
    exec (step (fun _ => []) [] pingAndRemove) (start fun _ => false) reused = some s ∧
      s.opened true = [0, 2] ∧
      request (fun _ => []) [] (lit "GET") (lit "/_ping") [] (s.connections true) =
        .response ⟨200, lit "OK", []⟩ := by
  have hopened : (exec (step (fun _ => []) [] pingAndRemove) (start fun _ => false) reused).map
      (·.opened true) = some [0, 2] := by decide +kernel
  have hpc : (exec (step (fun _ => []) [] pingAndRemove) (start fun _ => false) reused).map
      (·.pc true) = some (.returned (.response ⟨200, lit "OK", []⟩)) := by decide +kernel
  obtain ⟨s, hs, hopened⟩ := Option.map_eq_some_iff.1 hopened
  rw [hs] at hpc
  have hcalls := calls_isolated (fun _ => []) [] pingAndRemove (fun _ => false) reused s
    (by decide +kernel) hs
  exact ⟨s, hs, hopened, hcalls.1 true _ (Option.some.inj hpc)⟩

end Sockets

end Http

end TuxDock
