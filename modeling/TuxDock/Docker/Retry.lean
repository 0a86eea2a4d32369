import TuxDock.Docker.Manager
import TuxDock.Http.Reply

/-!
# Repeated actions

The engine may act on a request whose reply gets lost.  `request` sends it again after an
interrupted read, and the user repeats a call that has timed out; the engine then finds a target
that is in the requested state already, or is gone.

* `Engine` : an engine that answers as its state says, and leaves a target alone that is there
  already;
* `Engine.Alike` : two states from which a request has the same effect and the same success;
* `repeated_like_single` : **after any number of lost replies the last call returns what a single
  call would have, and leaves the same state**.
-/

namespace TuxDock

namespace Docker

open Text Http

/-! ### The engine -/

/-- The target of a request: it does not exist, it is in the requested state, or neither. -/
inductive Target where
  | absent
  | already
  | ready
  deriving Repr, DecidableEq

namespace Action

/-- A start or a stop, which ask for a state. -/
def asksState : Action → Bool
  | start _ | stop _ _ => true
  | remove _ | deleteImage _ => false

/-- The target after the request has had its effect.  A container may be removed as it stops. -/
def Reaches : Action → Target → Prop
  | start _, t => t = .already
  | stop _ _, t => t = .already ∨ t = .absent
  | remove _, t | deleteImage _, t => t = .absent

/-- The status is one that the call counts as success. -/
def Accepts (a : Action) (status : ℤ) : Prop :=
  (200 ≤ status ∧ status < 300) ∨ status ∈ a.alsoDone

end Action

/-- What the engine has for a request in each of its states: a status and the next state. -/
structure Engine (S : Type*) where
  target : Action → S → Target
  status : Action → S → ℤ
  next : Action → S → S
  absent : ∀ a s, target a s = .absent → status a s = 404 ∧ next a s = s
  already : ∀ a s, target a s = .already → a.asksState = true ∧ status a s = 304 ∧ next a s = s
  /-- The request is performed, or refused without effect. -/
  ready : ∀ a s, target a s = .ready →
    (200 ≤ status a s ∧ status a s < 300 ∧ a.Reaches (target a (next a s))) ∨
      (400 ≤ status a s ∧ status a s ≠ 404 ∧ next a s = s)

namespace Engine

variable {S : Type*} (E : Engine S) (a : Action)

/-- The request has the same effect in both states, and the same success. -/
structure Alike (s t : S) : Prop where
  next : E.next a t = E.next a s
  accepts : a.Accepts (E.status a t) ↔ a.Accepts (E.status a s)

variable {E a} {s t u : S}

theorem Alike.refl (s : S) : E.Alike a s s := ⟨rfl, Iff.rfl⟩

theorem Alike.trans (h : E.Alike a s t) (h' : E.Alike a t u) : E.Alike a s u :=
  ⟨h'.next.trans h.next, h'.accepts.trans h.accepts⟩

theorem Alike.of_eq (h : t = s) : E.Alike a s t := by
  rw [h]
  exact .refl s

/-- A target that is in the requested state, or gone as requested, stays so with success. -/
theorem of_reaches (h : a.Reaches (E.target a s)) :
    E.next a s = s ∧ a.Accepts (E.status a s) := by
  have habsent (ht : E.target a s = .absent) (hmem : (404 : ℤ) ∈ a.alsoDone) :
      E.next a s = s ∧ a.Accepts (E.status a s) := by
    obtain ⟨hstatus, hnext⟩ := E.absent a s ht
    exact ⟨hnext, Or.inr (hstatus ▸ hmem)⟩
  have halready (ht : E.target a s = .already) (hmem : (304 : ℤ) ∈ a.alsoDone) :
      E.next a s = s ∧ a.Accepts (E.status a s) := by
    obtain ⟨-, hstatus, hnext⟩ := E.already a s ht
    exact ⟨hnext, Or.inr (hstatus ▸ hmem)⟩
  cases a with
  | start id => exact halready h (by simp [Action.alsoDone])
  | stop id timeoutSeconds =>
    rcases h with ht | ht
    · exact halready ht (by simp [Action.alsoDone])
    · exact habsent ht (by simp [Action.alsoDone])
  | remove id => exact habsent h (by simp [Action.alsoDone])
  | deleteImage id => exact habsent h (by simp [Action.alsoDone])

/-- **The engine has acted once**: the request would have the same effect and success again. -/
theorem alike_next (s : S) : E.Alike a s (E.next a s) := by
  cases ht : E.target a s with
  | absent => exact .of_eq (E.absent a s ht).2
  | already => exact .of_eq (E.already a s ht).2.2
  | ready =>
    rcases E.ready a s ht with ⟨hge, hlt, hreaches⟩ | ⟨-, -, hnext⟩
    · obtain ⟨hnext, haccepts⟩ := of_reaches hreaches
      exact ⟨hnext, iff_of_true haccepts (Or.inl ⟨hge, hlt⟩)⟩
    · exact .of_eq hnext

end Engine

/-! ### Calls over the connections -/

/-- The engine client over the answers of its connections. -/
def client (strerror : Errno → Bytes) (socketPath : Bytes) (connections : List Connection)
    (r : Request) : Exchange :=
  Http.request strerror socketPath r.method r.path r.body connections

section Calls

variable {S : Type*} (E : Engine S) (a : Action)

/-- Connections on which the engine acts and an interrupted read loses the reply, with the states
of the engine before the first and after the last. -/
inductive Interrupted : S → List Connection → S → Prop
  | nil (s : S) : Interrupted s [] s
  | cons {s t : S} {c : Connection} {cs : List Connection}
      (loses : Loses c a.request.method a.request.path a.request.body .EINTR)
      (rest : Interrupted (E.next a s) cs t) : Interrupted s (c :: cs) t

/-- A call that loses its last reply to the timeout. -/
inductive TimedOut : S → List Connection → S → Prop
  | mk {s t : S} {cs : List Connection} {c : Connection} (interrupted : Interrupted E a s cs t)
      (loses : Loses c a.request.method a.request.path a.request.body .EAGAIN)
      (later : List Connection) : TimedOut s (cs ++ c :: later) (E.next a t)

/-- A call whose last reply arrives, with the status of the engine. -/
inductive Delivered : S → List Connection → S → Prop
  | mk {s t : S} {cs : List Connection} {c : Connection} (interrupted : Interrupted E a s cs t)
      (response : EngineResponse) (answers : response.statusCode = E.status a t)
      (delivers : Delivers c a.request.method a.request.path a.request.body response)
      (later : List Connection) : Delivered s (cs ++ c :: later) (E.next a t)

/-- Calls that time out, one after the other. -/
inductive Retried : S → List (List Connection) → S → Prop
  | nil (s : S) : Retried s [] s
  | cons {s t u : S} {call : List Connection} {calls : List (List Connection)}
      (timedOut : TimedOut E a s call t) (rest : Retried t calls u) : Retried s (call :: calls) u

variable {E a} {s t u : S}

theorem Delivered.single {c : Connection} (response : EngineResponse)
    (answers : response.statusCode = E.status a s)
    (delivers : Delivers c a.request.method a.request.path a.request.body response) :
    Delivered E a s [c] (E.next a s) :=
  show Delivered E a s ([] ++ c :: []) (E.next a s) from .mk (.nil s) response answers delivers []

theorem Interrupted.alike {cs : List Connection} (h : Interrupted E a s cs t) : E.Alike a s t := by
  induction h with
  | nil s => exact .refl s
  | cons loses rest ih => exact (E.alike_next _).trans ih

theorem TimedOut.alike {call : List Connection} (h : TimedOut E a s call t) : E.Alike a s t := by
  cases h with
  | mk interrupted loses later => exact interrupted.alike.trans (E.alike_next _)

theorem Retried.alike {calls : List (List Connection)} (h : Retried E a s calls t) :
    E.Alike a s t := by
  induction h with
  | nil s => exact .refl s
  | cons timedOut rest ih => exact timedOut.alike.trans ih

section Client

variable (strerror : Errno → Bytes) {socketPath : Bytes} (hpath : socketPath.length < 108)

include hpath

/-- The interrupted connections leave no trace in the exchange. -/
theorem Interrupted.request_eq {cs : List Connection} (h : Interrupted E a s cs t)
    (later : List Connection) :
    client strerror socketPath (cs ++ later) a.request =
      client strerror socketPath later a.request := by
  induction h with
  | nil s => rfl
  | cons loses rest ih =>
    exact (loses.request_interrupted strerror hpath (_ ++ later)).trans ih

/-- **A call that times out returns false.** -/
theorem TimedOut.call_eq (ha : a.Sends) {call : List Connection} (h : TimedOut E a s call t) :
    a.call (client strerror socketPath call) =
      .returned false (lit "Docker Engine response timed out.") := by
  cases h with
  | mk interrupted loses later =>
    have hresponse := (interrupted.request_eq strerror hpath (_ :: later)).trans
      (loses.request_timedOut strerror hpath later)
    rw [a.call_eq ha, hresponse]
    cases a <;> rfl

/-- **A call whose reply arrives** succeeds as its status says. -/
theorem Delivered.call_eq (ha : a.Sends) {call : List Connection} (h : Delivered E a s call t) :
    ∃ ok message, a.call (client strerror socketPath call) = .returned ok message ∧
      (ok = true ↔ a.Accepts (E.status a s)) ∧ t = E.next a s := by
  cases h with
  | mk interrupted response answers delivers later =>
    have hresponse := (interrupted.request_eq strerror hpath (_ :: later)).trans
      (delivers.request_eq strerror hpath later)
    have halike := interrupted.alike
    refine ⟨(a.result response).1, (a.result response).2, ?_, ?_, halike.next⟩
    · rw [a.call_eq ha, hresponse]
      rfl
    · rw [a.result_iff, ← halike.accepts, Action.Accepts, ← answers]
      refine or_congr_left ?_
      -- a `2xx` reply has no error, so `ok` only looks at its status
      simp only [EngineResponse.ok, Bool.and_eq_true, decide_eq_true_eq, List.isEmpty_iff]
      exact ⟨fun h => h.1, fun h => ⟨h, delivers.success h.1 h.2⟩⟩

end Client

/-- **Repeated actions under lost replies.**  For each of the four calls, any engine and any state
of it: after any number of calls that have timed out, in each of which the request may have been
sent any number of times, a call whose reply arrives returns true if and only if a single
undisturbed call from the first state does, and it leaves the same state of the engine. -/
theorem repeated_like_single (E : Engine S) (a : Action) (ha : a.Sends) (strerror : Errno → Bytes)
    (socketPath : Bytes) (hpath : socketPath.length < 108) (s t u v : S)
    (calls : List (List Connection)) (final : List Connection) (single : Connection)
    (hcalls : Retried E a s calls t) (hfinal : Delivered E a t final u)
    (hsingle : Delivered E a s [single] v) :
    (∃ ok message message', a.call (client strerror socketPath final) = .returned ok message ∧
      a.call (client strerror socketPath [single]) = .returned ok message') ∧ u = v := by
  obtain ⟨ok, message, hcall, hok, hu⟩ := hfinal.call_eq strerror hpath ha
  obtain ⟨ok', message', hcall', hok', hv⟩ := hsingle.call_eq strerror hpath ha
  have halike := hcalls.alike
  have hsame : ok = ok' := Bool.eq_iff_iff.2 (hok.trans (halike.accepts.trans hok'.symm))
  exact ⟨⟨ok, message, message', hcall, hsame ▸ hcall'⟩, hu.trans (halike.next.trans hv.symm)⟩

end Calls

/-! ### One container -/

/-- The container of an engine that has one. -/
inductive Container where
  | absent
  | stopped
  | running
  deriving Repr, DecidableEq

/-- What a request finds. -/
def Container.target : Action → Container → Target
  | _, absent => .absent
  | .start _, running => .already
  | .stop _ _, stopped => .already
  | _, _ => .ready

/-- A running container is not removed, and its image is in use. -/
def Container.handle : Action → Container → ℤ × Container
  | _, absent => (404, absent)
  | .start _, running => (304, running)
  | .start _, stopped => (204, running)
  | .stop _ _, running => (204, stopped)
  | .stop _ _, stopped => (304, stopped)
  | .remove _, stopped | .deleteImage _, stopped => (200, absent)
  | .remove _, running | .deleteImage _, running => (409, running)

namespace Container

variable {a : Action} {s : Container}

theorem handle_absent (h : Container.target a s = .absent) :
    (s.handle a).1 = 404 ∧ (s.handle a).2 = s := by
  cases s <;> cases a <;> first | exact ⟨rfl, rfl⟩ | cases h

theorem handle_already (h : Container.target a s = .already) :
    a.asksState = true ∧ (s.handle a).1 = 304 ∧ (s.handle a).2 = s := by
  cases s <;> cases a <;> first | exact ⟨rfl, rfl, rfl⟩ | cases h

theorem handle_ready (h : Container.target a s = .ready) :
    (200 ≤ (s.handle a).1 ∧ (s.handle a).1 < 300 ∧
        a.Reaches (Container.target a (s.handle a).2)) ∨
      (400 ≤ (s.handle a).1 ∧ (s.handle a).1 ≠ 404 ∧ (s.handle a).2 = s) := by
  have hok : (200 : ℤ) ≤ 200 ∧ (200 : ℤ) < 300 ∧ (200 : ℤ) ≤ 204 ∧ (204 : ℤ) < 300 := by decide
  have hconflict : (400 : ℤ) ≤ 409 ∧ (409 : ℤ) ≠ 404 := by decide
  cases s with
  | absent => cases a <;> cases h
  | stopped =>
    cases a with
    | start id => exact Or.inl ⟨hok.2.2.1, hok.2.2.2, rfl⟩
    | stop id timeoutSeconds => cases h
    | remove id => exact Or.inl ⟨hok.1, hok.2.1, rfl⟩
    | deleteImage id => exact Or.inl ⟨hok.1, hok.2.1, rfl⟩
  | running =>
    cases a with
    | start id => cases h
    | stop id timeoutSeconds => exact Or.inl ⟨hok.2.2.1, hok.2.2.2, Or.inl rfl⟩
    | remove id => exact Or.inr ⟨hconflict.1, hconflict.2, rfl⟩
    | deleteImage id => exact Or.inr ⟨hconflict.1, hconflict.2, rfl⟩

end Container

/-- An engine with one container, whatever id the request names. -/
def oneContainer : Engine Container where
  target := Container.target
  status a s := (s.handle a).1
  next a s := (s.handle a).2
  absent _ _ := Container.handle_absent
  already _ _ := Container.handle_already
  ready _ _ := Container.handle_ready

/-- A connection on which the request is sent and the reads have these answers. -/
def connection (r : Request) (reads : List (Except Errno Bytes)) : Connection where
  socket := .ok ()
  connect := .ok ()
  writes := [.ok (wireRequest r.method r.path r.body).length]
  reads := reads

theorem connection_sent (r : Request) (reads : List (Except Errno Bytes)) :
    (connection r reads).Sent r.method r.path r.body := by
  refine ⟨rfl, rfl, ?_⟩
  cases hlen : (wireRequest r.method r.path r.body).length with
  | zero => rfl
  | succ n =>
    show sendLoop _ [.ok (wireRequest r.method r.path r.body).length] = _
    rw [hlen, sendLoop, Nat.sub_self, sendLoop]

theorem isLine_of_mem_nil (l : Bytes) (h : l ∈ []) : IsLine l := absurd h List.not_mem_nil

/-- A head without header lines. -/
def bareHead (status : Bytes) (h : ¬ crlf <:+: status) : RawHead :=
  ⟨status, [], h, isLine_of_mem_nil⟩

/-- The heads of the answers to a start. -/
def noContentHead : RawHead := bareHead (lit "HTTP/1.1 204 No Content") (by decide +kernel)

/-- The head of the answer to a second start. -/
def notModifiedHead : RawHead := bareHead (lit "HTTP/1.1 304 Not Modified") (by decide +kernel)

/-- The answer to a deletion, in chunks, as the engine sends a long list of what is deleted. -/
def deletedReply : ChunkedReply := chunkedReply [helloChunk]

/-- The answer to a deletion that finds nothing, up to the close. -/
def notFoundReply : OpenReply where
  head := ⟨lit "HTTP/1.1 404 Not Found", [lit "Server: engine"], by decide +kernel,
    by decide +kernel⟩
  payload := lit "no such image"
  no_length := by decide +kernel
  no_coding := by decide +kernel
  code_ge := by decide +kernel
  not_bodyless := by decide +kernel

section Witness

variable {r : Request} {reads : List (Except Errno Bytes)}

/-- A read that fails at once loses the reply. -/
theorem connection_loses (r : Request) (e : Errno) :
    Loses (connection r [.error e]) r.method r.path r.body e where
  sent := connection_sent r _
  reads := ⟨[], rfl⟩

/-- A head alone is a reply that is delivered in one piece. -/
theorem connection_bodyless (r : Request) (hd : RawHead)
    (hcode : readStatusCode hd.status = 204 ∨ readStatusCode hd.status = 304)
    (hread : hd.framing.isSome) :
    Delivers (connection r [.ok hd.render]) r.method r.path r.body
      ⟨readStatusCode hd.status, [], []⟩ := by
  have hne : ∀ b ∈ [hd.render], b ≠ [] := by
    intro b hb
    rw [List.mem_singleton.1 hb, ← List.length_pos_iff, hd.render_length]
    omega
  have hreads : (connection r [.ok hd.render]).reads = deliver [hd.render] ++ [] := rfl
  exact hd.delivers_bodyless hcode hread (connection_sent r _) hne (List.flatten_singleton ..)
    hreads

theorem deletedReply_delivers (r : Request) (hm : r.method ≠ lit "HEAD") :
    Delivers (connection r (deliver [deletedReply.raw.take 50, deletedReply.raw.drop 50])) r.method
      r.path r.body ⟨200, lit "hello", []⟩ := by
  have hearly : deletedReply.MarkNotEarly [deletedReply.raw.take 50, deletedReply.raw.drop 50] := by
    intro n hlt
    rcases n with _ | _ | n
    · decide +kernel
    · decide +kernel
    · have hall : received [deletedReply.raw.take 50, deletedReply.raw.drop 50] (n + 2) =
          deletedReply.raw := by simp [received]
      rw [hall] at hlt
      exact absurd hlt (by decide +kernel)
  exact deletedReply.delivers (by decide +kernel) hm (by decide) (by decide +kernel)
    hearly (connection_sent r _) (by decide +kernel) (by decide +kernel) (List.append_nil _).symm

theorem notFoundReply_delivers (r : Request) (hm : r.method ≠ lit "HEAD") :
    Delivers (connection r (deliver [notFoundReply.raw] ++ [.ok []])) r.method r.path r.body
      ⟨404, lit "no such image", lit "no such image"⟩ := by
  have hkeeps : notFoundReply.FramingKeeps := ⟨{}, by decide +kernel, Or.inl rfl⟩
  exact notFoundReply.delivers (by decide +kernel) hm hkeeps (fun hl => absurd hl (by decide))
    (connection_sent r _) (by decide +kernel) (List.flatten_singleton ..) rfl

end Witness

/-- `startDetached("web")` is interrupted after the engine has started the container, sent again and
timed out, and repeated by the user; `deleteImage("web")` times out, and is answered `404` then. -/
theorem repeated_start_delete :
    ((∃ ok message message',
      (Action.start (lit "web")).call (client (fun _ => []) (lit "/var/run/docker.sock")
          [connection (startRequest (lit "web")) [.ok notModifiedHead.render]]) =
        .returned ok message ∧
      (Action.start (lit "web")).call (client (fun _ => []) (lit "/var/run/docker.sock")
          [connection (startRequest (lit "web")) [.ok noContentHead.render]]) =
        .returned ok message') ∧
      oneContainer.next (.start (lit "web")) .running =
        oneContainer.next (.start (lit "web")) .stopped) ∧
    (∃ ok message message',
      (Action.deleteImage (lit "web")).call (client (fun _ => []) (lit "/var/run/docker.sock")
          [connection (Action.deleteImage (lit "web")).request
            (deliver [notFoundReply.raw] ++ [.ok []])]) = .returned ok message ∧
      (Action.deleteImage (lit "web")).call (client (fun _ => []) (lit "/var/run/docker.sock")
          [connection (Action.deleteImage (lit "web")).request
            (deliver [deletedReply.raw.take 50, deletedReply.raw.drop 50])]) =
        .returned ok message') ∧
      oneContainer.next (.deleteImage (lit "web")) .absent =
        oneContainer.next (.deleteImage (lit "web")) .stopped := by
  have hstart : Retried oneContainer (.start (lit "web")) .stopped
      [[connection (startRequest (lit "web")) [.error .EINTR],
        connection (startRequest (lit "web")) [.error .EAGAIN]]] .running :=
    .cons (.mk (.cons (connection_loses _ _) (.nil _)) (connection_loses _ _) []) (.nil _)
  have hdelete : Retried oneContainer (.deleteImage (lit "web")) .stopped
      [[connection (Action.deleteImage (lit "web")).request [.error .EAGAIN]]] .absent :=
    .cons (.mk (.nil _) (connection_loses _ _) []) (.nil _)
  have hno : readStatusCode noContentHead.status = 204 := by decide +kernel
  have hnot : readStatusCode notModifiedHead.status = 304 := by decide +kernel
  have hmethod : (Action.deleteImage (lit "web")).request.method ≠ lit "HEAD" := by decide
  exact ⟨repeated_like_single oneContainer (.start (lit "web")) trivial (fun _ => [])
      (lit "/var/run/docker.sock") (by decide) .stopped .running _ _ _ _ _ hstart
      (.single _ hnot (connection_bodyless _ notModifiedHead (Or.inr hnot) rfl))
      (.single _ hno (connection_bodyless _ noContentHead (Or.inl hno) rfl)),
    repeated_like_single oneContainer (.deleteImage (lit "web")) trivial (fun _ => [])
      (lit "/var/run/docker.sock") (by decide) .stopped .absent _ _ _ _ _ hdelete
      (.single _ rfl (notFoundReply_delivers _ hmethod))
      (.single _ rfl (deletedReply_delivers _ hmethod))⟩

end Docker

end TuxDock
