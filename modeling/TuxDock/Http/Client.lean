import TuxDock.Http.Parser

/-!
# The engine client

`DockerEngineClient::request`: connect, send the request, read until the response is complete,
parse it.  What the system calls answer is the input: a `Connection` lists the answers in the
order of the calls, and a call that is interrupted (`EINTR` on a read) is made again on the next
connection.  A list that runs out stands for a call that has not answered yet.

The timeout of the source is a socket option: an expired one shows as `EAGAIN` from `read`.
-/

namespace TuxDock

namespace Http

/-- The values of `errno` the client tells apart. -/
inductive Errno where
  | EINTR
  /-- Also `EWOULDBLOCK`. -/
  | EAGAIN
  | other (code : ℕ)
  deriving Repr, DecidableEq

/-- `EngineResponse`. -/
structure EngineResponse where
  statusCode : ℤ := 0
  body : Bytes := []
  error : Bytes := []
  deriving Repr, DecidableEq

/-- `ok`. -/
def EngineResponse.ok (r : EngineResponse) : Bool :=
  200 ≤ r.statusCode && r.statusCode < 300 && r.error.isEmpty

/-- The answers of the system calls on one connection; a read that answers no bytes is the end of
the stream. -/
structure Connection where
  socket : Except Errno Unit
  connect : Except Errno Unit
  writes : List (Except Errno ℕ)
  reads : List (Except Errno Bytes)

/-- What a call of `request` comes to. -/
inductive Exchange where
  | response (r : EngineResponse)
  | fault (f : Fault)
  /-- A system call has not answered yet. -/
  | waiting
  deriving Repr, DecidableEq

/-! ### Sending -/

/-- The bytes of a request. -/
def wireRequest (method path body : Bytes) : Bytes :=
  method ++ lit " " ++ path ++ lit " HTTP/1.1\r\nHost: docker\r\nConnection: close\r\n" ++
    lit "Content-Type: application/json\r\nContent-Length: " ++ lit (toString body.length) ++
    crlf ++ crlf ++ body

/-- The write loop with `left` bytes to go: `none` while it waits.  A write that answers no bytes
ends the loop like one that fails; `errno` is then what an earlier call has left, here zero.
`EPIPE` is taken for an answer: the source does not ignore `SIGPIPE`, which ends the program before
it. -/
def sendLoop : ℕ → List (Except Errno ℕ) → Option (Except Errno Unit)
  | 0, _ => some (.ok ())
  | _ + 1, [] => none
  | _ + 1, .error e :: _ => some (.error e)
  | _ + 1, .ok 0 :: _ => some (.error (.other 0))
  | left + 1, .ok (count + 1) :: answers => sendLoop (left - count) answers

/-! ### Receiving -/

/-- Why the read loop stopped. -/
inductive ReadStop where
  | complete
  | closed
  | failed (e : Errno)
  | waiting
  deriving Repr, DecidableEq

/-- The read loop with the bytes `raw` received. -/
def readLoop (method raw : Bytes) : List (Except Errno Bytes) → Bytes × ReadStop
  | [] => (raw, if httpResponseComplete raw method then .complete else .waiting)
  | answer :: answers =>
    if httpResponseComplete raw method then (raw, .complete)
    else
      match answer with
      | .error e => (raw, .failed e)
      | .ok [] => (raw, .closed)
      | .ok (b :: bs) => readLoop method (raw ++ b :: bs) answers

/-- The response parsed from the bytes received. -/
def parsed (raw : Bytes) : Exchange :=
  match parseHttpResponse raw with
  | .error f => .fault f
  | .ok r => .response ⟨r.statusCode, r.body, r.error⟩

/-- `DockerEngineClient::request`; `sun_path` has 108 bytes.  `close` is called before `errno` is
tested, and is taken to leave it as it is. -/
def request (strerror : Errno → Bytes) (socketPath method path body : Bytes) :
    List Connection → Exchange
  | [] => .waiting
  | c :: later =>
    match c.socket with
    | .error e => .response { error := strerror e }
    | .ok () =>
      if 108 ≤ socketPath.length then
        .response { error := lit "Docker socket path is too long." }
      else
        match c.connect, sendLoop (wireRequest method path body).length c.writes with
        | .error e, _ => .response { error := strerror e }
        | .ok (), none => .waiting
        | .ok (), some (.error e) => .response { error := strerror e }
        | .ok (), some (.ok ()) =>
          match readLoop method [] c.reads with
          | (_, .waiting) => .waiting
          -- an interrupted read sends the whole request once more
          | (_, .failed .EINTR) => request strerror socketPath method path body later
          | (_, .failed (.other code)) => .response { error := strerror (.other code) }
          -- a read that times out is no error if the response is complete
          | (raw, .failed .EAGAIN) =>
            if httpResponseComplete raw method then parsed raw
            else .response { error := lit "Docker Engine response timed out." }
          | (raw, .complete) => parsed raw
          | (raw, .closed) => parsed raw

/-- The connection is made and the request sent. -/
structure Connection.Sent (c : Connection) (method path body : Bytes) : Prop where
  socket : c.socket = .ok ()
  connect : c.connect = .ok ()
  writes : sendLoop (wireRequest method path body).length c.writes = some (.ok ())

/-! ### The read loop on a split response -/

variable (method raw : Bytes)

/-- The answers that deliver the pieces, one read each. -/
def deliver (pieces : List Bytes) : List (Except Errno Bytes) := pieces.map .ok

/-- The bytes received after `n` reads. -/
def received (pieces : List Bytes) (n : ℕ) : Bytes := (pieces.take n).flatten

theorem received_prefix (pieces : List Bytes) (n : ℕ) : received pieces n <+: pieces.flatten := by
  refine ⟨(pieces.drop n).flatten, ?_⟩
  rw [received, ← List.flatten_append, List.take_append_drop]

theorem received_mono (pieces : List Bytes) {m n : ℕ} (h : m ≤ n) :
    received pieces m <+: received pieces n := by
  have hcut : received pieces m = received (pieces.take n) m := by
    rw [received, received, List.take_take, min_eq_left h]
  rw [hcut]
  exact received_prefix (pieces.take n) m

theorem received_all (pieces : List Bytes) : received pieces pieces.length = pieces.flatten := by
  rw [received, List.take_length]

/-- **The read loop stops at the first complete buffer**: by induction on the pieces, either some
buffer is complete, and the loop has stopped at the first such one, or none is and the loop goes
on to the answers that follow. -/
theorem readLoop_deliver (pieces : List Bytes) (hne : ∀ b ∈ pieces, b ≠ [])
    (later : List (Except Errno Bytes)) :
    (∃ n ≤ pieces.length, httpResponseComplete (raw ++ received pieces n) method = true ∧
        (∀ m < n, httpResponseComplete (raw ++ received pieces m) method = false) ∧
        readLoop method raw (deliver pieces ++ later) = (raw ++ received pieces n, .complete)) ∨
      ((∀ n, httpResponseComplete (raw ++ received pieces n) method = false) ∧
        readLoop method raw (deliver pieces ++ later) =
          readLoop method (raw ++ pieces.flatten) later) := by
  induction pieces generalizing raw with
  | nil =>
    cases hc : httpResponseComplete raw method with
    | true =>
      refine Or.inl ⟨0, le_rfl, by simpa [received] using hc, by simp, ?_⟩
      cases later <;> simp [deliver, readLoop, received, hc]
    | false => exact Or.inr ⟨fun n => by simpa [received] using hc, by simp [deliver]⟩
  | cons b pieces ih =>
    cases hc : httpResponseComplete raw method with
    | true =>
      refine Or.inl ⟨0, Nat.zero_le _, by simpa [received] using hc, by simp, ?_⟩
      simp [deliver, readLoop, received, hc]
    | false =>
      have hloop : readLoop method raw (deliver (b :: pieces) ++ later) =
          readLoop method (raw ++ b) (deliver pieces ++ later) := by
        cases hb : b with
        | nil => exact absurd hb (hne b (by simp))
        | cons a l => simp [deliver, readLoop, hc]
      have hrec (n : ℕ) :
          raw ++ received (b :: pieces) (n + 1) = raw ++ b ++ received pieces n := by
        simp [received]
      have hzero : httpResponseComplete (raw ++ received (b :: pieces) 0) method = false := by
        simpa [received] using hc
      rcases ih (raw ++ b) (fun x hx => hne x (by simp [hx])) with
        ⟨n, hn, hcn, hmin, hstop⟩ | ⟨hnone, hgo⟩
      · refine Or.inl ⟨n + 1, by simpa using hn, by rw [hrec]; exact hcn, fun m hm => ?_, ?_⟩
        · cases m with
          | zero => exact hzero
          | succ m => rw [hrec]; exact hmin m (by omega)
        · rw [hloop, hstop, hrec]
      · refine Or.inr ⟨fun n => ?_, ?_⟩
        · cases n with
          | zero => exact hzero
          | succ n => rw [hrec]; exact hnone n
        · rw [hloop, hgo]
          simp

variable {method raw}

/-- Answers behind a complete buffer are not read. -/
theorem readLoop_append {answers : List (Except Errno Bytes)} {buffer : Bytes}
    (h : readLoop method raw answers = (buffer, .complete)) (rest : List (Except Errno Bytes)) :
    readLoop method raw (answers ++ rest) = (buffer, .complete) := by
  induction answers generalizing raw with
  | nil =>
    rw [readLoop] at h
    split_ifs at h with hc
    · cases h
      cases rest <;> simp only [List.nil_append, readLoop, hc, ↓reduceIte]
    · cases h
  | cons answer answers ih =>
    rcases answer with e | bytes
    · rw [readLoop] at h
      rw [List.cons_append, readLoop]
      split_ifs at h ⊢ <;> exact h
    · rcases bytes with _ | ⟨b, bytes⟩
      · rw [readLoop] at h
        rw [List.cons_append, readLoop]
        split_ifs at h ⊢ <;> exact h
      · rw [readLoop] at h
        rw [List.cons_append, readLoop]
        split_ifs at h ⊢
        · exact h
        · exact ih h

/-- A read is made on an incomplete buffer. -/
theorem not_complete_of_failed {answers : List (Except Errno Bytes)} {part : Bytes} {e : Errno}
    (h : readLoop method raw answers = (part, .failed e)) :
    httpResponseComplete part method = false := by
  induction answers generalizing raw with
  | nil =>
    rw [readLoop] at h
    split_ifs at h <;> cases h
  | cons answer answers ih =>
    rcases answer with e' | bytes
    · rw [readLoop] at h
      split_ifs at h with hc
      · cases h
      · cases h
        exact Bool.eq_false_iff.2 hc
    · rcases bytes with _ | ⟨b, bytes⟩
      · rw [readLoop] at h
        split_ifs at h <;> cases h
      · rw [readLoop] at h
        split_ifs at h
        · cases h
        · exact ih h

/-- A response that is complete with its last byte is read to its end. -/
theorem readLoop_of_complete_iff
    (hcomplete : ∀ p, p <+: raw → (httpResponseComplete p method = true ↔ p = raw))
    {pieces : List Bytes} (hne : ∀ b ∈ pieces, b ≠ []) (hraw : pieces.flatten = raw)
    (rest : List (Except Errno Bytes)) :
    readLoop method [] (deliver pieces ++ rest) = (raw, .complete) := by
  rcases readLoop_deliver method [] pieces hne rest with ⟨n, -, hcn, -, hl⟩ | ⟨hnone, -⟩
  · rw [List.nil_append] at hcn hl
    have hp : received pieces n <+: raw := hraw ▸ received_prefix pieces n
    rw [hl, (hcomplete _ hp).1 hcn]
  · have hall := hnone pieces.length
    rw [List.nil_append, received_all, hraw, (hcomplete _ (List.prefix_refl _)).2 rfl] at hall
    cases hall

/-- Whatever ends the reading, the loop holds a prefix of what was delivered. -/
theorem readLoop_isPrefix (method : Bytes) (pieces : List Bytes) (hne : ∀ b ∈ pieces, b ≠ []) :
    (readLoop method [] (deliver pieces ++ [.ok []])).1 <+: pieces.flatten := by
  rcases readLoop_deliver method [] pieces hne [.ok []] with
    ⟨n, -, -, -, hstop⟩ | ⟨hnone, hgo⟩
  · rw [hstop]
    exact received_prefix pieces n
  · rw [hgo, List.nil_append]
    unfold readLoop
    split_ifs <;> exact List.prefix_refl _

end Http

end TuxDock
