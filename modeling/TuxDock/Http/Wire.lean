import TuxDock.Http.Client
import TuxDock.Http.Message
import TuxDock.Text.Decimal

/-!
# Requests on the wire

What the engine can make of the bytes that `DockerEngineClient::request` writes.

* `RequestText` : a request of HTTP/1.1, with a body of the length that its lines declare;
* `render_injective` : **no bytes are two requests, and none is the beginning of another**;
* `sendLoop_iff` : the write loop succeeds iff all bytes have been accepted;
* `request_read_iff` : **the engine reads the request that was made, or none**: none as long as a
  single byte is missing.
-/

namespace TuxDock

namespace Http

open Text

/-! ### Requests -/

namespace HeaderLine

/-- The value of the line is the number `n`. -/
structure Declares (h : HeaderLine) (n : ℕ) : Prop where
  digits : ∀ c ∈ trim h.value, isDigit 10 c = true
  ne_nil : trim h.value ≠ []
  numeral : numeral 10 (trim h.value) = n

end HeaderLine

/-- The length of the body after these lines: that of the one Content-Length line, or none. -/
def DeclaresLength (lines : List HeaderLine) (n : ℕ) : Prop :=
  match lines.filter (·.isContentLength) with
  | [] => n = 0
  | [h] => h.Declares n
  | _ => False

theorem DeclaresLength.unique {lines : List HeaderLine} {m n : ℕ} (hm : DeclaresLength lines m)
    (hn : DeclaresLength lines n) : m = n := by
  unfold DeclaresLength at hm hn
  rcases hlengths : lines.filter (·.isContentLength) with _ | ⟨h, _ | _⟩
  · rw [hlengths] at hm hn
    exact hm.trans hn.symm
  · rw [hlengths] at hm hn
    exact hm.numeral.symm.trans hn.numeral
  · rw [hlengths] at hm
    exact hm.elim

/-- A request of HTTP/1.1. -/
structure RequestText where
  method : Bytes
  target : Bytes
  lines : List HeaderLine
  body : Bytes
  method_word : ∀ c ∈ method, isspace c = false
  target_word : ∀ c ∈ target, isspace c = false
  length : DeclaresLength lines body.length

/-- The bytes of the request. -/
def RequestText.render (R : RequestText) : Bytes :=
  R.method ++ 32 :: (R.target ++ 32 :: (lit "HTTP/1.1" ++
    (crlf ++ (renderLines R.lines ++ (crlf ++ R.body)))))

theorem blank_notMem {word : Bytes} (h : ∀ c ∈ word, isspace c = false) : (32 : UInt8) ∉ word := by
  intro hmem
  exact absurd (h 32 hmem) (by decide +kernel)

theorem HeaderLine.render_ne_crlf (h : HeaderLine) {u v : Bytes} : h.render ++ u ≠ crlf ++ v := by
  intro heq
  have hpos := h.render_length_pos
  have hcr := h.render_notMem
  cases hr : h.render with
  | nil => simp [hr] at hpos
  | cons a l =>
    rw [hr, crlf_eq, List.cons_append, List.cons_append, List.cons.injEq] at heq
    rw [hr, heq.1] at hcr
    exact hcr List.mem_cons_self

theorem HeaderLine.render_inj {h h' : HeaderLine} (heq : h.render = h'.render) : h = h' := by
  obtain ⟨hname, hvalue⟩ := append_sep_injective h.name_colon h'.name_colon heq
  cases h
  cases h'
  simp only [HeaderLine.mk.injEq]
  exact ⟨hname, hvalue⟩

/-- **Header lines are told apart**, up to the empty line. -/
theorem renderLines_inj {lines lines' : List HeaderLine} {u v : Bytes}
    (h : renderLines lines ++ (crlf ++ u) = renderLines lines' ++ (crlf ++ v)) :
    lines = lines' ∧ u = v := by
  have hcons (l : HeaderLine) (ls : List HeaderLine) (w : Bytes) :
      renderLines (l :: ls) ++ (crlf ++ w) =
        l.render ++ 13 :: (10 :: (renderLines ls ++ (crlf ++ w))) := by
    simp [renderLines, crlf_eq]
  induction lines generalizing lines' with
  | nil =>
    cases lines' with
    | nil => exact ⟨rfl, List.append_cancel_left h⟩
    | cons l' lines' =>
      rw [hcons] at h
      exact absurd h.symm l'.render_ne_crlf
  | cons l lines ih =>
    cases lines' with
    | nil =>
      rw [hcons] at h
      exact absurd h l.render_ne_crlf
    | cons l' lines' =>
      rw [hcons, hcons] at h
      obtain ⟨hline, hrest⟩ := append_sep_injective l.render_notMem l'.render_notMem h
      obtain ⟨hlines, hend⟩ := ih (List.cons.inj hrest).2
      exact ⟨by rw [HeaderLine.render_inj hline, hlines], hend⟩

/-- **No bytes are two requests, and none is the beginning of another.** -/
theorem render_injective {R R' : RequestText} {rest rest' : Bytes}
    (h : R.render ++ rest = R'.render ++ rest') :
    R.method = R'.method ∧ R.target = R'.target ∧ R.lines = R'.lines ∧ R.body = R'.body ∧
      rest = rest' := by
  simp only [RequestText.render, List.append_assoc, List.cons_append] at h
  obtain ⟨hmethod, h⟩ := append_sep_injective (blank_notMem R.method_word)
    (blank_notMem R'.method_word) h
  obtain ⟨htarget, h⟩ := append_sep_injective (blank_notMem R.target_word)
    (blank_notMem R'.target_word) h
  obtain ⟨hlines, h⟩ := renderLines_inj (List.append_cancel_left (List.append_cancel_left h))
  -- the lines are the same, and so is the length of the body
  have hlength : R.body.length = R'.body.length := by
    have hR := R.length
    rw [hlines] at hR
    exact hR.unique R'.length
  obtain ⟨hbody, hrest⟩ := List.append_inj h hlength
  exact ⟨hmethod, htarget, hlines, hbody, hrest⟩

/-! ### What the client writes -/

theorem host_line : (∀ c ∈ lit "Host", isspace c = false) ∧ (58 : UInt8) ∉ lit "Host" ∧
    (13 : UInt8) ∉ lit " docker" := by decide +kernel

theorem connection_line : (∀ c ∈ lit "Connection", isspace c = false) ∧
    (58 : UInt8) ∉ lit "Connection" ∧ (13 : UInt8) ∉ lit " close" := by decide +kernel

theorem contentType_line : (∀ c ∈ lit "Content-Type", isspace c = false) ∧
    (58 : UInt8) ∉ lit "Content-Type" ∧ (13 : UInt8) ∉ lit " application/json" := by
  decide +kernel

theorem contentLength_line (length : ℕ) : (∀ c ∈ lit "Content-Length", isspace c = false) ∧
    (58 : UInt8) ∉ lit "Content-Length" ∧ (13 : UInt8) ∉ 32 :: lit (toString length) := by
  refine ⟨by decide +kernel, by decide +kernel, ?_⟩
  rw [List.mem_cons, not_or]
  refine ⟨by decide +kernel, fun h => ?_⟩
  exact absurd ((numeral_toString length).1 13 h) (by decide +kernel)

/-- The lines of `wire_request`. -/
def wireLines (length : ℕ) : List HeaderLine :=
  [⟨lit "Host", lit " docker", host_line.1, host_line.2.1, host_line.2.2⟩,
    ⟨lit "Connection", lit " close", connection_line.1, connection_line.2.1, connection_line.2.2⟩,
    ⟨lit "Content-Type", lit " application/json", contentType_line.1, contentType_line.2.1,
      contentType_line.2.2⟩,
    ⟨lit "Content-Length", 32 :: lit (toString length), (contentLength_line length).1,
      (contentLength_line length).2.1, (contentLength_line length).2.2⟩]

theorem wireLines_length (length : ℕ) : DeclaresLength (wireLines length) length := by
  obtain ⟨hdigits, hnumeral⟩ := numeral_toString length
  have htrim : trim (32 :: lit (toString length)) = lit (toString length) := by
    have hself : trim (lit (toString length)) = lit (toString length) :=
      trim_eq_self fun c hc => (not_blank_of_isDigit (by omega) (hdigits c hc)).2.1
    rw [trim, List.dropWhile_cons_of_pos (by decide +kernel)]
    exact hself
  exact ⟨by rwa [htrim], by rw [htrim]; exact toString_ne_nil _, by rw [htrim]; exact hnumeral⟩

/-- The request that is meant. -/
def wireText (method path body : Bytes) (hm : ∀ c ∈ method, isspace c = false)
    (hp : ∀ c ∈ path, isspace c = false) : RequestText where
  method := method
  target := path
  lines := wireLines body.length
  body := body
  method_word := hm
  target_word := hp
  length := wireLines_length body.length

theorem wireText_render {method path body : Bytes} (hm : ∀ c ∈ method, isspace c = false)
    (hp : ∀ c ∈ path, isspace c = false) :
    (wireText method path body hm hp).render = wireRequest method path body := by
  rw [RequestText.render, wireRequest]
  simp only [wireText, wireLines, renderLines, HeaderLine.render, List.flatMap_cons,
    List.flatMap_nil, List.append_nil, List.append_assoc, List.cons_append]
  rfl

/-! ### Sending -/

/-- The bytes that the writes have accepted, up to the first one that answers none or fails. -/
def accepted : Bytes → List (Except Errno ℕ) → Bytes
  | [], _ => []
  | wire, .ok (count + 1) :: answers =>
    wire.take (count + 1) ++ accepted (wire.drop (count + 1)) answers
  | _, _ => []

theorem accepted_prefix (wire : Bytes) (answers : List (Except Errno ℕ)) :
    accepted wire answers <+: wire := by
  induction answers generalizing wire with
  | nil => cases wire <;> exact List.nil_prefix
  | cons answer answers ih =>
    cases wire with
    | nil => exact List.nil_prefix
    | cons b wire =>
      cases answer with
      | error e => exact List.nil_prefix
      | ok count =>
        cases count with
        | zero => exact List.nil_prefix
        | succ count =>
          obtain ⟨rest, hrest⟩ := ih ((b :: wire).drop (count + 1))
          refine ⟨rest, ?_⟩
          rw [accepted, List.append_assoc, hrest, List.take_append_drop]
          exact List.cons_ne_nil b wire

/-- **The write loop succeeds iff all bytes have been accepted.** -/
theorem sendLoop_iff (wire : Bytes) (answers : List (Except Errno ℕ)) :
    sendLoop wire.length answers = some (.ok ()) ↔ accepted wire answers = wire := by
  induction answers generalizing wire with
  | nil =>
    cases wire with
    | nil => exact iff_of_true rfl rfl
    | cons b wire => exact iff_of_false (by simp [sendLoop]) (by simp [accepted])
  | cons answer answers ih =>
    cases wire with
    | nil => exact iff_of_true rfl rfl
    | cons b wire =>
      cases answer with
      | error e => exact iff_of_false (by simp [sendLoop]) (by simp [accepted])
      | ok count =>
        cases count with
        | zero => exact iff_of_false (by simp [sendLoop]) (by simp [accepted])
        | succ count =>
          have hlength : wire.length - count = ((b :: wire).drop (count + 1)).length := by
            rw [List.drop_succ_cons, List.length_drop]
          have haccepted : accepted (b :: wire) (.ok (count + 1) :: answers) = b :: wire ↔
              accepted ((b :: wire).drop (count + 1)) answers = (b :: wire).drop (count + 1) := by
            conv_lhs => rhs; rw [← List.take_append_drop (count + 1) (b :: wire)]
            rw [accepted, List.append_cancel_left_eq]
            exact List.cons_ne_nil b wire
          rw [haccepted, ← ih, ← hlength]
          rfl

/-- **A request that can be read from the bytes accepted is the one that was made**, and all its
bytes have been accepted. -/
theorem wire_read {method path body : Bytes} (hm : ∀ c ∈ method, isspace c = false)
    (hp : ∀ c ∈ path, isspace c = false) {answers : List (Except Errno ℕ)} {R : RequestText}
    {rest : Bytes} (h : accepted (wireRequest method path body) answers = R.render ++ rest) :
    R.method = method ∧ R.target = path ∧ R.body = body ∧ rest = [] ∧
      accepted (wireRequest method path body) answers = wireRequest method path body := by
  obtain ⟨more, hmore⟩ := accepted_prefix (wireRequest method path body) answers
  have heq : R.render ++ (rest ++ more) = (wireText method path body hm hp).render ++ [] := by
    rw [wireText_render, List.append_nil, ← List.append_assoc, ← h, hmore]
  obtain ⟨hmethod, htarget, -, hbody, hrest⟩ := render_injective heq
  obtain ⟨rfl, rfl⟩ := List.append_eq_nil_iff.1 hrest
  rw [List.append_nil] at hmore
  exact ⟨hmethod, htarget, hbody, rfl, hmore⟩

/-- **The engine reads the request that was made, or none.**  Whatever the writes answer: a request
that can be read from the bytes they have accepted has the method, the path and the body that were
passed, with nothing behind it; and there is one iff the write loop has succeeded. -/
theorem request_read_iff (method path body : Bytes) (hm : ∀ c ∈ method, isspace c = false)
    (hp : ∀ c ∈ path, isspace c = false) (answers : List (Except Errno ℕ)) :
    (∀ (R : RequestText) (rest : Bytes),
      accepted (wireRequest method path body) answers = R.render ++ rest →
        R.method = method ∧ R.target = path ∧ R.body = body ∧ rest = []) ∧
    ((∃ (R : RequestText) (rest : Bytes),
      accepted (wireRequest method path body) answers = R.render ++ rest) ↔
        sendLoop (wireRequest method path body).length answers = some (.ok ())) := by
  refine ⟨?_, ?_⟩
  · intro R rest h
    obtain ⟨hmethod, htarget, hbody, hrest, -⟩ := wire_read hm hp h
    exact ⟨hmethod, htarget, hbody, hrest⟩
  · rw [sendLoop_iff]
    constructor
    · rintro ⟨R, rest, h⟩
      exact (wire_read hm hp h).2.2.2.2
    · intro h
      refine ⟨wireText method path body hm hp, [], ?_⟩
      rw [h, wireText_render, List.append_nil]

/-- The connection breaks off within a request to remove a container. -/
theorem request_read_iff_cut : ¬ ∃ (R : RequestText) (rest : Bytes),
    accepted (wireRequest (lit "DELETE") (lit "/containers/web") []) [.ok 20, .error (.other 32)] =
      R.render ++ rest := by
  rw [(request_read_iff (lit "DELETE") (lit "/containers/web") [] (by decide +kernel)
    (by decide +kernel) [.ok 20, .error (.other 32)]).2]
  decide +kernel

end Http

end TuxDock
