import TuxDock.Http.Ending

/-!
# Replies that arrive and replies that get lost

The reading of a reply ends with a buffer that is complete or that the peer has closed, or a read
fails before: an interrupted one makes `request` send the whole request once more, one that times
out ends the call with an error.  In any case the engine has had the request.

* `Delivers`, `Loses` : a connection on which a reply arrives, or gets lost, by what the read loop
  and the parser end with;
* `Delivers.of_complete_iff`, `ChunkedReply.delivers`, `OpenReply.delivers` : **replies without a
  body, of announced length, in chunks and up to the close are delivered** in any pieces;
* `Delivers.request_eq`, `Loses.request_interrupted`, `Loses.request_timedOut` : **what `request`
  makes of such a connection**.
-/

namespace TuxDock

namespace Http

open Text Search

/-! ### Connections -/

section Connections

variable (c : Connection) (method path body : Bytes)

/-- The request is sent, and what has been read when the loop stops is parsed to the response. -/
structure Delivers (response : EngineResponse) : Prop where
  sent : c.Sent method path body
  reads : ∃ raw, (readLoop method [] c.reads = (raw, .complete) ∨
    readLoop method [] c.reads = (raw, .closed)) ∧ parsed raw = .response response
  /-- A success has no error: it is not cut, and no line of it is malformed. -/
  success : 200 ≤ response.statusCode → response.statusCode < 300 → response.error = []

/-- The request is sent, and a read fails before a complete reply has arrived. -/
structure Loses (e : Errno) : Prop where
  sent : c.Sent method path body
  reads : ∃ part, readLoop method [] c.reads = (part, .failed e)

end Connections

variable {c : Connection} {method path body : Bytes} {response : EngineResponse}

/-! ### Replies that arrive -/

section Arrives

variable {pieces : List Bytes} {rest : List (Except Errno Bytes)}

/-- **A reply that is complete with its last byte is delivered**, whatever comes behind it. -/
theorem Delivers.of_complete_iff {raw : Bytes}
    (hcomplete : ∀ p, p <+: raw → (httpResponseComplete p method = true ↔ p = raw))
    (hparsed : parsed raw = .response response)
    (hsuccess : 200 ≤ response.statusCode → response.statusCode < 300 → response.error = [])
    (hsent : c.Sent method path body) (hne : ∀ b ∈ pieces, b ≠ []) (hraw : pieces.flatten = raw)
    (hreads : c.reads = deliver pieces ++ rest) : Delivers c method path body response where
  sent := hsent
  reads := by
    refine ⟨raw, Or.inl ?_, hparsed⟩
    rw [hreads]
    exact readLoop_of_complete_iff hcomplete hne hraw rest
  success := hsuccess

namespace RawHead

variable (hd : RawHead)

theorem delivers_bodyless (hcode : readStatusCode hd.status = 204 ∨ readStatusCode hd.status = 304)
    (hread : hd.framing.isSome) (hsent : c.Sent method path body) (hne : ∀ b ∈ pieces, b ≠ [])
    (hraw : pieces.flatten = hd.render) (hreads : c.reads = deliver pieces ++ rest) :
    Delivers c method path body ⟨readStatusCode hd.status, [], []⟩ := by
  have hbodyless : bodyless (readStatusCode hd.status) = true := by
    rcases hcode with h | h <;> rw [h] <;> rfl
  have hparsed : parsed hd.render = .response ⟨readStatusCode hd.status, [], []⟩ := by
    obtain ⟨f, hf⟩ := Option.isSome_iff_exists.1 hread
    have hparse := hd.parse_render (by rcases hcode with h | h <;> rw [h] <;> decide) []
    rw [List.append_nil, hf] at hparse
    rw [parsed, hparse]
    rcases hcode with h | h <;> rw [h] <;> rfl
  exact .of_complete_iff (fun p hp => hd.complete_bodyless_iff method hbodyless hp) hparsed
    (fun _ _ => rfl) hsent hne hraw hreads

/-- A reply whose head announces the length of its body to both functions of the parser. -/
theorem delivers_length (content : Bytes) (hm : method ≠ lit "HEAD")
    (hcode : readStatusCode hd.status ≠ 0) (hb : bodyless (readStatusCode hd.status) = false)
    (hl : hd.lines ≠ []) (hch : ¬ announcesChunked hd.block = true)
    (hlength : announcedLength hd.block = some content.length)
    (hframing : hd.framing = some ⟨content.length, false⟩)
    (hfit : (hd.render ++ content).length < npos) (hsent : c.Sent method path body)
    (hne : ∀ b ∈ pieces, b ≠ []) (hraw : pieces.flatten = hd.render ++ content)
    (hreads : c.reads = deliver pieces ++ rest) :
    Delivers c method path body
      ⟨readStatusCode hd.status, content, (finish (readStatusCode hd.status) content).error⟩ := by
  have hnpos : content.length ≠ npos := by
    rw [List.length_append] at hfit
    omega
  have hkeeps : hd.FramingKeeps content :=
    ⟨_, hframing, Or.inr (Or.inl (by simp [Framing.delimiter, hnpos]))⟩
  have hparsed : parsed (hd.render ++ content) = .response ⟨readStatusCode hd.status, content,
      (finish (readStatusCode hd.status) content).error⟩ := by
    rw [parsed, (hd.parse_whole_iff hcode hb content).2 hkeeps]
    simp only [finish_statusCode, finish_body]
  refine .of_complete_iff (fun p hp => ?_) hparsed ?_ hsent hne hraw hreads
  · exact hd.complete_length_iff method hm hb hl hch hlength (hfit.trans (by decide)) hp
  · intro hge hlt
    rw [finish_of_ok ⟨hge, hlt⟩]

end RawHead

/-- **A reply in chunks is delivered**, if its data do not complete it early. -/
theorem ChunkedReply.delivers (R : ChunkedReply) (hfit : R.raw.length < 2 ^ 64)
    (hm : method ≠ lit "HEAD") (hchunks : R.chunks ≠ []) (hread : R.head.LengthsReadable)
    (hearly : R.MarkNotEarly pieces) (hsent : c.Sent method path body)
    (hne : ∀ b ∈ pieces, b ≠ []) (hraw : pieces.flatten = R.raw)
    (hreads : c.reads = deliver pieces ++ rest) :
    Delivers c method path body ⟨R.head.status.code, R.body.content, []⟩ where
  sent := hsent
  reads := by
    obtain ⟨buffer, hl, hparsed⟩ := R.exists_readLoop_eq hfit hm hne hraw hchunks hread hearly
    refine ⟨buffer, Or.inl ?_, hparsed⟩
    rw [hreads]
    exact readLoop_append hl rest
  success _ _ := rfl

/-- **A reply up to the close is delivered.** -/
theorem OpenReply.delivers (R : OpenReply) (hfit : R.raw.length < 2 ^ 64)
    (hm : method ≠ lit "HEAD") (hkeeps : R.FramingKeeps)
    (hbare : R.head.lines = [] → ¬ Imitates R.payload) (hsent : c.Sent method path body)
    (hne : ∀ b ∈ pieces, b ≠ []) (hraw : pieces.flatten = R.raw)
    (hreads : c.reads = deliver pieces ++ .ok [] :: rest) :
    Delivers c method path body ⟨readStatusCode R.head.status, R.payload,
      (finish (readStatusCode R.head.status) R.payload).error⟩ where
  sent := hsent
  reads := by
    refine ⟨R.raw, Or.inr ?_, ?_⟩
    · rw [hreads]
      exact R.readLoop_closed hfit hm hbare hne hraw rest
    · rw [parsed, R.parse_iff.2 hkeeps]
      simp only [finish_statusCode, finish_body]
  success hge hlt := by
    rw [finish_of_ok ⟨hge, hlt⟩]

/-- **A reply is lost** when a read fails behind incomplete buffers. -/
theorem Loses.of_incomplete {e : Errno} (hsent : c.Sent method path body)
    (hne : ∀ b ∈ pieces, b ≠ [])
    (hnever : ∀ n, httpResponseComplete (received pieces n) method = false)
    (hreads : c.reads = deliver pieces ++ .error e :: rest) : Loses c method path body e where
  sent := hsent
  reads := by
    refine ⟨pieces.flatten, ?_⟩
    rw [hreads]
    rcases readLoop_deliver method [] pieces hne (.error e :: rest) with ⟨n, -, hcn, -⟩ | ⟨-, hl⟩
    · rw [List.nil_append, hnever n] at hcn
      cases hcn
    · have hall := hnever pieces.length
      rw [received_all] at hall
      rw [hl, List.nil_append, readLoop, if_neg (by rw [hall]; simp)]

end Arrives

/-! ### The call -/

section Request

variable (strerror : Errno → Bytes) {socketPath : Bytes} (hpath : socketPath.length < 108)
  (later : List Connection)

include hpath

/-- **A reply that arrives is the answer of the call.** -/
theorem Delivers.request_eq (h : Delivers c method path body response) :
    request strerror socketPath method path body (c :: later) = .response response := by
  have hp : ¬ 108 ≤ socketPath.length := by omega
  obtain ⟨raw, hread | hread, hparsed⟩ := h.reads
  · exact (request_sent strerror hpath h.sent later hread).trans hparsed
  · rw [request]
    simp only [h.sent.socket, hp, ↓reduceIte, h.sent.connect, h.sent.writes, hread, hparsed]

/-- **An interrupted read sends the request again.** -/
theorem Loses.request_interrupted (h : Loses c method path body .EINTR) :
    request strerror socketPath method path body (c :: later) =
      request strerror socketPath method path body later := by
  have hp : ¬ 108 ≤ socketPath.length := by omega
  obtain ⟨part, hread⟩ := h.reads
  conv_lhs => rw [request]
  simp only [h.sent.socket, hp, ↓reduceIte, h.sent.connect, h.sent.writes, hread]

/-- **A read that times out ends the call.** -/
theorem Loses.request_timedOut (h : Loses c method path body .EAGAIN) :
    request strerror socketPath method path body (c :: later) =
      .response { error := lit "Docker Engine response timed out." } := by
  have hp : ¬ 108 ≤ socketPath.length := by omega
  obtain ⟨part, hread⟩ := h.reads
  rw [request]
  simp only [h.sent.socket, hp, ↓reduceIte, h.sent.connect, h.sent.writes, hread,
    not_complete_of_failed hread, Bool.false_eq_true]

end Request

end Http

end TuxDock
