import TuxDock.Http.Chunked
import TuxDock.Http.Complete
import TuxDock.Http.Client

/-!
# Delivery of a response

What the client makes of a chunked response that arrives in pieces: a rendered head and a chunked
payload, the pieces being the answers of successive reads.

* `ChunkedResponse.honest_of_prefix` : on whatever prefix the reading ends, the parser reports an
  error or returns the complete body;
* `ChunkedReply.readLoop_cases`, `ChunkedReply.parsed_iff` : where the reading stops, and what is
  made of the buffer there;
* `request_chunked_iff` : exactly when a chunked reply on an open connection comes back whole.
  The early stop searches the payload for `CRLF 0 CRLF`, which an empty chunk list does not
  contain and which data may contain anywhere.
-/

namespace TuxDock

namespace Http

open Text Search

/-! ### Parsing by framing -/

/-- The lengths of a head are readable. -/
def Head.LengthsReadable (hd : Head) : Prop :=
  ∀ h ∈ hd.lines, h.isContentLength → h.length?.isSome

instance (hd : Head) : Decidable hd.LengthsReadable :=
  inferInstanceAs (Decidable (∀ h ∈ hd.lines, h.isContentLength → h.length?.isSome))

theorem Head.framing_isSome_iff (hd : Head) : hd.framing.isSome ↔ hd.LengthsReadable := by
  rw [framing_eq, Option.isSome_map, mapM_isSome_iff]
  simp [LengthsReadable, List.mem_filter]

theorem Head.chunked_of_framing {hd : Head} {f : Framing} (h : hd.framing = some f) :
    f.chunked = hd.lines.any (·.isChunked) := by
  rw [framing_eq] at h
  obtain ⟨ns, -, rfl⟩ := Option.map_eq_some_iff.1 h
  rfl

theorem finish_statusCode (statusCode : ℤ) (body : Bytes) :
    (finish statusCode body).statusCode = statusCode := by
  unfold finish
  split_ifs <;> rfl

theorem finish_body (statusCode : ℤ) (body : Bytes) : (finish statusCode body).body = body := by
  unfold finish
  split_ifs <;> rfl

theorem finish_of_ok {statusCode : ℤ} (h : 200 ≤ statusCode ∧ statusCode < 300) (body : Bytes) :
    finish statusCode body = ⟨statusCode, body, []⟩ := by
  rw [finish, if_neg (by omega)]

theorem finish_error_ne {statusCode : ℤ} (hb : bodyless statusCode = false)
    (h : ¬ (200 ≤ statusCode ∧ statusCode < 300)) (body : Bytes) :
    (finish statusCode body).error ≠ [] := by
  have h304 : statusCode ≠ 304 := by rintro rfl; simp [bodyless] at hb
  rw [finish, if_pos (by omega), if_neg h304]
  dsimp only
  split_ifs with hbody
  · decide
  · exact hbody

/-- A result that does not truncate silently: the parser returns, with an error or with
`content`. -/
def Honest (content : Bytes) (result : Except Fault ParsedHttpResponse) : Prop :=
  ∃ r, result = .ok r ∧ (r.error ≠ [] ∨ r.body = content)

/-! ### Chunked replies -/

/-- A response with a chunked transfer coding. -/
structure ChunkedResponse where
  head : Head
  body : ChunkedBody
  chunked : head.lines.any (·.isChunked) = true
  payload : bodyless head.status.code = false

namespace ChunkedResponse

variable (R : ChunkedResponse)

/-- The bytes of the reply. -/
def raw : Bytes := R.head.render ++ R.body.encode

/-- The head and the sizes are readable, and `n` bytes of the payload reach past the last size
line. -/
def Decodable (n : ℕ) : Prop :=
  R.head.LengthsReadable ∧ ChunkedBody.SizesReadable R.body.chunks ∧ R.body.decodable ≤ n

/-- Parsing a complete head with a prefix `t` of the payload. -/
theorem parse_payload (hw : ¬ R.body.Wraps) {t : Bytes} (ht : t <+: R.body.encode) :
    (R.Decodable t.length ∧
      parseHttpResponse (R.head.render ++ t) =
        .ok (finish R.head.status.code R.body.content)) ∨
    (¬ R.Decodable t.length ∧
      ∃ r, parseHttpResponse (R.head.render ++ t) = .ok r ∧ r.error ≠ []) := by
  rw [R.head.parse_render]
  cases hf : R.head.framing with
  | none =>
    have hbad : ¬ R.head.LengthsReadable := by rw [← R.head.framing_isSome_iff, hf]; simp
    exact Or.inr ⟨fun h => hbad h.1, _, rfl, by dsimp only; decide⟩
  | some f =>
    have hread : R.head.LengthsReadable := by rw [← R.head.framing_isSome_iff, hf]; rfl
    have hch : f.chunked = true := (Head.chunked_of_framing hf).trans R.chunked
    simp only [selectBody, R.payload, hch, Bool.false_eq_true, ↓reduceIte]
    rcases decodeChunked_prefix R.body hw ht with ⟨hsizes, hle, hdec⟩ | ⟨hbad, d, hd, hok, herr⟩
    · refine Or.inl ⟨⟨hread, hsizes, hle⟩, ?_⟩
      simp [hdec]
    · refine Or.inr ⟨fun h => hbad h.2, ?_⟩
      simp only [hd, hok, Bool.false_eq_true, ↓reduceIte]
      exact ⟨_, rfl, herr⟩

/-- **No prefix of a chunked response is taken for the whole.** -/
theorem honest_of_prefix (hw : ¬ R.body.Wraps) {p : Bytes} (hp : p <+: R.raw) :
    Honest R.body.content (parseHttpResponse p) := by
  rcases prefix_append_or hp with ⟨hcut, hlt⟩ | ⟨t, ht, rfl⟩
  · exact ⟨_, R.head.parse_cut hcut hlt, Or.inl (by dsimp only; decide)⟩
  · rcases R.parse_payload hw ht with ⟨-, hparse⟩ | ⟨-, r, hparse, herr⟩
    · exact ⟨_, hparse, Or.inr (finish_body _ _)⟩
    · exact ⟨r, hparse, Or.inl herr⟩

end ChunkedResponse

/-- The line of the last chunk as it is usually sent. -/
def zeroLine : SizeLine where
  size := lit "0"
  ext := []
  digits := ⟨by decide +kernel, by decide, by simp⟩
  ext_line := by simp

/-- A body of chunks ended by `0 CRLF CRLF`. -/
def ChunkedBody.ofChunks (cs : List Chunk) : ChunkedBody := ⟨cs, zeroLine, by decide, crlf⟩

/-- A successful reply framed by the line `Transfer-Encoding: chunked`. -/
structure ChunkedReply where
  head : Head
  chunks : List Chunk
  line : head.HasChunkedLine
  code_ge : 200 ≤ head.status.code
  code_lt : head.status.code < 300
  code_ne : head.status.code ≠ 204

namespace ChunkedReply

variable (R : ChunkedReply)

/-- The body of the reply. -/
def body : ChunkedBody := .ofChunks R.chunks

/-- The bytes of the reply. -/
def raw : Bytes := R.head.render ++ R.body.encode

/-- The length of the reply up to the end of the last size line. -/
def lastLineEnd : ℕ := R.head.render.length + R.body.decodable

theorem raw_length : R.raw.length = R.head.render.length + R.body.encode.length := by
  simp [raw]

theorem not_bodyless : bodyless R.head.status.code = false := by
  have h1 := R.code_ge
  have h2 := R.code_lt
  have h3 := R.code_ne
  simp only [bodyless, Bool.or_eq_false_iff, Bool.and_eq_false_iff, decide_eq_false_iff_not,
    beq_eq_false_iff_ne]
  omega

/-- The reply as a response of the parser. -/
def toResponse : ChunkedResponse := ⟨R.head, R.body, R.line.any_isChunked, R.not_bodyless⟩

/-- **The early stop on a prefix of a chunked reply**: it looks for the mark in the payload. -/
theorem complete_iff {method : Bytes} (hm : method ≠ lit "HEAD") (hfit : R.raw.length < 2 ^ 64)
    {p : Bytes} (hp : p <+: R.raw) :
    httpResponseComplete p method = true ↔ lastChunkMark <:+: p.drop R.head.render.length := by
  rcases prefix_append_or hp with ⟨hcut, hlt⟩ | ⟨t, ht, rfl⟩
  · have hno : ¬ lastChunkMark <:+: [] := by decide
    rw [R.head.complete_cut method hcut hlt, List.drop_eq_nil_of_le (by omega)]
    simpa using hno
  · have hle := hp.length_le
    rw [R.line.complete_iff method hm R.not_bodyless t (by omega), List.drop_left]

/-- The mark of the last chunk stands in every prefix that holds the last size line, if a chunk
precedes it. -/
theorem mark_infix (hne : R.chunks ≠ []) {t : Bytes} (ht : t <+: R.body.encode)
    (hle : R.body.decodable ≤ t.length) : lastChunkMark <:+: t := by
  rcases List.eq_nil_or_concat' R.chunks with hnil | ⟨front, c, hcs⟩
  · exact absurd hnil hne
  · -- the line end after the data of the chunk before it starts the mark
    set u := ChunkedBody.encodeChunks front ++ (c.line.render ++ (crlf ++ c.data)) with hu
    have hz : zeroLine.render = lit "0" := by decide
    have hmark : lastChunkMark = crlf ++ (lit "0" ++ crlf) := by decide
    have henc : R.body.encode = (u ++ lastChunkMark) ++ crlf := by
      simp [body, ChunkedBody.ofChunks, ChunkedBody.encode, ChunkedBody.encodeChunks, hcs, hz,
        hmark, hu, Chunk.encode]
    have hdec : R.body.decodable = (u ++ lastChunkMark).length := by
      simp [body, ChunkedBody.ofChunks, ChunkedBody.decodable, ChunkedBody.encodeChunks, hcs, hz,
        hmark, hu, Chunk.encode]
      omega
    have hmarked : u ++ lastChunkMark <+: R.body.encode := henc ▸ List.prefix_append _ _
    have hpre : u ++ lastChunkMark <+: t :=
      List.prefix_of_prefix_length_le hmarked ht (hdec ▸ hle)
    exact (List.suffix_append u lastChunkMark).isInfix.trans hpre.isInfix

theorem decodable_le : R.body.decodable ≤ R.body.encode.length := by
  simp [ChunkedBody.decodable, ChunkedBody.encode]

/-- A buffer with the mark in its payload holds the whole head. -/
theorem payload_of_mark {p : Bytes} (hp : p <+: R.raw)
    (hmark : lastChunkMark <:+: p.drop R.head.render.length) :
    ∃ t, t <+: R.body.encode ∧ p = R.head.render ++ t := by
  rcases prefix_append_or hp with ⟨-, hlt⟩ | hpay
  · rw [List.drop_eq_nil_of_le (by omega)] at hmark
    exact absurd hmark (by decide)
  · exact hpay

/-- An empty chunk list leaves the payload without the mark. -/
theorem not_mark_infix (h : R.chunks = []) {t : Bytes} (ht : t <+: R.body.encode) :
    ¬ lastChunkMark <:+: t := by
  have henc : R.body.encode = lit "0\r\n\r\n" := by
    simp only [body, ChunkedBody.ofChunks, h]
    decide
  have hno : ¬ lastChunkMark <:+: lit "0\r\n\r\n" := by decide
  exact fun hm => hno (henc ▸ hm.trans ht.isInfix)

/-- No read boundary before the end of the last size line follows a `CRLF 0 CRLF`. -/
def MarkNotEarly (pieces : List Bytes) : Prop :=
  ∀ n, (received pieces n).length < R.lastLineEnd →
    ¬ lastChunkMark <:+: (received pieces n).drop R.head.render.length

section Delivered

variable (hfit : R.raw.length < 2 ^ 64)

include hfit

theorem chunks_fit : (ChunkedBody.encodeChunks R.body.chunks).length < 2 ^ 64 := by
  have hlength := R.raw_length
  have hle := R.decodable_le
  rw [ChunkedBody.decodable] at hle
  omega

/-- A buffer is parsed to the whole reply once it holds the last size line, if the lengths of the
head are readable. -/
theorem parsed_iff {t : Bytes} (ht : t <+: R.body.encode) :
    parsed (R.head.render ++ t) = .response ⟨R.head.status.code, R.body.content, []⟩ ↔
      R.head.LengthsReadable ∧ R.lastLineEnd ≤ (R.head.render ++ t).length := by
  have hchunks := R.chunks_fit hfit
  have hw : ¬ R.toResponse.body.Wraps := ChunkedBody.not_wrapsFrom (by rwa [Nat.zero_add])
  have hsizes : ChunkedBody.SizesReadable R.toResponse.body.chunks :=
    ChunkedBody.sizesReadable hchunks
  have hdec : R.toResponse.Decodable t.length ↔
      R.head.LengthsReadable ∧ R.lastLineEnd ≤ (R.head.render ++ t).length := by
    rw [List.length_append, lastLineEnd, Nat.add_le_add_iff_left]
    exact and_congr_right fun _ => and_iff_right hsizes
  rw [← hdec]
  rcases R.toResponse.parse_payload hw ht with ⟨hd, hparse⟩ | ⟨hd, r, hparse, herr⟩
  · have hparse : parseHttpResponse (R.head.render ++ t) =
        .ok (finish R.head.status.code R.body.content) := hparse
    have h2xx : (200 : ℤ) ≤ R.head.status.code ∧ (R.head.status.code : ℤ) < 300 := by
      exact_mod_cast And.intro R.code_ge R.code_lt
    refine iff_of_true ?_ hd
    rw [parsed, hparse, finish_of_ok h2xx]
  · have hparse : parseHttpResponse (R.head.render ++ t) = .ok r := hparse
    refine iff_of_false (fun hresp => ?_) hd
    rw [parsed, hparse] at hresp
    exact herr (congrArg EngineResponse.error (Exchange.response.inj hresp))

/-- **Where the reading stops**: at the first buffer with the mark in its payload, or never if the
mark does not occur. -/
theorem readLoop_cases {method : Bytes} (hm : method ≠ lit "HEAD") {pieces : List Bytes}
    (hne : ∀ b ∈ pieces, b ≠ []) (hraw : pieces.flatten = R.raw) :
    (∃ n t, received pieces n = R.head.render ++ t ∧ t <+: R.body.encode ∧ lastChunkMark <:+: t ∧
        (∀ m < n, ¬ lastChunkMark <:+: (received pieces m).drop R.head.render.length) ∧
        readLoop method [] (deliver pieces) = (received pieces n, .complete)) ∨
      ¬ lastChunkMark <:+: R.body.encode ∧
        readLoop method [] (deliver pieces) = (R.raw, .waiting) := by
  have hbuf (n : ℕ) : received pieces n <+: R.raw := hraw ▸ received_prefix pieces n
  have hcomplete (n : ℕ) := R.complete_iff hm hfit (hbuf n)
  have hloop := readLoop_deliver method [] pieces hne []
  simp only [List.append_nil, List.nil_append] at hloop
  rcases hloop with ⟨n, -, hcn, hmin, hl⟩ | ⟨hnone, hl⟩
  · have hmark := (hcomplete n).1 hcn
    obtain ⟨t, ht, hp⟩ := R.payload_of_mark (hbuf n) hmark
    rw [hp, List.drop_left] at hmark
    refine Or.inl ⟨n, t, hp, ht, hmark, fun m hm hearly => ?_, hl⟩
    have hno := hmin m hm
    rw [(hcomplete m).2 hearly] at hno
    cases hno
  · have hall := hnone pieces.length
    have hnever := hcomplete pieces.length
    rw [hall, received_all, hraw, raw, List.drop_left] at hnever
    refine Or.inr ⟨fun hmark => Bool.noConfusion (hnever.2 hmark), ?_⟩
    rw [received_all, hraw] at hall
    rw [hl, hraw, readLoop, if_neg (by rw [hall]; exact Bool.noConfusion)]

/-- **A reply with chunks and readable lengths is read whole**, if the mark is not early. -/
theorem exists_readLoop_eq {method : Bytes} (hm : method ≠ lit "HEAD") {pieces : List Bytes}
    (hne : ∀ b ∈ pieces, b ≠ []) (hraw : pieces.flatten = R.raw) (hchunks : R.chunks ≠ [])
    (hread : R.head.LengthsReadable) (hearly : R.MarkNotEarly pieces) :
    ∃ buffer, readLoop method [] (deliver pieces) = (buffer, .complete) ∧
      parsed buffer = .response ⟨R.head.status.code, R.body.content, []⟩ := by
  rcases R.readLoop_cases hfit hm hne hraw with ⟨n, t, hp, ht, hmark, -, hl⟩ | ⟨hno, -⟩
  · have hend : R.lastLineEnd ≤ (received pieces n).length := by
      by_contra hlt
      refine hearly n (by omega) ?_
      rw [hp, List.drop_left]
      exact hmark
    rw [hp] at hl hend
    exact ⟨_, hl, (R.parsed_iff hfit ht).2 ⟨hread, hend⟩⟩
  · -- with a chunk before the last size line the mark occurs
    exact absurd (R.mark_infix hchunks (List.prefix_refl _) R.decodable_le) hno

end Delivered

end ChunkedReply

theorem request_sent (strerror : Errno → Bytes) {socketPath method path body : Bytes}
    {c : Connection} (hpath : socketPath.length < 108) (hsent : c.Sent method path body)
    (later : List Connection) {raw : Bytes} (hraw : readLoop method [] c.reads = (raw, .complete)) :
    request strerror socketPath method path body (c :: later) = parsed raw := by
  have hp : ¬ 108 ≤ socketPath.length := by omega
  simp only [request, hsent.socket, hp, ↓reduceIte, hsent.connect, hsent.writes, hraw]

/-- **When a chunked reply on an open connection comes back whole.**  The reading must stop by the
early stop, within the pieces; it does so at the first buffer whose payload contains
`CRLF 0 CRLF`. -/
theorem request_chunked_iff (R : ChunkedReply) (hfit : R.raw.length < 2 ^ 64)
    (pieces : List Bytes) (hne : ∀ b ∈ pieces, b ≠ []) (hraw : pieces.flatten = R.raw)
    (strerror : Errno → Bytes) (socketPath method path body : Bytes)
    (hpath : socketPath.length < 108) (hm : method ≠ lit "HEAD") (c : Connection)
    (later : List Connection) (hsent : c.Sent method path body)
    (hreads : c.reads = deliver pieces) :
    ((readLoop method [] c.reads).2 = .complete ∧
      request strerror socketPath method path body (c :: later) =
        .response ⟨R.head.status.code, R.body.content, []⟩) ↔
    R.chunks ≠ [] ∧ R.head.LengthsReadable ∧ R.MarkNotEarly pieces := by
  constructor
  · rintro ⟨hstop, hresp⟩
    have hcases := R.readLoop_cases hfit hm hne hraw
    rw [← hreads] at hcases
    rcases hcases with ⟨n, t, hp, ht, hmark, hmin, hl⟩ | ⟨-, hl⟩
    · rw [request_sent strerror hpath hsent later hl, hp, R.parsed_iff hfit ht] at hresp
      obtain ⟨hread, hend⟩ := hresp
      refine ⟨fun hnil => R.not_mark_infix hnil ht hmark, hread, ?_⟩
      intro m hlt hearly
      -- a mark at `m` stops the loop no later, with the last size line still to come
      have hnm : n ≤ m := not_lt.1 fun hmn => hmin m hmn hearly
      have hlen := (received_mono pieces hnm).length_le
      rw [hp] at hlen
      omega
    · rw [hl] at hstop
      cases hstop
  · rintro ⟨hchunks, hread, hearly⟩
    obtain ⟨buffer, hl, hparsed⟩ := R.exists_readLoop_eq hfit hm hne hraw hchunks hread hearly
    rw [← hreads] at hl
    exact ⟨by rw [hl], (request_sent strerror hpath hsent later hl).trans hparsed⟩

/-! ### Three replies -/

/-- The head `HTTP/1.1 200 OK` with one header line. -/
def okHead (line : HeaderLine) : Head where
  status := ⟨lit "HTTP/1.1", 200, lit "OK", by decide, by decide +kernel, by decide, by decide,
    by decide⟩
  lines := [line]

/-- The line that declares chunks. -/
def chunkedLine : HeaderLine :=
  ⟨lit "Transfer-Encoding", lit " chunked", by decide +kernel, by decide, by decide⟩

/-- A reply of these chunks. -/
def chunkedReply (chunks : List Chunk) : ChunkedReply where
  head := okHead chunkedLine
  chunks := chunks
  line := ⟨chunkedLine, by simp [okHead], rfl, rfl⟩
  code_ge := by decide
  code_lt := by decide
  code_ne := by decide

/-- The chunk `hello`. -/
def helloChunk : Chunk where
  line := ⟨lit "5", [], ⟨by decide +kernel, by decide, by simp⟩, by simp⟩
  data := lit "hello"
  line_value := by decide
  data_ne := by decide

/-- A chunk whose data holds the mark. -/
def markChunk : Chunk where
  line := ⟨lit "6", [], ⟨by decide +kernel, by decide, by simp⟩, by simp⟩
  data := lit "\r\n0\r\n!"
  line_value := by decide
  data_ne := by decide

/-- A connection that delivers the pieces and stays open. -/
def openConnection (pieces : List Bytes) : Connection where
  socket := .ok ()
  connect := .ok ()
  writes := [.ok (wireRequest (lit "GET") (lit "/") []).length]
  reads := deliver pieces

/-- The client's `request` on `openConnection`. -/
def requestOpen (pieces : List Bytes) : Exchange :=
  request (fun _ => []) (lit "/var/run/docker.sock") (lit "GET") (lit "/") []
    [openConnection pieces]

theorem request_hello : (readLoop (lit "GET") [] (deliver [(chunkedReply [helloChunk]).raw])).2 =
      .complete ∧
    requestOpen [(chunkedReply [helloChunk]).raw] = .response ⟨200, lit "hello", []⟩ := by
  refine (request_chunked_iff (chunkedReply [helloChunk]) (by decide +kernel)
    [(chunkedReply [helloChunk]).raw] (by decide +kernel) (by simp) (fun _ => [])
    (lit "/var/run/docker.sock") (lit "GET") (lit "/") [] (by decide) (by decide)
    (openConnection [(chunkedReply [helloChunk]).raw]) [] ⟨rfl, rfl, by decide +kernel⟩ rfl).2
    ⟨by decide, by decide +kernel, ?_⟩
  intro n hlt
  cases n with
  | zero => decide
  | succ n =>
    have hall : received [(chunkedReply [helloChunk]).raw] (n + 1) =
        (chunkedReply [helloChunk]).raw := by simp [received]
    rw [hall] at hlt
    exact absurd hlt (by decide +kernel)

/-- **A reply without chunks is never complete, and data with the mark completes it early.** -/
theorem request_chunked_fails :
    readLoop (lit "GET") [] (deliver [(chunkedReply []).raw]) =
        ((chunkedReply []).raw, .waiting) ∧
      requestOpen [(chunkedReply []).raw] = .waiting ∧
      requestOpen [(chunkedReply [markChunk]).raw.take 57, (chunkedReply [markChunk]).raw.drop 57] =
        .response ⟨200, [], lit "Truncated chunk data."⟩ := by
  decide +kernel

end Http

end TuxDock
