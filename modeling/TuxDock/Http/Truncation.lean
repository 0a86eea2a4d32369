import TuxDock.Http.Delivery

/-!
# No silent truncation

What the parser makes of the bytes the read loop holds when it ends, whether the peer has closed
the connection or the early stop has fired: an error, or the complete body.

* `LengthResponse.honest_of_prefix`, `LengthResponse.enforced` : the one announced length the
  parser does not enforce is `2^64 - 1`, which is also its mark for no length at all;
* `ChunkedResponse.honest_of_prefix` : a chunked body is decoded completely or reported, unless
  the size of a chunk takes the offset past `2^64`;
* `no_silent_truncation` : **no part of a response is taken for the whole**, for every split into
  reads.
-/

namespace TuxDock

namespace Http

open Text Search

/-- A response framed by one Content-Length line. -/
structure LengthResponse where
  head : Head
  body : Bytes
  line : HeaderLine
  only : head.lines.filter (·.isContentLength) = [line]
  digits : DigitsThen 10 (trim line.value) []
  length : numeral 10 (trim line.value) = body.length
  not_chunked : head.lines.any (·.isChunked) = false
  payload : bodyless head.status.code = false

namespace LengthResponse

variable (R : LengthResponse)

/-- The bytes of the response. -/
def raw : Bytes := R.head.render ++ R.body

theorem framing_eq : R.head.framing =
    if R.body.length < 2 ^ 64 then some ⟨R.body.length, false⟩ else none := by
  have hread : R.line.length? = if R.body.length < 2 ^ 64 then some R.body.length else none := by
    have h := R.digits.stoull_ite (Or.inl rfl)
    rw [List.append_nil, R.length] at h
    rw [HeaderLine.length?, R.digits.lower_eq, h]
  rw [Head.framing_eq, R.only, List.mapM_cons, List.mapM_nil, hread, R.not_chunked]
  split_ifs <;> rfl

/-- The length is read and is not taken for no length at all. -/
def Enforced : Prop := R.body.length < npos

/-- Parsing a complete head with a prefix of the body, when the parser enforces the length. -/
theorem parse_enforced (h : R.Enforced) (t : Bytes) :
    parseHttpResponse (R.head.render ++ t) =
      if t.length < R.body.length then
        .ok { statusCode := R.head.status.code, error := lit "Truncated HTTP response body." }
      else .ok (finish R.head.status.code (substr t 0 R.body.length)) := by
  have hlt : R.body.length < 2 ^ 64 := Nat.lt_trans h (by decide)
  have hne : R.body.length ≠ npos := Nat.ne_of_lt h
  rw [R.head.parse_render, R.framing_eq, if_pos hlt]
  simp only [selectBody, R.payload, hne, ne_eq, not_false_eq_true, ↓reduceIte, Bool.false_eq_true]

theorem parse_npos (h : R.body.length = npos) (t : Bytes) :
    parseHttpResponse (R.head.render ++ t) = .ok (finish R.head.status.code t) := by
  rw [R.head.parse_render, R.framing_eq, if_pos (by rw [h]; decide), h]
  simp [selectBody, R.payload]

theorem parse_too_long (h : 2 ^ 64 ≤ R.body.length) (t : Bytes) :
    parseHttpResponse (R.head.render ++ t) =
      .ok { statusCode := R.head.status.code, error := lit "Invalid Content-Length." } := by
  rw [R.head.parse_render, R.framing_eq, if_neg (by omega)]

/-- A successful response whose length is the mark for no length. -/
def Unenforced : Prop :=
  200 ≤ R.head.status.code ∧ R.head.status.code < 300 ∧ R.body.length = npos

/-- **No prefix is taken for the whole**, unless the length goes unenforced. -/
theorem honest_of_prefix (h : ¬ R.Unenforced) {p : Bytes} (hp : p <+: R.raw) :
    Honest R.body (parseHttpResponse p) := by
  rcases prefix_append_or hp with ⟨hcut, hlt⟩ | ⟨t, ht, rfl⟩
  · exact ⟨_, R.head.parse_cut hcut hlt, Or.inl (by dsimp only; decide)⟩
  · have htlen := ht.length_le
    have hnpos : npos + 1 = 2 ^ 64 := by decide
    -- enforced, taken for no length, or not readable at all
    rcases Nat.lt_trichotomy R.body.length npos with hlen | hlen | hlen
    · rw [R.parse_enforced hlen]
      split_ifs with hshort
      · exact ⟨_, rfl, Or.inl (by dsimp only; decide)⟩
      · have hall : t = R.body := ht.eq_of_length (by omega)
        refine ⟨_, rfl, Or.inr ?_⟩
        rw [finish_body, hall]
        exact List.take_length
    · rw [R.parse_npos hlen]
      refine ⟨_, rfl, Or.inl (finish_error_ne R.payload (fun h2xx => h ?_) t)⟩
      exact ⟨by exact_mod_cast h2xx.1, by exact_mod_cast h2xx.2, hlen⟩
    · rw [R.parse_too_long (by omega)]
      exact ⟨_, rfl, Or.inl (by dsimp only; decide)⟩

/-- A response cut after its head passes for one without a body. -/
theorem not_honest_head (h : R.Unenforced) : ¬ Honest R.body (parseHttpResponse R.head.render) := by
  obtain ⟨hge, hlt, hlen⟩ := h
  have hparse := R.parse_npos hlen []
  rw [List.append_nil, finish_of_ok (by exact_mod_cast And.intro hge hlt)] at hparse
  rintro ⟨r, hr, herr | hbody⟩
  · rw [hparse] at hr
    cases hr
    exact herr rfl
  · rw [hparse] at hr
    cases hr
    rw [← hbody] at hlen
    have hzero : 0 = npos := hlen
    exact absurd hzero (by decide)

end LengthResponse

/-- The bytes read when the pieces have been delivered and the peer has closed the connection, or
the early stop has ended the reading before. -/
def bytesRead (method : Bytes) (pieces : List Bytes) : Bytes :=
  (readLoop method [] (deliver pieces ++ [.ok []])).1

/-- The reading may end anywhere: after one piece it ends with that piece. -/
theorem bytesRead_single (method : Bytes) {b : Bytes} (hb : b ≠ []) : bytesRead method [b] = b := by
  obtain ⟨a, l, rfl⟩ := List.exists_cons_of_ne_nil hb
  have hnone : find [] (crlf ++ crlf) 0 = none := by decide
  have hempty : httpResponseComplete [] method = false := by
    simp only [httpResponseComplete, hnone]
  simp only [bytesRead, deliver, List.map_cons, List.map_nil, List.cons_append, List.nil_append,
    readLoop, hempty, Bool.false_eq_true, ↓reduceIte]
  split_ifs <;> rfl

/-- A response that announces the length of its body, or one that sends it in chunks. -/
inductive FramedResponse where
  | length (R : LengthResponse)
  | chunked (R : ChunkedResponse)

namespace FramedResponse

/-- The bytes of the response. -/
def raw : FramedResponse → Bytes
  | length R => R.raw
  | chunked R => R.raw

/-- Its body. -/
def body : FramedResponse → Bytes
  | length R => R.body
  | chunked R => R.body.content

/-- However much of it arrives and in whatever pieces, no part is taken for the whole. -/
def NeverTruncated (R : FramedResponse) : Prop :=
  ∀ method pieces, (∀ b ∈ pieces, b ≠ []) → pieces.flatten <+: R.raw →
    Honest R.body (parseHttpResponse (bytesRead method pieces))

/-- The announced length is not the parser's mark for no length; no chunk size wraps. -/
def Enforced : FramedResponse → Prop
  | length R => ¬ R.Unenforced
  | chunked R => ¬ R.body.Wraps

end FramedResponse

/-- A part of the response is what the parser sees. -/
theorem bytesRead_isPrefix {R : FramedResponse} (method : Bytes) {pieces : List Bytes}
    (hne : ∀ b ∈ pieces, b ≠ []) (hp : pieces.flatten <+: R.raw) :
    bytesRead method pieces <+: R.raw :=
  (readLoop_isPrefix method pieces hne).trans hp

theorem LengthResponse.enforced (R : LengthResponse)
    (h : (FramedResponse.length R).NeverTruncated) : ¬ R.Unenforced := by
  intro hu
  refine R.not_honest_head hu ?_
  have hhead : R.head.render ≠ [] := by
    rw [← List.length_pos_iff, R.head.render_length]
    omega
  have hcut := h [] [R.head.render] (by simpa using hhead)
    (by simp [FramedResponse.raw, LengthResponse.raw])
  rwa [bytesRead_single [] hhead] at hcut

/-- **No silent truncation.**  However much of a response arrives and in whatever pieces, the
parser reports an error or returns the complete body, if the announced length is not the parser's
mark for no length and the chunk sizes do not wrap; for an announced length, only then. -/
theorem no_silent_truncation (R : FramedResponse) :
    (R.Enforced → R.NeverTruncated) ∧
      ∀ announced, R = .length announced → R.NeverTruncated → R.Enforced := by
  constructor
  · intro h method pieces hne hp
    have hread := bytesRead_isPrefix method hne hp
    cases R with
    | length R => exact R.honest_of_prefix h hread
    | chunked R => exact R.honest_of_prefix h hread
  · rintro announced rfl
    exact announced.enforced

/-! ### A response cut after its head -/

/-- A response with one Content-Length line and a body of zeros. -/
def zerosResponse (line : HeaderLine) (hl : line.isContentLength)
    (digits : DigitsThen 10 (trim line.value) []) : LengthResponse where
  head := okHead line
  body := List.replicate (numeral 10 (trim line.value)) 0
  line := line
  only := by simp [okHead, hl]
  digits := digits
  length := by rw [List.length_replicate]
  not_chunked := by
    rw [Bool.eq_false_iff, ne_eq, List.any_eq_true]
    rintro ⟨h, hh, hc⟩
    obtain rfl : h = line := by simpa [okHead] using hh
    exact HeaderLine.not_isContentLength_of_isChunked (of_decide_eq_true hc) hl
  payload := show bodyless (200 : ℕ) = false by decide

/-- The line `Content-Length: 18446744073709551615`. -/
def nposLine : HeaderLine :=
  ⟨lit "Content-Length", lit " 18446744073709551615", by decide +kernel, by decide, by decide⟩

/-- The line `content-length: 5`. -/
def fiveLine : HeaderLine :=
  ⟨lit "content-length", lit " 5", by decide +kernel, by decide, by decide⟩

/-- A response that declares `npos` bytes. -/
def nposResponse : LengthResponse :=
  zerosResponse nposLine (by decide) ⟨by decide +kernel, by decide, by simp⟩

/-- A response that declares five bytes. -/
def fiveResponse : LengthResponse :=
  zerosResponse fiveLine (by decide) ⟨by decide +kernel, by decide, by simp⟩

theorem no_silent_truncation_hello :
    Honest fiveResponse.body
      (parseHttpResponse (bytesRead (lit "GET") [fiveResponse.head.render, [0, 0]])) ∧
    Honest (lit "hello") (parseHttpResponse
      (bytesRead (lit "GET") [(chunkedReply [helloChunk]).raw.take 60])) := by
  have hfive : (FramedResponse.length fiveResponse).Enforced :=
    fun h => absurd h.2.2 (by decide +kernel)
  have hhello : (FramedResponse.chunked (chunkedReply [helloChunk]).toResponse).Enforced :=
    ChunkedBody.not_wrapsFrom (by decide +kernel)
  exact ⟨(no_silent_truncation (.length fiveResponse)).1 hfive (lit "GET") _ (by decide +kernel)
      (by decide +kernel),
    (no_silent_truncation (.chunked (chunkedReply [helloChunk]).toResponse)).1 hhello (lit "GET") _
      (by decide +kernel) (by decide +kernel)⟩

/-- **Cut after its head, a response of `2^64 - 1` bytes is taken for an empty one.** -/
theorem silent_truncation :
    parseHttpResponse (bytesRead (lit "GET") [nposResponse.head.render]) = .ok ⟨200, [], []⟩ ∧
      nposResponse.body.length = 2 ^ 64 - 1 ∧
      ¬ Honest nposResponse.body
        (parseHttpResponse (bytesRead (lit "GET") [nposResponse.head.render])) := by
  have hlen : nposResponse.body.length = 2 ^ 64 - 1 :=
    List.length_replicate.trans (by decide)
  have hread : bytesRead (lit "GET") [nposResponse.head.render] = nposResponse.head.render :=
    bytesRead_single _ (by decide)
  refine ⟨by rw [hread]; decide +kernel, hlen, ?_⟩
  rw [hread]
  exact nposResponse.not_honest_head ⟨by decide, by decide, hlen⟩

end Http

end TuxDock
