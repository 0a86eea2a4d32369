import TuxDock.Http.Framing
import TuxDock.Http.Delivery
import TuxDock.Http.Offsets

/-!
# Where a response ends

What the read loop of the client makes of a response that announces the length of its body, and of
one that announces nothing, for every split into reads.

* `request_length_iff` : **a response with one Content-Length line is complete with its last byte
  and not before**, so that the reading stops there; and its body comes back exactly when no other
  line frames it all the same (a blank before the colon hides the name from the search, not from the
  parser);
* `blankReply_cut` : a response that is cut by such a line;
* `keptWhole_iff` : **a response without such words is read until the peer closes, and its payload
  is kept, exactly when no line frames it all the same and, without any header line, the payload
  does not look like headers**;
* `imitation_cut` : a payload that does.
-/

namespace TuxDock

namespace Http

open Text Search

/-! ### What the parser keeps -/

/-- The header lines, with the blanks around names and values ignored, leave the payload whole: by
not framing it, by its own length, or by a coding that it is the encoding of itself in, which takes
a size that wraps around (`decoded_self_wraps`). -/
def RawHead.FramingKeeps (hd : RawHead) (payload : Bytes) : Prop :=
  ∃ f, hd.framing = some f ∧
    (f.delimiter = .close ∨ f.delimiter = .length payload.length ∨
      f.delimiter = .chunked ∧ decodeChunked payload = .ok ⟨true, payload, []⟩)

/-- The errors of `decodeChunked`. -/
def decodeErrors : List Bytes :=
  [lit "Missing terminating chunk.", lit "Truncated chunk size.", lit "Invalid chunk size.",
    lit "Truncated chunk data."]

theorem decodeStep_stop {input : Bytes} {offset : ℕ} {body : Bytes} {d : Decoded}
    (h : decodeStep input offset body = .stop (.ok d)) :
    d.ok = true ∧ d.error = [] ∨ d.ok = false ∧ d.error ∈ decodeErrors := by
  unfold decodeStep at h
  split_ifs at h
  · split at h
    · cases h; exact Or.inr ⟨rfl, by simp [decodeErrors]⟩
    · split at h
      · cases h; exact Or.inr ⟨rfl, by simp [decodeErrors]⟩
      · dsimp only at h
        split_ifs at h <;> cases h
        · exact Or.inl ⟨rfl, rfl⟩
        · exact Or.inr ⟨rfl, by simp [decodeErrors]⟩
        · exact Or.inr ⟨rfl, by simp [decodeErrors]⟩
  · cases h; exact Or.inr ⟨rfl, by simp [decodeErrors]⟩

/-- A decoded payload comes without an error, and any other with one of the four. -/
theorem decodeLoop_error {input : Bytes} {fuel offset : ℕ} {body : Bytes} {d : Decoded}
    (h : decodeLoop input fuel offset body = .ok d) :
    d.ok = true ∧ d.error = [] ∨ d.ok = false ∧ d.error ∈ decodeErrors := by
  induction fuel generalizing offset body with
  | zero => cases h
  | succ fuel ih =>
    rw [decodeLoop] at h
    cases hstep : decodeStep input offset body with
    | stop result =>
      rw [hstep] at h
      dsimp only at h
      exact decodeStep_stop (h ▸ hstep)
    | next offset' body' =>
      rw [hstep] at h
      exact ih h

/-- None of the errors is a payload that is kept. -/
theorem body_ne_of_decodeErrors {input : Bytes} (hin : input ∈ decodeErrors) {d : Decoded}
    (h : decodeChunked input = .ok d) : d.body ≠ input := by
  have key : ∀ e ∈ decodeErrors, e ≠ [] ∧
      decodeChunked e = .ok ⟨false, [], lit "Truncated chunk size."⟩ := by decide +kernel
  obtain ⟨hne, hdec⟩ := key input hin
  rw [hdec] at h
  cases h
  exact hne.symm

/-- A result with an error of its own keeps the payload of no response. -/
theorem finish_ne {statusCode : ℤ} (hb : bodyless statusCode = false) {payload body error : Bytes}
    (herr : error ≠ []) (hfail : error ≠ lit "Docker Engine request failed.")
    (hpay : error = payload → body ≠ payload) :
    ({ statusCode, body, error } : ParsedHttpResponse) ≠ finish statusCode payload := by
  intro h
  have hbody := congrArg ParsedHttpResponse.body h
  have herror := congrArg ParsedHttpResponse.error h
  rw [finish_body] at hbody
  have h304 : statusCode ≠ 304 := by rintro rfl; simp [bodyless] at hb
  unfold finish at herror
  split_ifs at herror with h2xx hnil
  · exact hfail herror
  · exact hpay herror hbody
  · exact herr herror

/-- The part of a payload that is the whole of it. -/
theorem finish_substr_iff {statusCode : ℤ} {payload : Bytes} {n : ℕ} (hn : n ≤ payload.length) :
    finish statusCode (substr payload 0 n) = finish statusCode payload ↔ n = payload.length := by
  constructor
  · intro h
    have hbody := congrArg ParsedHttpResponse.body h
    rw [finish_body, finish_body] at hbody
    have hlen := congrArg List.length hbody
    rw [substr, List.drop_zero, List.length_take] at hlen
    omega
  · rintro rfl
    rw [substr, List.drop_zero, List.take_length]

section Select

variable {statusCode : ℤ} (hb : bodyless statusCode = false) {payload : Bytes}

include hb

theorem parse_chunked_iff :
    parseBy statusCode payload (some .chunked) = .ok (finish statusCode payload) ↔
      Delimiter.chunked = .close ∨ Delimiter.chunked = .length payload.length ∨
        Delimiter.chunked = .chunked ∧ decodeChunked payload = .ok ⟨true, payload, []⟩ := by
  simp only [reduceCtorEq, true_and, false_or, parseBy, selectBody, hb, Bool.false_eq_true,
    ↓reduceIte]
  cases hdec : decodeChunked payload with
  | error fault => simp
  | ok d =>
    rcases decodeLoop_error hdec with ⟨hok, herr⟩ | ⟨hok, herr⟩
    · -- decoded: the content is the payload, or not
      obtain ⟨ok, body, error⟩ := d
      dsimp only at hok herr
      subst hok herr
      simp only [↓reduceIte, Except.ok.injEq, Decoded.mk.injEq, true_and, and_true]
      constructor
      · intro h
        have hbody := congrArg ParsedHttpResponse.body h
        rwa [finish_body, finish_body] at hbody
      · rintro rfl
        rfl
    · simp only [hok, Bool.false_eq_true, ↓reduceIte]
      refine iff_of_false (fun h => ?_) (by rintro h; cases h; cases hok)
      refine finish_ne hb ?_ ?_ ?_ (Except.ok.inj h)
      · rintro hnil
        rw [hnil] at herr
        revert herr
        decide
      · rintro hfail
        rw [hfail] at herr
        revert herr
        decide
      · intro he
        exact body_ne_of_decodeErrors (he ▸ herr) hdec

theorem parse_length_iff {n : ℕ} (hn : n ≠ npos) :
    parseBy statusCode payload (some (.length n)) = .ok (finish statusCode payload) ↔
      Delimiter.length n = .close ∨ Delimiter.length n = .length payload.length ∨
        Delimiter.length n = .chunked ∧ decodeChunked payload = .ok ⟨true, payload, []⟩ := by
  simp only [reduceCtorEq, false_and, false_or, or_false, Delimiter.length.injEq, parseBy,
    selectBody, hb, hn, Bool.false_eq_true, ne_eq, not_false_eq_true, ↓reduceIte]
  split_ifs with hshort
  · refine iff_of_false (fun h => ?_) (by omega)
    refine finish_ne hb (by decide) (by decide) (fun he => ?_) (Except.ok.inj h)
    rw [← he]
    decide
  · rw [Except.ok.injEq]
    exact finish_substr_iff (not_lt.1 hshort)

end Select

/-- **The parser keeps the payload whole exactly when the header lines do.** -/
theorem RawHead.parse_whole_iff (hd : RawHead) (hcode : readStatusCode hd.status ≠ 0)
    (hb : bodyless (readStatusCode hd.status) = false) (payload : Bytes) :
    parseHttpResponse (hd.render ++ payload) = .ok (finish (readStatusCode hd.status) payload) ↔
      hd.FramingKeeps payload := by
  rw [hd.parse_render hcode, RawHead.FramingKeeps]
  cases hf : hd.framing with
  | none =>
    refine iff_of_false (fun h => ?_) (by simp)
    refine finish_ne hb (by decide) (by decide) (fun he => ?_) (Except.ok.inj h)
    rw [← he]
    decide
  | some f =>
    simp only [Option.some.injEq, exists_eq_left', selectBody_eq]
    cases hd : f.delimiter with
    | chunked => exact parse_chunked_iff hb
    | length n => exact parse_length_iff hb (Framing.ne_npos hd)
    | close =>
      refine iff_of_true ?_ (Or.inl rfl)
      simp [parseBy, selectBody, hb]

/-- Without a size that wraps around, no coding keeps the payload. -/
theorem RawHead.FramingKeeps.delimiter_eq {hd : RawHead} {payload : Bytes}
    (h : hd.FramingKeeps payload) (hno : ¬ SizeWraps payload) :
    ∃ f, hd.framing = some f ∧ (f.delimiter = .close ∨ f.delimiter = .length payload.length) := by
  obtain ⟨f, hf, hclose | hlength | ⟨-, hself⟩⟩ := h
  · exact ⟨f, hf, Or.inl hclose⟩
  · exact ⟨f, hf, Or.inr hlength⟩
  · exact absurd (decoded_self_wraps hself) hno

/-! ### One Content-Length line -/

/-- A successful response framed by a line `Content-Length: N`, the only place where its header
block has these words, and which has no `transfer-encoding:` either. -/
structure LengthReply where
  head : RawHead
  body : Bytes
  front : List Bytes
  number : Bytes
  back : List Bytes
  lines : head.lines = front ++ (lit "Content-Length: " ++ number) :: back
  /-- The number is the decimal length of the body. -/
  digits : DigitsThen 10 number []
  length : numeral 10 number = body.length
  /-- The words do not stand elsewhere in the block, in whatever case. -/
  one_text : ∀ i, lit "content-length:" <+: (lower head.block).drop i →
    i = (joinLines front).length
  no_coding : ¬ lit "transfer-encoding:" <:+: lower head.block
  code_ge : 200 ≤ readStatusCode head.status
  code_lt : readStatusCode head.status < 300
  code_ne : readStatusCode head.status ≠ 204

theorem not_chunkedText {block : Bytes} (h : ¬ lit "transfer-encoding:" <:+: lower block) :
    ¬ ChunkedText block := by
  rintro ⟨text, ⟨before, rfl⟩, hte, -⟩
  refine h ?_
  have hlow : lit "transfer-encoding:" = lower (lit "Transfer-Encoding:") := by decide
  rw [hlow]
  exact lower_isInfix (hte.isInfix.trans (List.suffix_append before text).isInfix)

theorem lineText_append {u : Bytes} (hu : ¬ crlf <:+: u) (v : Bytes) :
    lineText (u ++ (crlf ++ v)) = u := by
  rw [lineText, indexOf_crlf_line hu, Option.getD_some, List.take_left]

theorem lineText_eq_self {u : Bytes} (hu : ¬ crlf <:+: u) : lineText u = u := by
  rw [lineText, indexOf_eq_none_iff.2 hu, Option.getD_none, List.take_length]

theorem lineText_joinLines {u : Bytes} (hu : ¬ crlf <:+: u) (lines : List Bytes) :
    lineText (u ++ joinLines lines) = u := by
  cases lines with
  | nil => rw [joinLines_nil, List.append_nil, lineText_eq_self hu]
  | cons l lines => rw [joinLines_cons, lineText_append hu]

namespace LengthReply

variable (R : LengthReply)

/-- The bytes of the reply. -/
def raw : Bytes := R.head.render ++ R.body

theorem lines_ne : R.head.lines ≠ [] := by
  rw [R.lines]
  simp

theorem not_bodyless : bodyless (readStatusCode R.head.status) = false := by
  have h1 := R.code_ge
  have h2 := R.code_lt
  have h3 := R.code_ne
  simp only [bodyless, Bool.or_eq_false_iff, Bool.and_eq_false_iff, decide_eq_false_iff_not,
    beq_eq_false_iff_ne]
  omega

theorem block_drop : R.head.block.drop (joinLines R.front).length =
    lit "Content-Length: " ++ (R.number ++ joinLines R.back) := by
  have hjoin : crlf ++ R.head.block =
      joinLines R.front ++
        (crlf ++ (lit "Content-Length: " ++ (R.number ++ joinLines R.back))) := by
    rw [← R.head.joinLines_eq R.lines_ne, R.lines, joinLines_append, joinLines_cons,
      List.append_assoc]
  have hblock : R.head.block = (joinLines R.front ++
      (crlf ++ (lit "Content-Length: " ++ (R.number ++ joinLines R.back)))).drop 2 := by
    rw [← hjoin]; rfl
  rw [hblock, List.drop_drop, Nat.add_comm, ← List.drop_drop, List.drop_left]
  rfl

theorem digit_notMem : (13 : UInt8) ∉ R.number := by
  intro h
  exact absurd (R.digits.digits 13 h) (by decide)

theorem trim_number : trim (32 :: R.number) = R.number := by
  have hself : trim R.number = R.number := trim_eq_self fun c hc =>
    (not_blank_of_isDigit (by omega) (R.digits.digits c hc)).2.1
  rw [trim, List.dropWhile_cons_of_pos (by decide)]
  exact hself

theorem stoull_number (hfit : R.body.length < 2 ^ 64) :
    stoull 10 R.number = some R.body.length := by
  have hread := R.digits.stoull_eq (Or.inl rfl) (by rwa [R.length])
  rwa [List.append_nil, R.length] at hread

theorem firstLength (hfit : R.body.length < 2 ^ 64) : FirstLength R.head.block R.body.length := by
  have hlabel : lower (lit "Content-Length: ") = lit "content-length: " := by decide
  have hocc : lit "content-length:" <+: (lower R.head.block).drop (joinLines R.front).length := by
    rw [← lower_drop, R.block_drop, lower_append, hlabel]
    exact List.IsPrefix.trans (by decide) (List.prefix_append _ _)
  obtain ⟨i, -, hi⟩ := exists_indexOf_le hocc
  obtain rfl := R.one_text i (prefix_of_indexOf hi)
  have htail : R.head.block.drop ((joinLines R.front).length + 15) =
      (32 :: R.number) ++ joinLines R.back := by
    rw [← List.drop_drop, R.block_drop]
    rfl
  have hline : ¬ crlf <:+: 32 :: R.number := by
    refine not_crlf_infix fun hmem => ?_
    rcases List.mem_cons.1 hmem with h32 | hmem
    · exact absurd h32 (by decide)
    · exact R.digit_notMem hmem
  refine ⟨_, hi, ?_⟩
  rw [htail, lineText_joinLines hline, R.trim_number, R.stoull_number hfit]

section Fits

variable (hfit : R.raw.length < 2 ^ 64)

include hfit

theorem length_body_lt : R.head.render.length + R.body.length < 2 ^ 64 := by
  rwa [raw, List.length_append] at hfit

theorem announces :
    ¬ announcesChunked R.head.block = true ∧
      announcedLength R.head.block = some R.body.length := by
  have hsum := R.length_body_lt hfit
  have hblock := R.head.length_block_le
  exact ⟨fun h => not_chunkedText R.no_coding (announcesChunked_iff.1 h),
    (announcedLength_eq_some_iff (by omega)).2 (R.firstLength (by omega))⟩

/-- **The response is complete with its last byte, and on no proper prefix.** -/
theorem complete_iff {method : Bytes} (hm : method ≠ lit "HEAD") {p : Bytes} (hp : p <+: R.raw) :
    httpResponseComplete p method = true ↔ p = R.raw :=
  R.head.complete_length_iff method hm R.not_bodyless R.lines_ne (R.announces hfit).1
    (R.announces hfit).2 hfit hp

end Fits

theorem code_2xx : 200 ≤ readStatusCode R.head.status ∧ readStatusCode R.head.status < 300 :=
  ⟨R.code_ge, R.code_lt⟩

/-- **The whole response is parsed to its body exactly when the header lines keep it.** -/
theorem parsed_raw_iff :
    parsed R.raw = .response ⟨readStatusCode R.head.status, R.body, []⟩ ↔
      R.head.FramingKeeps R.body := by
  have hcode : readStatusCode R.head.status ≠ 0 := by
    have := R.code_ge
    omega
  rw [← R.head.parse_whole_iff hcode R.not_bodyless, finish_of_ok R.code_2xx, parsed, raw]
  cases parseHttpResponse (R.head.render ++ R.body) with
  | error fault => simp
  | ok r =>
    obtain ⟨code, body, error⟩ := r
    simp

end LengthReply

/-- **A response with one Content-Length line, in any split into reads.**  No proper prefix of it is
complete, the whole is; so the reading stops with the last byte, whatever the connection would
answer next.  The request returns the body and no error exactly when the header lines keep it: a
line in which a blank stands before the colon is hidden from the search, not from the parser. -/
theorem request_length_iff (R : LengthReply) (hfit : R.raw.length < 2 ^ 64) (pieces : List Bytes)
    (hne : ∀ b ∈ pieces, b ≠ []) (hraw : pieces.flatten = R.raw)
    (strerror : Errno → Bytes) (socketPath method path body : Bytes)
    (hpath : socketPath.length < 108) (hm : method ≠ lit "HEAD") (c : Connection)
    (later : List Connection) (hsent : c.Sent method path body) (rest : List (Except Errno Bytes))
    (hreads : c.reads = deliver pieces ++ rest) :
    (∀ p, p <+: R.raw → (httpResponseComplete p method = true ↔ p = R.raw)) ∧
      readLoop method [] c.reads = (R.raw, .complete) ∧
      (request strerror socketPath method path body (c :: later) =
          .response ⟨readStatusCode R.head.status, R.body, []⟩ ↔
        R.head.FramingKeeps R.body) := by
  have hcomplete (p : Bytes) (hp : p <+: R.raw) := R.complete_iff hfit hm hp
  have hread : readLoop method [] c.reads = (R.raw, .complete) := by
    rw [hreads]
    exact readLoop_of_complete_iff hcomplete hne hraw rest
  refine ⟨hcomplete, hread, ?_⟩
  rw [request_sent strerror hpath hsent later hread]
  exact R.parsed_raw_iff

/-- A reply whose block is that of one line `Content-Length: N` and one more line. -/
def lengthReply (line body number : Bytes)
    (hlines : ∀ l ∈ [lit "Content-Length: " ++ number, line], IsLine l)
    (digits : DigitsThen 10 number []) (length : numeral 10 number = body.length)
    (one_text : ∀ i, lit "content-length:" <+:
      (lower (okRaw [lit "Content-Length: " ++ number, line] hlines).block).drop i → i = 0)
    (no_coding : ¬ lit "transfer-encoding:" <:+:
      lower (okRaw [lit "Content-Length: " ++ number, line] hlines).block) : LengthReply where
  head := okRaw [lit "Content-Length: " ++ number, line] hlines
  body := body
  front := []
  number := number
  back := [line]
  lines := rfl
  digits := digits
  length := length
  one_text := one_text
  no_coding := no_coding
  code_ge := show 200 ≤ readStatusCode (lit "HTTP/1.1 200 OK") by decide +kernel
  code_lt := show readStatusCode (lit "HTTP/1.1 200 OK") < 300 by decide +kernel
  code_ne := show readStatusCode (lit "HTTP/1.1 200 OK") ≠ 204 by decide +kernel

/-- A text of the length of the block is searched at each of its offsets. -/
theorem eq_zero_of_offsets {block : Bytes}
    (key : ∀ j < block.length, lit "content-length:" <+: (lower block).drop j → j = 0) {i : ℕ}
    (h : lit "content-length:" <+: (lower block).drop i) : i = 0 := by
  refine key i ?_ h
  have hle := h.length_le
  have h15 : (lit "content-length:").length = 15 := by decide
  rw [List.length_drop, h15, length_lower] at hle
  omega

theorem digits_nine : DigitsThen 10 (lit "9") [] := ⟨by decide +kernel, by decide, by simp⟩

theorem digits_five : DigitsThen 10 (lit "5") [] := ⟨by decide +kernel, by decide, by simp⟩

/-- A body that looks like the end of a head. -/
def helloReply : LengthReply :=
  lengthReply (lit "X-Length: 3") (lit "a: b\r\n\r\nc") (lit "9") (by decide +kernel) digits_nine
    (by decide) (fun _ => eq_zero_of_offsets (by decide +kernel)) (by decide +kernel)

/-- A second length, with a blank before its colon. -/
def blankReply : LengthReply :=
  lengthReply (lit "Content-Length : 2") (lit "hello") (lit "5") (by decide +kernel) digits_five
    (by decide) (fun _ => eq_zero_of_offsets (by decide +kernel)) (by decide +kernel)

/-- It arrives in two pieces, the first of which ends inside a line end. -/
theorem request_length_hello :
    readLoop (lit "GET") [] (deliver [helloReply.raw.take 16, helloReply.raw.drop 16]) =
        (helloReply.raw, .complete) ∧
      requestOpen [helloReply.raw.take 16, helloReply.raw.drop 16] =
        .response ⟨200, lit "a: b\r\n\r\nc", []⟩ := by
  have hiff := request_length_iff helloReply (by decide +kernel)
    [helloReply.raw.take 16, helloReply.raw.drop 16] (by decide +kernel) (by decide +kernel)
    (fun _ => []) (lit "/var/run/docker.sock") (lit "GET") (lit "/") [] (by decide) (by decide)
    (openConnection [helloReply.raw.take 16, helloReply.raw.drop 16]) []
    ⟨rfl, rfl, by decide +kernel⟩ [] (by rw [List.append_nil]; rfl)
  have hkeeps : helloReply.head.FramingKeeps helloReply.body :=
    ⟨⟨9, false⟩, by decide +kernel, Or.inr (Or.inl (by decide +kernel))⟩
  exact ⟨hiff.2.1, hiff.2.2.2 hkeeps⟩

/-- **A length that the search does not see cuts the body**, without an error. -/
theorem blankReply_cut :
    readLoop (lit "GET") [] (deliver [blankReply.raw]) = (blankReply.raw, .complete) ∧
      requestOpen [blankReply.raw] = .response ⟨200, lit "he", []⟩ ∧
      requestOpen [blankReply.raw] ≠ .response ⟨200, blankReply.body, []⟩ := by
  decide +kernel

/-! ### No framing at all -/

/-- A response whose header block has neither of the two names before a colon. -/
structure OpenReply where
  head : RawHead
  payload : Bytes
  no_length : ¬ lit "content-length:" <:+: lower head.block
  no_coding : ¬ lit "transfer-encoding:" <:+: lower head.block
  /-- A status code has three digits. -/
  code_ge : 100 ≤ readStatusCode head.status
  not_bodyless : bodyless (readStatusCode head.status) = false

/-- What the search takes for a complete header block at some point of the payload: a coding, with
the mark of the last chunk anywhere, or a length. -/
def Imitates (payload : Bytes) : Prop :=
  (ChunkedText payload ∧ lastChunkMark <:+: payload) ∨
    ∃ t n, t <+: payload ∧ ¬ ChunkedText t ∧ FirstLength t n

namespace OpenReply

variable (R : OpenReply)

/-- The bytes of the reply. -/
def raw : Bytes := R.head.render ++ R.payload

/-- In every split into reads ended by the peer closing, no buffer is complete and the reading goes
on to the close; and the parser keeps the whole payload. -/
def KeptWhole (method : Bytes) : Prop :=
  (∀ pieces, (∀ b ∈ pieces, b ≠ []) → pieces.flatten = R.raw →
    (∀ n, httpResponseComplete (received pieces n) method = false) ∧
      readLoop method [] (deliver pieces ++ [.ok []]) = (R.raw, .closed)) ∧
  parseHttpResponse R.raw = .ok (finish (readStatusCode R.head.status) R.payload)

/-- The header lines leave the payload whole. -/
def FramingKeeps : Prop := R.head.FramingKeeps R.payload

/-- **The parser keeps the payload whole exactly when the header lines do.** -/
theorem parse_iff :
    parseHttpResponse R.raw = .ok (finish (readStatusCode R.head.status) R.payload) ↔
      R.FramingKeeps := by
  have hcode : readStatusCode R.head.status ≠ 0 := by
    have := R.code_ge
    omega
  exact R.head.parse_whole_iff hcode R.not_bodyless R.payload

end OpenReply

/-! ### A payload that looks like headers -/

/-- The two bytes before the payload do not take part in the search. -/
theorem chunkedText_crlf {t : Bytes} : ChunkedText (crlf ++ t) ↔ ChunkedText t := by
  constructor
  · rintro ⟨text, hsuffix, hte, hch⟩
    have hstart : ∀ c u, text = c :: u → c = 84 := by
      rintro c u rfl
      exact (List.cons_prefix_cons.1 hte).1.symm
    rw [crlf_eq, List.cons_append, List.suffix_cons_iff, List.cons_append, List.nil_append,
      List.suffix_cons_iff] at hsuffix
    rcases hsuffix with h | h | h
    · exact absurd (hstart _ _ h) (by decide)
    · exact absurd (hstart _ _ h) (by decide)
    · exact ⟨text, h, hte, hch⟩
  · rintro ⟨text, hsuffix, hte, hch⟩
    exact ⟨text, hsuffix.trans (List.suffix_append crlf t), hte, hch⟩

theorem firstLength_crlf {t : Bytes} {n : ℕ} : FirstLength (crlf ++ t) n ↔ FirstLength t n := by
  have hlow : lower (crlf ++ t) = crlf ++ lower t := lower_append crlf t
  have hpat : lit "content-length:" = 99 :: lit "ontent-length:" := by decide
  have hno : (99 : UInt8) ∉ crlf := by decide
  have hdrop (i : ℕ) : (crlf ++ t).drop (i + 2 + 15) = t.drop (i + 15) := rfl
  simp only [FirstLength, hlow, hpat, indexOf_append_of_notMem hno, Option.map_eq_some_iff,
    crlf_length]
  constructor
  · rintro ⟨i, ⟨j, hj, rfl⟩, hn⟩
    rw [hdrop] at hn
    exact ⟨j, hj, hn⟩
  · rintro ⟨j, hj, hn⟩
    rw [← hdrop] at hn
    exact ⟨j + 2, ⟨j, hj, rfl⟩, hn⟩

theorem ChunkedText.of_isPrefix {s t : Bytes} (h : ChunkedText s) (hst : s <+: t) :
    ChunkedText t := by
  obtain ⟨text, ⟨before, rfl⟩, hte, hch⟩ := h
  obtain ⟨rest, rfl⟩ := hst
  refine ⟨text ++ rest, ⟨before, by simp⟩, hte.trans (List.prefix_append _ _), ?_⟩
  exact hch.trans (lower_isInfix (List.prefix_append _ _).isInfix)

theorem not_crlf_lineText (s : Bytes) : ¬ crlf <:+: lineText s := by
  rw [lineText]
  cases hi : indexOf crlf s with
  | none => rw [Option.getD_none, List.take_length]; exact indexOf_eq_none_iff.1 hi
  | some i => rw [Option.getD_some]; exact not_infix_take (by decide) hi

theorem lineText_isPrefix (s : Bytes) : lineText s <+: s := List.take_prefix _ _

/-- **A number that is still arriving is read as its first digit**, or as the negative of it. -/
theorem FirstLength.first_digit {t : Bytes} {n : ℕ} (h : FirstLength t n) :
    ∃ t' d v, t' <+: t ∧ FirstLength t' v ∧ 15 < t'.length ∧ d < 10 ∧ (v = d ∨ v = sub64 0 d) := by
  obtain ⟨i, hi, hn⟩ := h
  obtain ⟨p, d, v, hp, hd, hv, hvd⟩ := exists_first_digit hn
  obtain ⟨b, b', hb, -, hline⟩ := exists_trim (lineText (t.drop (i + 15)))
  obtain ⟨p', hp'⟩ := hp
  have hd10 : digitVal d < 10 := by simpa [isDigit] using hd
  have hle := le_length_of_indexOf hi
  have h15 : (lit "content-length:").length = 15 := by decide
  rw [h15, length_lower] at hle
  -- the payload up to the first digit of the number
  have hread : b ++ (p ++ [d]) <+: lineText (t.drop (i + 15)) := by
    rw [hline, ← hp']
    exact ⟨p' ++ b', by simp⟩
  obtain ⟨rest, hrest⟩ := hread.trans (lineText_isPrefix _)
  have hcut : (t.take (i + 15)).length = i + 15 := by rw [List.length_take]; omega
  have hprefix : t.take (i + 15) ++ (b ++ (p ++ [d])) <+: t := by
    refine ⟨rest, ?_⟩
    rw [List.append_assoc, hrest, List.take_append_drop]
  refine ⟨t.take (i + 15) ++ (b ++ (p ++ [d])), digitVal d, v, hprefix, ⟨i, ?_, ?_⟩, ?_, hd10, hvd⟩
  · have htake := List.prefix_iff_eq_take.1 hprefix
    rw [htake, lower, List.map_take, ← lower, indexOf_take hi, if_pos]
    rw [h15, List.length_append, hcut]
    omega
  · have hone : ¬ crlf <:+: b ++ (p ++ [d]) := fun h =>
      not_crlf_lineText _ (h.trans hread.isInfix)
    have hhead : ∀ c ∈ (p ++ [d]).head?, isTrimmed c = false := by
      intro c hc
      refine not_isTrimmed_head_trim (lineText (t.drop (i + 15))) c ?_
      rw [← hp', List.head?_append_of_ne_nil _ (by simp)]
      exact hc
    have hdrop : (t.take (i + 15) ++ (b ++ (p ++ [d]))).drop (i + 15) = b ++ (p ++ [d]) :=
      List.drop_left' hcut
    rw [hdrop, lineText_eq_self hone,
      trim_blanks_append hb hhead (not_blank_of_isDigit (by omega) hd).2.1, hv]
  · simp only [List.length_append, hcut, List.length_singleton]
    omega

/-- A status code of three digits, a word and a blank before it. -/
theorem length_of_readStatusCode {s : Bytes} (h : 100 ≤ readStatusCode s) : 5 ≤ s.length := by
  have hskip : (s.dropWhile isspace).length ≤ s.length := List.length_dropWhile_le _ _
  have hhead := List.head?_dropWhile_not isspace s
  unfold readStatusCode readWord at h
  dsimp only at h
  split_ifs at h with hnil
  · exact absurd h (by decide)
  · generalize s.dropWhile isspace = u at hskip hhead hnil h
    dsimp only at h
    have hsplit : u.takeWhile (! isspace ·) ++ u.dropWhile (! isspace ·) = u :=
      List.takeWhile_append_dropWhile
    have hstop := List.head?_dropWhile_not (! isspace ·) u
    rcases hrest : u.dropWhile (! isspace ·) with _ | ⟨c, r⟩
    · rw [hrest] at h
      exact absurd h (by decide)
    · -- the blank before the number, and the word before the blank
      rw [hrest, List.head?_cons] at hstop
      have hc : isspace c = true := by simpa using hstop
      have hread : readInt (c :: r) = readInt r := by
        simp only [readInt, List.dropWhile_cons_of_pos hc]
      have hword : u.takeWhile (! isspace ·) ≠ [] := by
        intro hword
        rw [hword, List.nil_append, hrest] at hsplit
        rw [← hsplit, List.head?_cons] at hhead
        simp [hc] at hhead
      have hpos := List.length_pos_iff.2 hword
      rw [hrest, hread] at h
      have hthree := length_of_readInt h
      have hlen := congrArg List.length hsplit
      rw [List.length_append, hrest, List.length_cons] at hlen
      omega

namespace OpenReply

variable (R : OpenReply)

section Fits

variable (hfit : R.raw.length < 2 ^ 64) {method : Bytes} (hm : method ≠ lit "HEAD")

include hfit hm

/-- Without any header line the search goes through the payload. -/
theorem complete_bare_iff (hl : R.head.lines = []) {t : Bytes} (ht : t <+: R.payload) :
    httpResponseComplete (R.head.render ++ t) method = true ↔
      (ChunkedText t ∧ lastChunkMark <:+: t) ∨ (¬ ChunkedText t ∧ ∃ n, FirstLength t n ∧
        (R.head.render.length + n) % 2 ^ 64 ≤ R.head.render.length + t.length) := by
  have hle := ht.length_le
  rw [raw, List.length_append] at hfit
  have hlen := R.head.render_length
  have hlong : (crlf ++ t).length < 2 ^ 64 := by
    rw [List.length_append, crlf_length]
    omega
  rw [R.head.complete_render method hm R.not_bodyless t (by rw [List.length_append]; omega),
    RawHead.searched, if_pos hl]
  by_cases hch : ChunkedText t
  · rw [if_pos (announcesChunked_iff.2 (chunkedText_crlf.2 hch)), find_zero, indexOf_isSome_iff]
    simp [hch]
  · rw [if_neg (fun h => hch (chunkedText_crlf.1 (announcesChunked_iff.1 h)))]
    have hlength (n : ℕ) : FirstLength t n ↔ announcedLength (crlf ++ t) = some n :=
      firstLength_crlf.symm.trans (announcedLength_eq_some_iff hlong).symm
    simp only [hch, false_and, not_false_eq_true, true_and, false_or, hlength]
    cases announcedLength (crlf ++ t) <;> simp

/-- **Without any header line**, a buffer is complete at some point of the payload exactly when the
payload looks like headers. -/
theorem imitates_iff (hl : R.head.lines = []) :
    (∃ t, t <+: R.payload ∧ httpResponseComplete (R.head.render ++ t) method = true) ↔
      Imitates R.payload := by
  constructor
  · rintro ⟨t, ht, hcomplete⟩
    rcases (R.complete_bare_iff hfit hm hl ht).1 hcomplete with ⟨hch, hmark⟩ | ⟨hch, n, hn, -⟩
    · exact Or.inl ⟨hch.of_isPrefix ht, hmark.trans ht.isInfix⟩
    · exact Or.inr ⟨t, n, ht, hch, hn⟩
  · rintro (⟨hch, hmark⟩ | ⟨t, n, ht, hch, hn⟩)
    · exact ⟨R.payload, List.prefix_refl _,
        (R.complete_bare_iff hfit hm hl (List.prefix_refl _)).2 (Or.inl ⟨hch, hmark⟩)⟩
    · -- complete with the first digit of the number: a payload that long has arrived already
      obtain ⟨t', d, v, ht', hv, hlong, hd, hvd⟩ := hn.first_digit
      refine ⟨t', ht'.trans ht, ?_⟩
      refine (R.complete_bare_iff hfit hm hl (ht'.trans ht)).2 (Or.inr ⟨?_, v, hv, ?_⟩)
      · exact fun h => hch (h.of_isPrefix ht')
      · have hstatus := length_of_readStatusCode R.code_ge
        have hlen := R.head.render_length
        have hle := (ht'.trans ht).length_le
        rw [raw, List.length_append] at hfit
        rcases hvd with rfl | rfl
        · rw [Nat.mod_eq_of_lt (by omega)]
          omega
        · unfold sub64
          omega

/-- With header lines the block has none of the words. -/
theorem not_complete_of_lines (hl : R.head.lines ≠ []) {t : Bytes} (ht : t <+: R.payload) :
    httpResponseComplete (R.head.render ++ t) method = false := by
  have hle := ht.length_le
  rw [raw, List.length_append] at hfit
  have hblock : R.head.block.length < 2 ^ 64 := by
    have := R.head.length_block_le
    omega
  have hch : ¬ announcesChunked R.head.block = true := fun h =>
    not_chunkedText R.no_coding (announcesChunked_iff.1 h)
  have hlength : announcedLength R.head.block = none := by
    rw [announcedLength_eq hblock, indexOf_eq_none_iff.2 R.no_length]
    rfl
  rw [R.head.complete_render method hm R.not_bodyless t (by rw [List.length_append]; omega),
    RawHead.searched, if_neg hl, if_neg hch, hlength]

/-- No buffer is complete, unless the payload looks like headers. -/
theorem not_complete_received (hbare : R.head.lines = [] → ¬ Imitates R.payload)
    {pieces : List Bytes} (hraw : pieces.flatten = R.raw) (n : ℕ) :
    httpResponseComplete (received pieces n) method = false := by
  have hp : received pieces n <+: R.raw := hraw ▸ received_prefix pieces n
  rcases prefix_append_or hp with ⟨hcut, hlt⟩ | ⟨t, ht, heq⟩
  · exact R.head.complete_cut method hcut hlt
  · rw [heq]
    by_cases hl : R.head.lines = []
    · rw [Bool.eq_false_iff]
      intro hcomplete
      exact hbare hl ((R.imitates_iff hfit hm hl).1 ⟨t, ht, hcomplete⟩)
    · exact R.not_complete_of_lines hfit hm hl ht

/-- Such a response is read until the peer closes. -/
theorem readLoop_closed (hbare : R.head.lines = [] → ¬ Imitates R.payload) {pieces : List Bytes}
    (hne : ∀ b ∈ pieces, b ≠ []) (hraw : pieces.flatten = R.raw)
    (rest : List (Except Errno Bytes)) :
    readLoop method [] (deliver pieces ++ .ok [] :: rest) = (R.raw, .closed) := by
  have hnever (n : ℕ) := R.not_complete_received hfit hm hbare hraw n
  rcases readLoop_deliver method [] pieces hne (.ok [] :: rest) with ⟨n, -, hcn, -⟩ | ⟨-, hl⟩
  · rw [List.nil_append, hnever n] at hcn
    cases hcn
  · have hall := hnever pieces.length
    rw [received_all, hraw] at hall
    rw [hl, List.nil_append, hraw, readLoop, if_neg (by rw [hall]; simp)]

end Fits

end OpenReply

/-- **When a response without framing is read to the close and kept whole.** -/
theorem keptWhole_iff (R : OpenReply) (hfit : R.raw.length < 2 ^ 64) {method : Bytes}
    (hm : method ≠ lit "HEAD") :
    R.KeptWhole method ↔ R.FramingKeeps ∧ (R.head.lines = [] → ¬ Imitates R.payload) := by
  rw [OpenReply.KeptWhole, R.parse_iff, and_comm]
  refine and_congr_right fun _ => ⟨?_, ?_⟩
  · intro hsplits hl
    rw [← R.imitates_iff hfit hm hl]
    rintro ⟨t, ⟨rest, hrest⟩, hcomplete⟩
    -- a read that ends there makes the buffer complete
    have hhead : R.head.render ++ t ≠ [] := by
      rw [← List.length_pos_iff, List.length_append, R.head.render_length]
      omega
    have hfirst := (hsplits ([R.head.render ++ t] ++ if rest = [] then [] else [rest]) ?_ ?_).1 1
    · rw [received, List.singleton_append, List.take_succ_cons, List.take_zero,
        List.flatten_singleton, hcomplete] at hfirst
      cases hfirst
    · split_ifs with h <;> simp [hhead, h]
    · split_ifs with h <;> simp [OpenReply.raw, ← hrest, h]
  · intro hbare pieces hne hraw
    exact ⟨R.not_complete_received hfit hm hbare hraw, R.readLoop_closed hfit hm hbare hne hraw []⟩

/-- A reply without framing and the payload `hello`. -/
def helloOpen (lines : List Bytes) (hlines : ∀ l ∈ lines, IsLine l)
    (no_length : ¬ lit "content-length:" <:+: lower (okRaw lines hlines).block)
    (no_coding : ¬ lit "transfer-encoding:" <:+: lower (okRaw lines hlines).block)
    (payload : Bytes) : OpenReply where
  head := okRaw lines hlines
  payload := payload
  no_length := no_length
  no_coding := no_coding
  code_ge := show 100 ≤ readStatusCode (lit "HTTP/1.1 200 OK") by decide +kernel
  not_bodyless := show bodyless (readStatusCode (lit "HTTP/1.1 200 OK")) = false by decide +kernel

/-- A reply without a length in its head. -/
def plainOpen : OpenReply :=
  helloOpen [lit "X-Id: 7"] (by decide +kernel) (by decide +kernel) (by decide +kernel)
    (lit "Content-Length: 1")

/-- It is kept: the words of the payload stand behind a header line. -/
theorem keptWhole_iff_plain : plainOpen.KeptWhole (lit "GET") := by
  have hkeeps : plainOpen.FramingKeeps := ⟨{}, by decide +kernel, Or.inl rfl⟩
  exact (keptWhole_iff plainOpen (by decide +kernel) (by decide)).2
    ⟨hkeeps, fun hl => absurd hl (by decide)⟩

/-- No header line, and a payload that starts like one. -/
def bareOpen : OpenReply :=
  helloOpen [] (by simp) (by decide +kernel) (by decide +kernel) (lit "Content-Length: 12")

/-- A blank before the colon. -/
def blankOpen : OpenReply :=
  helloOpen [lit "Content-Length : 2"] (by decide +kernel) (by decide +kernel) (by decide +kernel)
    (lit "hello")

/-- **A payload that looks like headers is cut, and so is one with a blank before the colon.** -/
theorem imitation_cut :
    httpResponseComplete (bareOpen.raw.take 36) (lit "GET") = true ∧
      ¬ bareOpen.KeptWhole (lit "GET") ∧
      parseHttpResponse blankOpen.raw = .ok ⟨200, lit "he", []⟩ ∧
      ¬ blankOpen.KeptWhole (lit "GET") := by
  have hcomplete : httpResponseComplete (bareOpen.raw.take 36) (lit "GET") = true := by
    decide +kernel
  have hparse : parseHttpResponse blankOpen.raw = .ok ⟨200, lit "he", []⟩ := by decide +kernel
  refine ⟨hcomplete, ?_, hparse, ?_⟩
  · intro hkept
    have hfirst := (hkept.1 [bareOpen.raw.take 36, bareOpen.raw.drop 36] (by decide +kernel)
      (by decide +kernel)).1 1
    have hbuf : received [bareOpen.raw.take 36, bareOpen.raw.drop 36] 1 = bareOpen.raw.take 36 := by
      decide +kernel
    rw [hbuf, hcomplete] at hfirst
    cases hfirst
  · intro hkept
    have hwhole := hkept.2
    rw [hparse] at hwhole
    revert hwhole
    decide +kernel

end Http

end TuxDock
