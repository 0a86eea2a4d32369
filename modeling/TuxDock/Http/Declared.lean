import TuxDock.Http.Delivery
import TuxDock.Http.Framing

/-!
# Payloads with a declared framing

What `parseHttpResponse` makes of a payload when the head says how it is delimited.

* `parse_encode_iff` : **the decoder undoes the encoding** of a chunked body, in every spelling of
  the sizes, unless a length in the same head is no number;
* `lengthEnforced_iff` : **when a declared length is enforced**: the number that `std::stoull` reads
  from it is the one it denotes, and it is not the mark for no length at all.
-/

namespace TuxDock

namespace Http

open Text Search

/-! ### Chunked payloads -/

/-- A size with nothing behind it, or with an extension behind a `;`. -/
def SizeLine.ofExtension (size ext : Bytes) (hdigits : ∀ c ∈ size, isDigit 16 c = true)
    (hne : size ≠ []) (hext : ext = [] ∨ ext.head? = some 59) (hline : (13 : UInt8) ∉ ext) :
    SizeLine where
  size := size
  ext := ext
  digits := by
    refine ⟨hdigits, hne, ?_⟩
    intro c hc
    rcases hext with rfl | hsemi
    · cases hc
    · rw [hsemi] at hc
      cases hc
      decide
  ext_line := hline

/-- A result without an error that has the content of the chunks as its body. -/
def DecodesTo (content : Bytes) (result : Except Fault ParsedHttpResponse) : Prop :=
  ∃ r, result = .ok r ∧ r.error = [] ∧ r.body = content

/-- **Decoding undoes encoding**, for every head with a chunked coding and every encoding of the
chunks: the lengths of the head are the only thing that can stand in the way, and one that does is
the error of the answer. -/
theorem parse_encode_iff (hd : RawHead) (hcode : readStatusCode hd.status = 200)
    (hch : ∃ l ∈ hd.lines, isChunkedLine l = true) (b : ChunkedBody)
    (hfit : (hd.render ++ b.encode).length < 2 ^ 64) :
    (DecodesTo b.content (parseHttpResponse (hd.render ++ b.encode)) ↔
      ∀ value ∈ lengths hd.lines, (stoull 10 value).isSome) ∧
    ((∃ value ∈ lengths hd.lines, stoull 10 value = none) →
      parseHttpResponse (hd.render ++ b.encode) =
        .ok { statusCode := 200, error := lit "Invalid Content-Length." }) := by
  rw [hd.parse_render (by rw [hcode]; decide), hcode, ← hd.framing_isSome_iff,
    ← hd.framing_eq_none_iff]
  cases hf : hd.framing with
  | none =>
    refine ⟨iff_of_false ?_ (by simp), fun _ => rfl⟩
    rintro ⟨r, hr, herr, -⟩
    cases hr
    exact absurd herr (by decide)
  | some f =>
    refine ⟨iff_of_true ?_ rfl, fun hnone => absurd hnone (Option.some_ne_none f)⟩
    have hchunked : f.chunked = true := by
      rw [(RawHead.framing_eq_some hf).1, List.any_eq_true]
      exact hch
    have hchunks : (ChunkedBody.encodeChunks b.chunks).length < 2 ^ 64 := by
      simp only [ChunkedBody.encode, List.length_append] at hfit
      omega
    have hwraps : ¬ b.Wraps := ChunkedBody.not_wrapsFrom (by omega)
    have hall : b.decodable ≤ b.encode.length := by
      simp only [ChunkedBody.decodable, ChunkedBody.encode, List.length_append, crlf_length]
      omega
    have hdecoded : decodeChunked b.encode = .ok ⟨true, b.content, []⟩ := by
      rcases decodeChunked_prefix b hwraps List.prefix_rfl with ⟨-, -, h⟩ | ⟨h, -⟩
      · exact h
      · exact absurd ⟨ChunkedBody.sizesReadable hchunks, hall⟩ h
    refine ⟨⟨200, b.content, []⟩, ?_, rfl, rfl⟩
    have hbody : bodyless 200 = false := by decide
    simp only [selectBody, hbody, hchunked, hdecoded, Bool.false_eq_true, ↓reduceIte]
    rw [finish_of_ok (by decide)]

theorem cr_notMem_nil : (13 : UInt8) ∉ ([] : Bytes) := List.not_mem_nil

/-- Two chunks, one with a size in upper case and an extension, one with leading zeros, and bytes
behind the last size line. -/
def spelledBody : ChunkedBody where
  chunks := [
    ⟨.ofExtension (lit "A") (lit ";name=value") (by decide +kernel) (by decide) (by decide)
        (by decide),
      lit "0\r\n\r\n5\r\nhe", by decide, by decide⟩,
    ⟨.ofExtension (lit "0003") [] (by decide +kernel) (by decide) (by decide) cr_notMem_nil,
      lit "llo", by decide, by decide⟩]
  last :=
    .ofExtension (lit "000") (lit ";x") (by decide +kernel) (by decide) (by decide) (by decide)
  last_value := by decide
  trailer := lit "X-Id: 1\r\n\r\nmore"

/-- A head with a length and a list of codings. -/
def codingHead : RawHead :=
  okRaw [lit "Content-Length: 7", lit "TRANSFER-Encoding : gzip, ChunKed"] (by decide +kernel)

/-- A head with a chunked coding and a length that is no number. -/
def unreadableHead : RawHead :=
  okRaw [lit "Transfer-Encoding: chunked", lit "Content-Length: x"] (by decide +kernel)

/-- The first head lets the content through, the second does not. -/
theorem parse_encode_iff_spelled :
    DecodesTo spelledBody.content
        (parseHttpResponse (codingHead.render ++ spelledBody.encode)) ∧
      parseHttpResponse (unreadableHead.render ++ spelledBody.encode) =
        .ok { statusCode := 200, error := lit "Invalid Content-Length." } :=
  ⟨(parse_encode_iff codingHead (by decide +kernel)
      ⟨lit "TRANSFER-Encoding : gzip, ChunKed", by decide +kernel, by decide +kernel⟩ spelledBody
      (by decide +kernel)).1.2 (by decide +kernel),
    (parse_encode_iff unreadableHead (by decide +kernel)
      ⟨lit "Transfer-Encoding: chunked", by decide +kernel, by decide +kernel⟩ spelledBody
      (by decide +kernel)).2 ⟨lit "x", by decide +kernel, by decide +kernel⟩⟩

/-- **A chunked body behind such a head is rejected.** -/
theorem unreadableHead_rejected :
    (∃ l ∈ unreadableHead.lines, isChunkedLine l = true) ∧
      parseHttpResponse (unreadableHead.render ++ spelledBody.encode) =
        .ok { statusCode := 200, error := lit "Invalid Content-Length." } :=
  ⟨⟨lit "Transfer-Encoding: chunked", by decide +kernel, by decide +kernel⟩, by decide +kernel⟩

/-! ### Declared lengths -/

/-- The text behind the first colon of a line, without the blanks around it. -/
def trimmedValue (line : Bytes) : Bytes :=
  trim (line.drop ((indexOf (lit ":") line).getD 0 + 1))

/-- The value of the last line called Content-Length. -/
def lastLength (lines : List Bytes) : Option Bytes :=
  (lines.filter fun l => (valueOf (lit "content-length") l).isSome).getLast?.map trimmedValue

/-- The value is a decimal numeral and denotes `n`. -/
def DecimalLength (value : Bytes) (n : ℕ) : Prop :=
  value ≠ [] ∧ (∀ c ∈ value, isDigit 10 c = true) ∧ numeral 10 value = n

/-- A result without an error has the payload up to the declared length as its body. -/
def LengthEnforced (value payload : Bytes) (result : Except Fault ParsedHttpResponse) : Prop :=
  ∃ r, result = .ok r ∧
    (r.error = [] → ∃ n, DecimalLength value n ∧ n ≤ payload.length ∧ r.body = payload.take n)

theorem valueOf_eq_lower {name line value : Bytes} (h : valueOf name line = some value) :
    value = lower (trimmedValue line) := by
  rw [valueOf_eq_some_iff, headerOf, Option.map_eq_some_iff] at h
  obtain ⟨i, hi, h⟩ := h
  rw [Prod.mk.injEq] at h
  rw [trimmedValue, hi, ← h.2]
  rfl

theorem lengths_eq (lines : List Bytes) :
    lengths lines = (lines.filter fun l => (valueOf (lit "content-length") l).isSome).map
      fun l => lower (trimmedValue l) := by
  induction lines with
  | nil => rfl
  | cons l lines ih =>
    rw [lengths, List.filterMap_cons]
    cases hl : valueOf (lit "content-length") l with
    | none =>
      rw [List.filter_cons_of_neg (by simp [hl])]
      exact ih
    | some value =>
      rw [List.filter_cons_of_pos (by simp [hl]), List.map_cons, ← valueOf_eq_lower hl]
      exact congrArg _ ih

theorem getLast?_lengths {lines : List Bytes} {value : Bytes} (h : lastLength lines = some value) :
    (lengths lines).getLast? = some (lower value) := by
  rw [lastLength, Option.map_eq_some_iff] at h
  obtain ⟨l, hl, rfl⟩ := h
  rw [lengths_eq, List.getLast?_map, hl]
  rfl

/-- A number that is read from a decimal numeral is the one it denotes. -/
theorem DecimalLength.eq {value : Bytes} {m n : ℕ} (h : DecimalLength value m)
    (hn : stoull 10 (lower value) = some n) : m = n := by
  obtain ⟨hne, hdigits, hm⟩ := h
  have hd : DigitsThen 10 value [] := ⟨hdigits, hne, by simp⟩
  have hread := hd.stoull_ite (Or.inl rfl)
  rw [List.append_nil] at hread
  rw [hd.lower_eq, hread] at hn
  split_ifs at hn
  exact hm.symm.trans (Option.some.inj hn)

/-- **When a declared length is enforced.**  Either a length is no number, or the number read from
the last one is not `2^64 - 1` and is larger than the payload or denoted by a decimal numeral. -/
theorem lengthEnforced_iff (hd : RawHead) (hge : 200 ≤ readStatusCode hd.status)
    (hlt : readStatusCode hd.status < 300) (hb : bodyless (readStatusCode hd.status) = false)
    (hch : ∀ l ∈ hd.lines, isChunkedLine l = false) (value : Bytes)
    (hlast : lastLength hd.lines = some value) (payload : Bytes)
    (hfit : (hd.render ++ payload).length < 2 ^ 64) :
    LengthEnforced value payload (parseHttpResponse (hd.render ++ payload)) ↔
      (∃ v ∈ lengths hd.lines, stoull 10 v = none) ∨
        ∃ n, stoull 10 (lower value) = some n ∧ n ≠ npos ∧
          (payload.length < n ∨ DecimalLength value n) := by
  have hlen := hd.render_length
  rw [List.length_append] at hfit
  have hshort : payload.length < npos := by
    unfold npos
    omega
  rw [hd.parse_render (by omega)]
  rw [← hd.framing_eq_none_iff]
  cases hf : hd.framing with
  | none =>
    exact iff_of_true ⟨_, rfl, fun h => absurd h (by dsimp only; decide)⟩ (Or.inl rfl)
  | some f =>
    have hread := hd.framing_isSome_iff.1 (by rw [hf]; rfl)
    obtain ⟨hchunked, hlength⟩ := RawHead.framing_eq_some hf
    have hgetLast := getLast?_lengths hlast
    -- every length is a number, the last one `n`
    obtain ⟨n, hn⟩ := Option.isSome_iff_exists.1 (hread _ (List.mem_of_getLast? hgetLast))
    rw [hgetLast, Option.bind_some, hn, Option.getD_some] at hlength
    have hplain : f.chunked = false := by
      rw [hchunked, List.any_eq_false]
      intro l hl
      simp [hch l hl]
    rw [or_iff_right (Option.some_ne_none f)]
    simp only [hn, Option.some.injEq, exists_eq_left', selectBody, hb, hplain, hlength,
      Bool.false_eq_true, ↓reduceIte]
    by_cases hnpos : n = npos
    · -- taken for no length at all
      rw [if_neg (not_not.2 hnpos), finish_of_ok ⟨hge, hlt⟩]
      refine iff_of_false ?_ (fun h => h.1 hnpos)
      rintro ⟨r, hr, hbody⟩
      cases hr
      obtain ⟨m, hm, hle, -⟩ := hbody rfl
      rw [hm.eq hn, hnpos] at hle
      exact absurd hshort (not_lt.2 hle)
    · rw [if_pos hnpos]
      by_cases hcut : payload.length < n
      · rw [if_pos hcut]
        exact iff_of_true ⟨_, rfl, fun h => absurd h (by dsimp only; decide)⟩
          ⟨hnpos, Or.inl hcut⟩
      · rw [if_neg hcut, finish_of_ok ⟨hge, hlt⟩]
        constructor
        · rintro ⟨r, hr, hbody⟩
          cases hr
          obtain ⟨m, hm, -, -⟩ := hbody rfl
          have hmn := hm.eq hn
          exact ⟨hnpos, Or.inr (hmn ▸ hm)⟩
        · rintro ⟨-, hlarge | hdecimal⟩
          · exact absurd hlarge hcut
          · exact ⟨_, rfl, fun _ => ⟨n, hdecimal, not_lt.1 hcut, rfl⟩⟩

/-- Heads whose last length is a numeral, a numeral with something behind it, and `2^64 - 1`. -/
def twoLengthsHead : RawHead :=
  okRaw [lit "content-length: 9", lit "CONTENT-LENGTH: 005"] (by decide +kernel)

/-- A length with letters after it. -/
def trailingHead : RawHead := okRaw [lit "Content-Length: 5abc"] (by decide +kernel)

/-- A length that is `npos`. -/
def nposHead : RawHead := okRaw [lit "Content-Length: 18446744073709551615"] (by decide +kernel)

/-- The last length is enforced. -/
theorem lengthEnforced_iff_twoLengths :
    LengthEnforced (lit "005") (lit "hello!")
      (parseHttpResponse (twoLengthsHead.render ++ lit "hello!")) :=
  (lengthEnforced_iff twoLengthsHead (by decide +kernel) (by decide +kernel) (by decide +kernel)
      (by decide +kernel) (lit "005") (by decide +kernel) (lit "hello!") (by decide +kernel)).2
    (Or.inr ⟨5, by decide +kernel, by decide, Or.inr ⟨by decide, by decide +kernel,
      by decide +kernel⟩⟩)

/-- **Two lengths that are not enforced**: a text that only starts with a number, and a number that
the parser takes for no length. -/
theorem length_not_enforced :
    (parseHttpResponse (trailingHead.render ++ lit "hello!") = .ok ⟨200, lit "hello", []⟩ ∧
      ¬ LengthEnforced (lit "5abc") (lit "hello!")
        (parseHttpResponse (trailingHead.render ++ lit "hello!"))) ∧
    (parseHttpResponse (nposHead.render ++ lit "hello!") = .ok ⟨200, lit "hello!", []⟩ ∧
      ¬ LengthEnforced (lit "18446744073709551615") (lit "hello!")
        (parseHttpResponse (nposHead.render ++ lit "hello!"))) := by
  have htrailing : parseHttpResponse (trailingHead.render ++ lit "hello!") =
      .ok ⟨200, lit "hello", []⟩ := by decide +kernel
  have hnpos : parseHttpResponse (nposHead.render ++ lit "hello!") =
      .ok ⟨200, lit "hello!", []⟩ := by decide +kernel
  refine ⟨⟨htrailing, ?_⟩, ⟨hnpos, ?_⟩⟩
  · rw [htrailing]
    rintro ⟨r, hr, hbody⟩
    cases hr
    obtain ⟨n, ⟨-, hdigits, -⟩, -⟩ := hbody rfl
    exact absurd (hdigits 97 (by decide +kernel)) (by decide)
  · rw [hnpos]
    rintro ⟨r, hr, hbody⟩
    cases hr
    obtain ⟨n, ⟨-, -, hn⟩, hle, -⟩ := hbody rfl
    have hvalue : numeral 10 (lit "18446744073709551615") = 18446744073709551615 := by
      decide +kernel
    have hlength : (lit "hello!").length = 6 := by decide
    omega

end Http

end TuxDock
