import TuxDock.Http.Message
import TuxDock.Lib.PartialRun

/-!
# Chunked bodies

A chunk-encoded body as its sender builds it (`ChunkedBody`), and what `decodeChunked` makes of
it.  The size lines may spell their number in any way base 16 allows and may carry an extension;
the trailer after the line of the last chunk is arbitrary, since the decoder does not read it.

* `decodeStep_line`, `decodeStep_cut` : one iteration at a size line that is there, and at one
  that is not complete;
* `decodeLoop_prefix` : **the decoder on every prefix of an encoded body**: it succeeds with the
  whole content as soon as the prefix contains the line of the last chunk, and reports an error
  on every shorter prefix.
-/

namespace TuxDock

namespace Http

open Text Search

/-- A size line: a number in base 16 and an optional extension, on one line. -/
structure SizeLine where
  size : Bytes
  ext : Bytes
  digits : DigitsThen 16 size ext
  ext_line : (13 : UInt8) ∉ ext

namespace SizeLine

/-- The text of the line. -/
def render (l : SizeLine) : Bytes := l.size ++ l.ext

/-- The size that the line declares. -/
def value (l : SizeLine) : ℕ := numeral 16 l.size

end SizeLine

/-- A chunk: its size line announces the length of its data. -/
structure Chunk where
  line : SizeLine
  data : Bytes
  line_value : line.value = data.length
  data_ne : data ≠ []

/-- The text of the chunk. -/
def Chunk.encode (c : Chunk) : Bytes := c.line.render ++ (crlf ++ (c.data ++ crlf))

/-- Chunks, the size line of the last chunk, and whatever follows it. -/
structure ChunkedBody where
  chunks : List Chunk
  last : SizeLine
  last_value : last.value = 0
  trailer : Bytes

namespace ChunkedBody

/-- The text of the chunks. -/
def encodeChunks (cs : List Chunk) : Bytes := cs.flatMap Chunk.encode

/-- The text of the body. -/
def encode (b : ChunkedBody) : Bytes :=
  encodeChunks b.chunks ++ (b.last.render ++ (crlf ++ b.trailer))

/-- The bytes the body stands for. -/
def content (b : ChunkedBody) : Bytes := b.chunks.flatMap Chunk.data

/-- Every chunk size fits in 64 bits. -/
def SizesReadable (cs : List Chunk) : Prop := ∀ c ∈ cs, c.data.length < 2 ^ 64

/-- Of chunks that start at offset `n`, the first that ends past `2^64` has a size that fits in 64
bits: the decoder reads the size and adds it to the offset modulo `2^64`. -/
def WrapsFrom : ℕ → List Chunk → Prop
  | _, [] => False
  | n, c :: cs =>
    if n + c.encode.length < 2 ^ 64 then WrapsFrom (n + c.encode.length) cs
    else c.data.length < 2 ^ 64

/-- The chunks overflow the sum of the sizes. -/
def Wraps (b : ChunkedBody) : Prop := WrapsFrom 0 b.chunks

/-- The length of the encoding up to the end of the last size line. -/
def decodable (b : ChunkedBody) : ℕ := (encodeChunks b.chunks).length + (b.last.render.length + 2)

end ChunkedBody

/-! ### Sizes -/

theorem Chunk.length_encode (c : Chunk) :
    c.encode.length = c.line.render.length + 2 + c.data.length + 2 := by
  simp [Chunk.encode]
  omega

namespace ChunkedBody

@[simp] theorem encodeChunks_cons (c : Chunk) (cs : List Chunk) :
    encodeChunks (c :: cs) = c.encode ++ encodeChunks cs := List.flatMap_cons

/-- Chunks that fit in 64 bits altogether do not wrap. -/
theorem not_wrapsFrom {n : ℕ} {cs : List Chunk} (h : n + (encodeChunks cs).length < 2 ^ 64) :
    ¬ WrapsFrom n cs := by
  induction cs generalizing n with
  | nil => exact id
  | cons c cs ih =>
    rw [encodeChunks_cons, List.length_append] at h
    rw [WrapsFrom, if_pos (by omega)]
    exact ih (by omega)

theorem sizesReadable {cs : List Chunk} (h : (encodeChunks cs).length < 2 ^ 64) :
    SizesReadable cs := by
  induction cs with
  | nil => simp [SizesReadable]
  | cons c cs ih =>
    rw [encodeChunks_cons, List.length_append, c.length_encode] at h
    exact List.forall_mem_cons.2 ⟨by omega, ih (by omega)⟩

end ChunkedBody

/-! ### A loop that does not end -/

/-- Where an iteration moves on to; the body collected so far has no part in it. -/
def nextOffset (input : Bytes) (offset : ℕ) : Option ℕ :=
  match decodeStep input offset [] with
  | .stop _ => none
  | .next offset _ => some offset

theorem decodeStep_body (input : Bytes) (offset : ℕ) (body : Bytes) :
    decodeStep input offset body =
      match decodeStep input offset [] with
      | .stop (.ok d) => .stop (.ok ⟨d.ok, body, d.error⟩)
      | .stop (.error fault) => .stop (.error fault)
      | .next offset' data => .next offset' (body ++ data) := by
  unfold decodeStep
  split_ifs with hin
  · split
    · rfl
    · split
      · rfl
      · dsimp only
        split_ifs <;> rfl
  · rfl

/-- No iteration ends the call by not ending. -/
theorem decodeStep_ne_endless (input : Bytes) (offset : ℕ) (body : Bytes) :
    decodeStep input offset body ≠ .stop (.error .endless) := by
  unfold decodeStep
  split_ifs
  · split
    · simp
    · split
      · simp
      · dsimp only
        split_ifs <;> simp
  · simp

theorem decodeLoop_endless_iff (input : Bytes) (fuel offset : ℕ) (body : Bytes) :
    decodeLoop input fuel offset body = .error .endless ↔
      (PartialRun.run (nextOffset input) fuel offset).isSome := by
  induction fuel generalizing offset body with
  | zero => simp [decodeLoop]
  | succ fuel ih =>
    have hne := decodeStep_ne_endless input offset []
    rw [decodeLoop, decodeStep_body, PartialRun.run_succ, nextOffset]
    rcases hs : decodeStep input offset [] with (fault | d) | ⟨offset', data⟩
    · simpa [hs] using hne
    · simp
    · simpa using ih offset' (body ++ data)

/-- An iteration moves on only from an offset inside the input. -/
theorem lt_length_of_nextOffset {input : Bytes} {offset : ℕ}
    (h : (nextOffset input offset).isSome) : offset < input.length := by
  by_contra hlt
  simp [nextOffset, decodeStep, hlt] at h

/-- **`decodeChunked` answers `endless` only when the loop of the source never ends**: then it is
still running after any number of iterations. -/
theorem decodeLoop_endless {input : Bytes} (h : decodeChunked input = .error .endless) (fuel : ℕ) :
    decodeLoop input fuel 0 [] = .error .endless := by
  rw [decodeChunked, decodeLoop_endless_iff] at h
  rw [decodeLoop_endless_iff]
  refine PartialRun.run_forever (s := Finset.range input.length) ?_ (by simpa using h) fuel
  intro offset ho
  exact Finset.mem_range.2 (lt_length_of_nextOffset ho)

/-! ### Size lines -/

namespace SizeLine

variable (l : SizeLine)

theorem render_notMem : (13 : UInt8) ∉ l.render := by
  intro h
  rcases List.mem_append.1 h with h | h
  · exact absurd (not_blank_of_isDigit (by omega) (l.digits.digits _ h)).2.1 (by decide)
  · exact l.ext_line h

theorem render_ne_nil : l.render ≠ [] := by
  simp [render, l.digits.ne_nil]

/-- What is left of the line after `trim` and before a `;` is the number and perhaps a blank. -/
theorem sizeValue_render : ∃ e, sizeValue l.render = l.size ++ e ∧ DigitsThen 16 l.size e := by
  refine ⟨(l.ext.rdropWhile isTrimmed).takeWhile (· != 59), ?_, ?_⟩
  · have hplain : ∀ c ∈ l.size, isTrimmed c = false := fun c hc =>
      (not_blank_of_isDigit (by omega) (l.digits.digits c hc)).2.1
    rw [sizeValue, render, trim_append l.digits.ne_nil hplain, List.takeWhile_append_of_pos]
    intro c hc
    have hd := l.digits.digits c hc
    rw [bne_iff_ne]
    rintro rfl
    exact absurd hd (by decide)
  · refine ⟨l.digits.digits, l.digits.ne_nil, fun c hc => l.digits.stop c ?_⟩
    have hpre : (l.ext.rdropWhile isTrimmed).takeWhile (· != 59) <+: l.ext :=
      (List.takeWhile_prefix _).trans (List.rdropWhile_prefix _ _)
    obtain ⟨t, ht⟩ := hpre
    rw [← ht, List.head?_append_of_ne_nil]
    · exact hc
    · intro hnil; simp [hnil] at hc

/-- **The announced size is read back.** -/
theorem stoull_sizeValue (h : l.value < 2 ^ 64) :
    stoull 16 (sizeValue l.render) = some l.value := by
  obtain ⟨e, he, hd⟩ := l.sizeValue_render
  rw [he, hd.stoull_eq (Or.inr rfl) h]
  rfl

theorem stoull_sizeValue_none (h : 2 ^ 64 ≤ l.value) :
    stoull 16 (sizeValue l.render) = none := by
  obtain ⟨e, he, hd⟩ := l.sizeValue_render
  rw [he, hd.stoull_eq_none (Or.inr rfl) h]

theorem find_line (pre rest : Bytes) :
    find (pre ++ (l.render ++ (crlf ++ rest))) crlf pre.length =
      some (pre.length + l.render.length) := by
  rw [find_append, crlf_eq, indexOf_first l.render_notMem]
  rfl

theorem substr_line (pre rest : Bytes) :
    substr (pre ++ (l.render ++ (crlf ++ rest))) pre.length
      (pre.length + l.render.length - pre.length) = l.render := by
  rw [Nat.add_sub_cancel_left, substr_append]

end SizeLine

/-! ### One iteration -/

variable (pre body : Bytes) {t : Bytes}

theorem decodeStep_cut (l : SizeLine) (rest : Bytes) (ht : t <+: l.render ++ (crlf ++ rest))
    (hlt : t.length < l.render.length + 2) :
    ∃ e, e ≠ [] ∧ decodeStep (pre ++ t) pre.length body = .stop (.ok ⟨false, body, e⟩) := by
  by_cases hnil : t = []
  · refine ⟨lit "Missing terminating chunk.", by decide, ?_⟩
    simp [decodeStep, hnil]
  · have hpos : 0 < t.length := List.length_pos_iff.2 hnil
    have hfull : indexOf crlf (l.render ++ (crlf ++ rest)) = some l.render.length := by
      rw [crlf_eq, indexOf_first l.render_notMem]
    have hfind : find (pre ++ t) crlf pre.length = none := by
      rw [find_append, List.prefix_iff_eq_take.1 ht, indexOf_take hfull, if_neg]
      · rfl
      · rw [crlf_length]; omega
    refine ⟨lit "Truncated chunk size.", by decide, ?_⟩
    have hin : pre.length < (pre ++ t).length := by rw [List.length_append]; omega
    simp only [decodeStep, if_pos hin, hfind]

/-- An iteration at a complete size line goes by the number on it. -/
theorem decodeStep_line (l : SizeLine) (h : l.value < 2 ^ 64) (rest : Bytes) :
    decodeStep (pre ++ (l.render ++ (crlf ++ rest))) pre.length body =
      (let input := pre ++ (l.render ++ (crlf ++ rest))
       let offset := pre.length + l.render.length + 2
       if l.value = 0 then .stop (.ok ⟨true, body, []⟩)
       else if input.length < (offset + l.value + 2) % 2 ^ 64 then
         .stop (.ok ⟨false, body, lit "Truncated chunk data."⟩)
       else if input.length < (offset + l.value) % 2 ^ 64 then .stop (.error .outOfRange)
       else if substr input ((offset + l.value) % 2 ^ 64) 2 ≠ crlf then
         .stop (.ok ⟨false, body, lit "Truncated chunk data."⟩)
       else .next ((offset + l.value + 2) % 2 ^ 64) (body ++ substr input offset l.value)) := by
  have hin : pre.length < (pre ++ (l.render ++ (crlf ++ rest))).length := by
    have := List.length_pos_iff.2 l.render_ne_nil
    simp
  simp only [decodeStep, if_pos hin, l.find_line, l.substr_line, l.stoull_sizeValue h]

theorem decodeStep_last (l : SizeLine) (h : l.value = 0) (rest : Bytes) :
    decodeStep (pre ++ (l.render ++ (crlf ++ rest))) pre.length body =
      .stop (.ok ⟨true, body, []⟩) := by
  rw [decodeStep_line pre body l (by omega)]
  simp [h]

theorem decodeStep_unreadable (l : SizeLine) (h : 2 ^ 64 ≤ l.value) (rest : Bytes) :
    decodeStep (pre ++ (l.render ++ (crlf ++ rest))) pre.length body =
      .stop (.ok ⟨false, body, lit "Invalid chunk size."⟩) := by
  have hin : pre.length < (pre ++ (l.render ++ (crlf ++ rest))).length := by
    have := List.length_pos_iff.2 l.render_ne_nil
    simp
  simp only [decodeStep, if_pos hin, l.find_line, l.substr_line, l.stoull_sizeValue_none h]

theorem decodeStep_short (c : Chunk) (hfit : pre.length + c.encode.length < 2 ^ 64)
    (ht : t.length < c.data.length + 2) :
    decodeStep (pre ++ (c.line.render ++ (crlf ++ t))) pre.length body =
      .stop (.ok ⟨false, body, lit "Truncated chunk data."⟩) := by
  have hpos := List.length_pos_iff.2 c.data_ne
  have hv := c.line_value
  simp only [Chunk.encode, List.length_append, crlf_length] at hfit
  rw [decodeStep_line pre body c.line (by omega)]
  have hmod : (pre.length + c.line.render.length + 2 + c.line.value + 2) % 2 ^ 64 =
      pre.length + c.line.render.length + 2 + c.line.value + 2 := Nat.mod_eq_of_lt (by omega)
  have hlen : (pre ++ (c.line.render ++ (crlf ++ t))).length =
      pre.length + c.line.render.length + 2 + t.length := by simp; omega
  simp only [hmod, hlen]
  rw [if_neg (by omega), if_pos (by omega)]

/-- A chunk that is there is appended to the body, and the loop moves past it. -/
theorem decodeStep_chunk (c : Chunk) (rest : Bytes)
    (hfit : pre.length + c.encode.length < 2 ^ 64) :
    decodeStep (pre ++ (c.encode ++ rest)) pre.length body =
      .next (pre.length + c.encode.length) (body ++ c.data) := by
  have hpos := List.length_pos_iff.2 c.data_ne
  have hv := c.line_value
  have henc := c.length_encode
  have hin : pre ++ (c.encode ++ rest) =
      pre ++ (c.line.render ++ (crlf ++ (c.data ++ (crlf ++ rest)))) := by simp [Chunk.encode]
  rw [hin, decodeStep_line pre body c.line (by omega)]
  have hend : (pre.length + c.line.render.length + 2 + c.line.value) % 2 ^ 64 =
      pre.length + c.line.render.length + 2 + c.data.length := by
    rw [hv]; exact Nat.mod_eq_of_lt (by omega)
  have hnext : (pre.length + c.line.render.length + 2 + c.line.value + 2) % 2 ^ 64 =
      pre.length + c.encode.length := by
    rw [hv, henc]; refine (Nat.mod_eq_of_lt (by omega)).trans (by omega)
  -- the input seen from the data of the chunk, and from the line end after it
  have hdata : substr (pre ++ (c.line.render ++ (crlf ++ (c.data ++ (crlf ++ rest)))))
      (pre.length + c.line.render.length + 2) c.line.value = c.data := by
    have h1 : pre ++ (c.line.render ++ (crlf ++ (c.data ++ (crlf ++ rest)))) =
        (pre ++ c.line.render ++ crlf) ++ (c.data ++ (crlf ++ rest)) := by simp
    have h2 : pre.length + c.line.render.length + 2 = (pre ++ c.line.render ++ crlf).length := by
      simp; omega
    rw [h1, h2, hv, substr_append]
  have hclose : substr (pre ++ (c.line.render ++ (crlf ++ (c.data ++ (crlf ++ rest)))))
      (pre.length + c.line.render.length + 2 + c.data.length) 2 = crlf := by
    have h1 : pre ++ (c.line.render ++ (crlf ++ (c.data ++ (crlf ++ rest)))) =
        (pre ++ c.line.render ++ crlf ++ c.data) ++ (crlf ++ rest) := by simp
    have h2 : pre.length + c.line.render.length + 2 + c.data.length =
        (pre ++ c.line.render ++ crlf ++ c.data).length := by simp; omega
    rw [h1, h2]
    exact substr_append _ crlf _
  have hlen : (pre ++ (c.line.render ++ (crlf ++ (c.data ++ (crlf ++ rest))))).length =
      pre.length + c.encode.length + rest.length := by simp [henc]; omega
  simp only [hend, hnext, hlen, hdata, hclose]
  rw [if_neg (by omega), if_neg (by omega), if_neg (by omega), if_neg (not_not.2 rfl)]

/-! ### A chunk that is not there -/

/-- A prefix that reaches past a size line and its end. -/
theorem exists_rest_of_line {line rest : Bytes} (ht : t <+: line ++ (crlf ++ rest))
    (hle : line.length + 2 ≤ t.length) : ∃ t', t = line ++ (crlf ++ t') := by
  have hp : line ++ crlf <+: t := by
    have hfull : line ++ crlf <+: line ++ (crlf ++ rest) := ⟨rest, by simp⟩
    exact List.prefix_of_prefix_length_le hfull ht (by simpa using hle)
  obtain ⟨t', h⟩ := hp
  exact ⟨t', by simpa using h.symm⟩

theorem decodeStep_incomplete (c : Chunk) (hfit : pre.length + c.encode.length < 2 ^ 64)
    {rest : Bytes} (ht : t <+: c.encode ++ rest) (hlt : t.length < c.encode.length) :
    ∃ e, e ≠ [] ∧ decodeStep (pre ++ t) pre.length body = .stop (.ok ⟨false, body, e⟩) := by
  have hclen := c.length_encode
  have ht' : t <+: c.line.render ++ (crlf ++ (c.data ++ (crlf ++ rest))) := by
    simpa [Chunk.encode] using ht
  by_cases hline : t.length < c.line.render.length + 2
  · exact decodeStep_cut pre body c.line _ ht' hline
  · obtain ⟨data, rfl⟩ := exists_rest_of_line ht' (by omega)
    simp only [List.length_append, crlf_length] at hlt
    exact ⟨_, by decide, decodeStep_short pre body c hfit (by omega)⟩

theorem decodeStep_oversized (c : Chunk) (h : 2 ^ 64 ≤ c.data.length) {rest : Bytes}
    (ht : t <+: c.encode ++ rest) :
    ∃ e, e ≠ [] ∧ decodeStep (pre ++ t) pre.length body = .stop (.ok ⟨false, body, e⟩) := by
  have ht' : t <+: c.line.render ++ (crlf ++ (c.data ++ (crlf ++ rest))) := by
    simpa [Chunk.encode] using ht
  by_cases hline : t.length < c.line.render.length + 2
  · exact decodeStep_cut pre body c.line _ ht' hline
  · obtain ⟨data, rfl⟩ := exists_rest_of_line ht' (by omega)
    exact ⟨_, by decide, decodeStep_unreadable pre body c.line (by rwa [c.line_value]) data⟩

/-! ### The whole loop -/

theorem decodeLoop_failed {input e : Bytes} {offset : ℕ} {body : Bytes} (he : e ≠ [])
    (hstep : decodeStep input offset body = .stop (.ok ⟨false, body, e⟩)) (fuel : ℕ) :
    ∃ d, decodeLoop input (fuel + 1) offset body = .ok d ∧ d.ok = false ∧ d.error ≠ [] :=
  ⟨⟨false, body, e⟩, by rw [decodeLoop, hstep], rfl, he⟩

/-- **The decoder on a prefix `t` of an encoded body.**  By induction on the chunks; `pre` has been
decoded to `body`. -/
theorem decodeLoop_prefix (b : ChunkedBody) (pre body : Bytes)
    (hw : ¬ ChunkedBody.WrapsFrom pre.length b.chunks) {t : Bytes} (ht : t <+: b.encode) {fuel : ℕ}
    (hfuel : t.length < fuel) :
    (ChunkedBody.SizesReadable b.chunks ∧ b.decodable ≤ t.length ∧
      decodeLoop (pre ++ t) fuel pre.length body = .ok ⟨true, body ++ b.content, []⟩) ∨
    (¬ (ChunkedBody.SizesReadable b.chunks ∧ b.decodable ≤ t.length) ∧
      ∃ d, decodeLoop (pre ++ t) fuel pre.length body = .ok d ∧ d.ok = false ∧ d.error ≠ []) := by
  obtain ⟨cs, last, hlast, trailer⟩ := b
  obtain ⟨fuel, rfl⟩ : ∃ n, fuel = n + 1 := ⟨fuel - 1, by omega⟩
  induction cs generalizing pre body t fuel with
  | nil =>
    have ht' : t <+: last.render ++ (crlf ++ trailer) := ht
    have hdec : ChunkedBody.decodable ⟨[], last, hlast, trailer⟩ = last.render.length + 2 := by
      simp [ChunkedBody.decodable, ChunkedBody.encodeChunks]
    rw [hdec]
    by_cases hle : last.render.length + 2 ≤ t.length
    · obtain ⟨rest, rfl⟩ := exists_rest_of_line ht' hle
      refine Or.inl ⟨by simp [ChunkedBody.SizesReadable], hle, ?_⟩
      rw [decodeLoop, decodeStep_last pre body last hlast]
      simp [ChunkedBody.content]
    · obtain ⟨e, he, hstep⟩ := decodeStep_cut pre body last trailer ht' (by omega)
      exact Or.inr ⟨fun h => hle h.2, decodeLoop_failed he hstep fuel⟩
  | cons c cs ih =>
    set b : ChunkedBody := ⟨cs, last, hlast, trailer⟩ with hb
    have henc : ChunkedBody.encode ⟨c :: cs, last, hlast, trailer⟩ = c.encode ++ b.encode := by
      simp [ChunkedBody.encode, hb]
    have hdec : ChunkedBody.decodable ⟨c :: cs, last, hlast, trailer⟩ =
        c.encode.length + b.decodable := by
      simp [ChunkedBody.decodable, hb]; omega
    have hcontent : ChunkedBody.content ⟨c :: cs, last, hlast, trailer⟩ =
        c.data ++ b.content := by simp [ChunkedBody.content, hb]
    rw [henc] at ht
    rw [hdec, hcontent]
    by_cases hfit : pre.length + c.encode.length < 2 ^ 64
    · rw [ChunkedBody.WrapsFrom, if_pos hfit] at hw
      by_cases hc : c.encode.length ≤ t.length
      · -- the chunk is there: one iteration, then the rest of the body
        obtain ⟨t', rfl⟩ : ∃ t', t = c.encode ++ t' := by
          obtain ⟨t', h⟩ := List.prefix_of_prefix_length_le (List.prefix_append _ _) ht hc
          exact ⟨t', h.symm⟩
        have hclen := c.length_encode
        rw [List.length_append] at hfuel
        obtain ⟨fuel, rfl⟩ : ∃ n, fuel = n + 1 := ⟨fuel - 1, by omega⟩
        have hrec := ih (pre ++ c.encode) (body ++ c.data) (by rwa [List.length_append])
          ((List.prefix_append_right_inj _).1 ht) fuel (by omega)
        have hstep := decodeStep_chunk pre body c t' hfit
        have hread : ChunkedBody.SizesReadable (c :: cs) ↔ ChunkedBody.SizesReadable cs :=
          List.forall_mem_cons.trans (and_iff_right (by omega))
        simp only [List.append_assoc, List.length_append] at hrec
        simp only [decodeLoop, hstep, hread, List.length_append, Nat.add_le_add_iff_left]
        exact hrec
      · obtain ⟨e, he, hstep⟩ := decodeStep_incomplete pre body c hfit ht (by omega)
        exact Or.inr ⟨fun h => hc (Nat.le_of_add_right_le h.2), decodeLoop_failed he hstep fuel⟩
    · -- a chunk that does not wrap and ends past `2^64` has a size the decoder cannot read
      rw [ChunkedBody.WrapsFrom, if_neg hfit, not_lt] at hw
      obtain ⟨e, he, hstep⟩ := decodeStep_oversized pre body c hw ht
      have hlarge : ¬ ChunkedBody.SizesReadable (c :: cs) := fun h =>
        absurd (h c List.mem_cons_self) (not_lt.2 hw)
      exact Or.inr ⟨fun h => hlarge h.1, decodeLoop_failed he hstep fuel⟩

theorem decodeChunked_prefix (b : ChunkedBody) (hw : ¬ b.Wraps) {t : Bytes}
    (ht : t <+: b.encode) :
    (ChunkedBody.SizesReadable b.chunks ∧ b.decodable ≤ t.length ∧
      decodeChunked t = .ok ⟨true, b.content, []⟩) ∨
    (¬ (ChunkedBody.SizesReadable b.chunks ∧ b.decodable ≤ t.length) ∧
      ∃ d, decodeChunked t = .ok d ∧ d.ok = false ∧ d.error ≠ []) :=
  decodeLoop_prefix b [] [] hw ht (Nat.lt_succ_self t.length)

end Http

end TuxDock
