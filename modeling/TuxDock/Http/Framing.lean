import TuxDock.Http.Block

/-!
# Two decisions about one payload

How a payload is delimited is decided twice: `parseHttpResponse` goes by the header lines
(`parseDelimiter`), `httpResponseComplete` by a search of the header block (`stopDelimiter`).

* `RawHead.announced_eq` : the search in terms of the block alone, without the positions modulo
  `2^64` the source computes with;
* `framings_agree_iff` : **each function goes by its own decision, and the two are the same exactly
  when the words stand in the block as the lines mean them** (`RawHead.FramingClear`);
* `framings_differ` : two heads on which they are not.
-/

namespace TuxDock

namespace Http

open Text Search

/-- What ends a payload. -/
inductive Delimiter where
  | chunked
  | length (n : ℕ)
  | close
  deriving Repr, DecidableEq

/-- The decision behind the payload selection of `parseHttpResponse`. -/
def Framing.delimiter (f : Framing) : Delimiter :=
  if f.chunked then .chunked
  else if f.contentLength ≠ npos then .length f.contentLength
  else .close

/-- The decision behind the last part of `httpResponseComplete`. -/
def announced (headers : Bytes) : Delimiter :=
  if announcesChunked headers then .chunked
  else
    match announcedLength headers with
    | none => .close
    | some n => .length n

/-- How `parseHttpResponse` delimits the payload; `none` if it rejects the header lines. -/
def parseDelimiter (raw : Bytes) : Option Delimiter :=
  match find raw (crlf ++ crlf) 0, find raw crlf 0 with
  | some headerEnd, some statusEnd =>
    (scanHeaders raw headerEnd headerEnd (statusEnd + 2) {}).map Framing.delimiter
  | _, _ => none

/-- How `httpResponseComplete` delimits the payload. -/
def stopDelimiter (raw : Bytes) : Delimiter :=
  match find raw (crlf ++ crlf) 0, find raw crlf 0 with
  | some headerEnd, some statusEnd =>
    announced (substr raw (statusEnd + 2) (sub64 (sub64 headerEnd statusEnd) 2))
  | _, _ => .close

/-- A payload parsed by a delimiter. -/
def parseBy (statusCode : ℤ) (payload : Bytes) : Option Delimiter → Except Fault ParsedHttpResponse
  | none => .ok { statusCode, error := lit "Invalid Content-Length." }
  | some .chunked => selectBody statusCode { chunked := true } payload
  | some (.length n) => selectBody statusCode { contentLength := n } payload
  | some .close => selectBody statusCode {} payload

/-- A buffer complete by a delimiter. -/
def completeBy (headLength : ℕ) (payload : Bytes) : Delimiter → Bool
  | .chunked => (find payload lastChunkMark 0).isSome
  | .length n => (headLength + n) % 2 ^ 64 ≤ headLength + payload.length
  | .close => false

/-! ### What the lines and the block say -/

/-- The text up to the next line end. -/
def lineText (s : Bytes) : Bytes := s.take ((indexOf crlf s).getD s.length)

/-- The number of the last Content-Length line. -/
def LastLength (lines : List Bytes) (n : ℕ) : Prop :=
  ∃ value, (lengths lines).getLast? = some value ∧ stoull 10 value = some n

/-- The number behind the first `content-length:` in the block, in any case. -/
def FirstLength (block : Bytes) (n : ℕ) : Prop :=
  ∃ i, indexOf (lit "content-length:") (lower block) = some i ∧
    stoull 10 (trim (lineText (block.drop (i + 15)))) = some n

/-- Somewhere behind a `Transfer-Encoding:`, in this spelling, the block mentions `chunked`. -/
def ChunkedText (block : Bytes) : Prop :=
  ∃ text, text <:+ block ∧ lit "Transfer-Encoding:" <+: text ∧ lit "chunked" <:+: lower text

/-- The words that declare a framing stand in the block as the lines mean them. -/
structure RawHead.FramingClear (hd : RawHead) : Prop where
  /-- Every length is a number. -/
  readable : ∀ value ∈ lengths hd.lines, (stoull 10 value).isSome
  /-- A line declares a chunked coding exactly when the text of the block does. -/
  chunked : (∃ l ∈ hd.lines, isChunkedLine l = true) ↔ ChunkedText hd.block
  /-- Otherwise the last line with a length and the first text with one give the same number. -/
  length : (∀ l ∈ hd.lines, isChunkedLine l = false) →
    ∀ n, LastLength hd.lines n ∧ n ≠ npos ↔ FirstLength hd.block n

/-! ### The search of the block -/

theorem announcesChunked_iff {block : Bytes} :
    announcesChunked block = true ↔ ChunkedText block := by
  rw [announcesChunked, find_zero]
  constructor
  · intro h
    cases hi : indexOf (lit "Transfer-Encoding:") block with
    | none => rw [hi] at h; cases h
    | some i =>
      simp only [hi, find_zero, indexOf_isSome_iff] at h
      exact ⟨block.drop i, List.drop_suffix i block, prefix_of_indexOf hi, h⟩
  · rintro ⟨text, ⟨before, rfl⟩, hte, hch⟩
    -- the first match is no later than this one
    have hocc : lit "Transfer-Encoding:" <+: (before ++ text).drop before.length := by
      rwa [List.drop_left]
    obtain ⟨i, hi, hfind⟩ := exists_indexOf_le hocc
    simp only [hfind, find_zero, indexOf_isSome_iff]
    refine hch.trans (lower_isInfix ?_)
    have hsuffix := List.drop_suffix_drop_left (before ++ text) hi
    rw [List.drop_left] at hsuffix
    exact hsuffix.isInfix

/-- The text of a match in the lowered block. -/
theorem exists_label {block : Bytes} {i : ℕ}
    (h : indexOf (lit "content-length:") (lower block) = some i) :
    ∃ label rest, block.drop i = label ++ (lit ":" ++ rest) ∧ lower label = lit "content-length" ∧
      i + 15 ≤ block.length ∧ rest = block.drop (i + 15) := by
  obtain ⟨t, ht⟩ := prefix_of_indexOf h
  have hsplit : lit "content-length:" = lit "content-length" ++ [58] := by decide
  rw [hsplit, List.append_assoc, ← lower_drop, lower] at ht
  obtain ⟨label, u, hdrop, hlabel, hu⟩ := List.map_eq_append_iff.1 ht.symm
  obtain ⟨colon, rest, rfl, hcolon, -⟩ := List.map_eq_append_iff.1 hu
  obtain ⟨c, rfl, hc⟩ := List.map_eq_singleton_iff.1 hcolon
  obtain rfl := eq_of_tolower_eq (by decide) hc
  have h14 : label.length = 14 := by
    have := congrArg List.length hlabel
    rwa [List.length_map] at this
  have hlen := congrArg List.length hdrop
  simp only [List.length_drop, List.length_append, List.length_singleton, h14] at hlen
  refine ⟨label, rest, hdrop, hlabel, by omega, ?_⟩
  have h15 : (label ++ [58]).length = 15 := by simp [h14]
  rw [← List.drop_drop, hdrop, ← h15, ← List.append_assoc, List.drop_left]

/-- A byte of the label that has no case is one of `content-length`. -/
theorem notMem_label {label : Bytes} (h : lower label = lit "content-length") {c : UInt8}
    (hc : tolower c ∉ lit "content-length") : c ∉ label := by
  intro hmem
  refine hc ?_
  rw [← h]
  exact List.mem_map_of_mem hmem

/-- **The announced length in terms of the block alone.** -/
theorem announcedLength_eq {block : Bytes} (hfit : block.length < 2 ^ 64) :
    announcedLength block = (indexOf (lit "content-length:") (lower block)).bind fun i =>
      stoull 10 (trim (lineText (block.drop (i + 15)))) := by
  rw [announcedLength, find_zero]
  cases hi : indexOf (lit "content-length:") (lower block) with
  | none => rfl
  | some i =>
    obtain ⟨label, rest, hdrop, hlabel, hlen, hrest⟩ := exists_label hi
    have h14 : label.length = 14 := by
      have := congrArg List.length hlabel
      rwa [length_lower] at this
    have h58 : (58 : UInt8) ∉ label := notMem_label hlabel (by decide)
    have h13 : (13 : UInt8) ∉ label ++ lit ":" := by
      rw [List.mem_append]
      rintro (h | h)
      · exact notMem_label hlabel (by decide) h
      · exact absurd h (by decide)
    have hcolon : find block (lit ":") i = some (i + 14) := by
      have hc : lit ":" = [58] := by decide
      rw [find, if_pos (by omega), hdrop, hc, indexOf_first h58, h14]
      rfl
    have hend : find block crlf i = (indexOf crlf rest).map (i + 15 + ·) := by
      rw [find, if_pos (by omega), hdrop, ← List.append_assoc, crlf_eq,
        indexOf_append_of_notMem h13, Option.map_map]
      refine congrArg (fun g => Option.map g _) (funext fun k => ?_)
      simp [h14, lit]
      omega
    have hrestlen : rest.length = block.length - (i + 15) := by rw [hrest, List.length_drop]
    simp only [hcolon, hend, Option.bind_some, ← hrest]
    refine congrArg (fun t => stoull 10 (trim t)) ?_
    rw [substr, lineText, show i + 14 + 1 = i + 15 from rfl, ← hrest]
    cases hk : indexOf crlf rest with
    | none =>
      -- `npos` reaches past the end of the block
      have hn : sub64 (sub64 npos (i + 14)) 1 = 2 ^ 64 - i - 16 := by
        unfold sub64 npos; omega
      rw [Option.map_none, Option.getD_none, Option.getD_none, hn, List.take_length]
      exact List.take_of_length_le (by omega)
    | some k =>
      have hle := le_length_of_indexOf hk
      have hn : sub64 (sub64 (i + 15 + k) (i + 14)) 1 = k := by
        rw [crlf_length] at hle
        unfold sub64; omega
      rw [Option.map_some, Option.getD_some, Option.getD_some, hn]

theorem announcedLength_eq_some_iff {block : Bytes} (hfit : block.length < 2 ^ 64) {n : ℕ} :
    announcedLength block = some n ↔ FirstLength block n := by
  rw [announcedLength_eq hfit, Option.bind_eq_some_iff]
  rfl

/-! ### The two decisions -/

theorem selectBody_eq {statusCode : ℤ} (payload : Bytes) (f : Framing) :
    selectBody statusCode f payload = parseBy statusCode payload (some f.delimiter) := by
  rcases f with ⟨n, _ | _⟩
  · by_cases hn : n = npos
    · subst hn; rfl
    · have hd : Framing.delimiter ⟨n, false⟩ = .length n := by simp [Framing.delimiter, hn]
      rw [hd]
      rfl
  · simp only [Framing.delimiter, ↓reduceIte, parseBy, selectBody]

/-- The mark for no length is no length. -/
theorem Framing.ne_npos {f : Framing} {n : ℕ} (h : f.delimiter = .length n) : n ≠ npos := by
  unfold Framing.delimiter at h
  split_ifs at h with hch hn
  cases h
  exact hn

theorem delimiter_eq_announced_iff (f : Framing) (block : Bytes) :
    f.delimiter = announced block ↔
      (f.chunked = true ↔ announcesChunked block = true) ∧
        (f.chunked = false → ∀ n, f.contentLength = n ∧ n ≠ npos ↔
          announcedLength block = some n) := by
  rcases f with ⟨m, _ | _⟩ <;> rcases hb : announcesChunked block with _ | _
  · -- neither is chunked: the lengths decide
    rcases hl : announcedLength block with _ | k
    · have hclose : (Framing.mk m false).delimiter = announced block ↔ m = npos := by
        by_cases hm : m = npos <;> simp [Framing.delimiter, announced, hb, hl, hm]
      rw [hclose]
      constructor
      · intro hm
        refine ⟨Iff.rfl, ?_⟩
        intro _ n
        simp only [reduceCtorEq, iff_false, not_and_not_right]
        intro hn
        exact hn.symm.trans hm
      · intro h
        by_contra hm
        exact absurd ((h.2 rfl m).1 ⟨rfl, hm⟩) (by simp)
    · have hlength : (Framing.mk m false).delimiter = announced block ↔ m = k ∧ k ≠ npos := by
        by_cases hm : m = npos
        · simpa [Framing.delimiter, announced, hb, hl, hm] using fun h => h.symm
        · simpa [Framing.delimiter, announced, hb, hl, hm] using fun h => h ▸ hm
      rw [hlength]
      constructor
      · intro hm
        refine ⟨Iff.rfl, ?_⟩
        intro _ n
        rw [Option.some.injEq]
        constructor
        · intro hn
          exact hm.1.symm.trans hn.1
        · rintro rfl
          exact hm
      · intro h
        exact (h.2 rfl k).2 rfl
  · by_cases hm : m = npos <;> simp [Framing.delimiter, announced, hb, hm]
  · rcases hl : announcedLength block with _ | k <;>
      simp [Framing.delimiter, announced, hb, hl]
  · simp [Framing.delimiter, announced, hb]

namespace RawHead

variable (hd : RawHead) (payload : Bytes)

theorem parseDelimiter_render :
    parseDelimiter (hd.render ++ payload) = hd.framing.map Framing.delimiter := by
  simp only [parseDelimiter, hd.find_headerEnd, hd.find_statusEnd, hd.scanHeaders_render]

theorem stopDelimiter_render (hl : hd.lines ≠ [])
    (hfit : (hd.render ++ payload).length < 2 ^ 64) :
    stopDelimiter (hd.render ++ payload) = announced hd.block := by
  simp only [stopDelimiter, hd.find_headerEnd, hd.find_statusEnd, hd.substr_block payload hfit,
    searched, if_neg hl]

theorem length_block_le : hd.block.length ≤ hd.render.length := by
  rw [block, List.length_drop, hd.render_length]
  omega

/-- **When the two decisions are the same.** -/
theorem delimiters_agree_iff (hfit : hd.render.length < 2 ^ 64) :
    hd.framing.map Framing.delimiter = some (announced hd.block) ↔ hd.FramingClear := by
  have hblock : hd.block.length < 2 ^ 64 := hd.length_block_le.trans_lt hfit
  have hany : hd.lines.any isChunkedLine = true ↔ ∃ l ∈ hd.lines, isChunkedLine l = true :=
    List.any_eq_true
  have hnone : hd.lines.any isChunkedLine = false ↔ ∀ l ∈ hd.lines, isChunkedLine l = false := by
    simp
  cases hf : hd.framing with
  | none =>
    refine iff_of_false (by simp) ?_
    intro hclear
    have hsome := hd.framing_isSome_iff.2 hclear.readable
    rw [hf] at hsome
    cases hsome
  | some f =>
    have hread := hd.framing_isSome_iff.1 (by rw [hf]; rfl)
    obtain ⟨hch, hlen⟩ := framing_eq_some hf
    have hlast (n : ℕ) : f.contentLength = n ∧ n ≠ npos ↔ LastLength hd.lines n ∧ n ≠ npos := by
      refine and_congr_left fun hn => ?_
      rw [hlen, LastLength, ← Option.bind_eq_some_iff]
      cases (lengths hd.lines).getLast?.bind (stoull 10) with
      | none => simpa using fun h => hn h.symm
      | some k => simp
    rw [Option.map_some, Option.some.injEq, delimiter_eq_announced_iff, hch, hany, hnone]
    simp only [hlast, announcesChunked_iff, announcedLength_eq_some_iff hblock]
    constructor
    · rintro ⟨hchunked, hlength⟩
      exact ⟨hread, hchunked, hlength⟩
    · intro hclear
      exact ⟨hclear.chunked, hclear.length⟩

end RawHead

/-- **The two functions on a response with a header block**: each goes by its own decision, and the
decisions are the same exactly when the head is clear about the framing. -/
theorem framings_agree_iff (hd : RawHead) (hl : hd.lines ≠ [])
    (hcode : readStatusCode hd.status ≠ 0) (hb : bodyless (readStatusCode hd.status) = false)
    (payload method : Bytes) (hm : method ≠ lit "HEAD")
    (hfit : (hd.render ++ payload).length < 2 ^ 64) :
    let raw := hd.render ++ payload
    parseHttpResponse raw = parseBy (readStatusCode hd.status) payload (parseDelimiter raw) ∧
      httpResponseComplete raw method =
        completeBy hd.render.length payload (stopDelimiter raw) ∧
      (parseDelimiter raw = some (stopDelimiter raw) ↔ hd.FramingClear) := by
  refine ⟨?_, ?_, ?_⟩
  · rw [hd.parse_render hcode, hd.parseDelimiter_render]
    cases hd.framing with
    | none => rfl
    | some f => exact selectBody_eq payload f
  · rw [hd.complete_render method hm hb payload hfit, hd.stopDelimiter_render payload hl hfit,
      RawHead.searched, if_neg hl, announced]
    split_ifs with hch
    · rfl
    · cases announcedLength hd.block <;> rfl
  · have hhead : hd.render.length < 2 ^ 64 := by
      rw [List.length_append] at hfit
      omega
    rw [hd.parseDelimiter_render, hd.stopDelimiter_render payload hl hfit,
      hd.delimiters_agree_iff hhead]

/-- A head with the status line `HTTP/1.1 200 OK`. -/
def okRaw (lines : List Bytes) (hlines : ∀ l ∈ lines, IsLine l) : RawHead where
  status := lit "HTTP/1.1 200 OK"
  lines := lines
  status_line := by decide +kernel
  lines_line := hlines

/-- A head that declares five bytes. -/
def lengthHead : RawHead :=
  okRaw [lit "Content-Length: 5", lit "X-Id: 7"] (by decide +kernel)

theorem framings_agree_iff_length :
    parseDelimiter (lengthHead.render ++ lit "hello") =
        some (stopDelimiter (lengthHead.render ++ lit "hello")) ↔ lengthHead.FramingClear :=
  (framings_agree_iff lengthHead (by decide) (by decide +kernel) (by decide +kernel) (lit "hello")
    (lit "GET") (by decide) (by decide +kernel)).2.2

/-- The name of the coding in lower case, and another name that ends like the length's. -/
def lowerCaseHead : RawHead := okRaw [lit "transfer-encoding: chunked"] (by decide +kernel)

/-- A head with a line that ends like a length. -/
def otherLengthHead : RawHead := okRaw [lit "X-Content-Length: 3"] (by decide +kernel)

/-- **Two heads on which the decisions differ**: the first reply is read until a timeout, the second
is cut. -/
theorem framings_differ :
    parseDelimiter lowerCaseHead.render = some .chunked ∧
      stopDelimiter lowerCaseHead.render = .close ∧
      parseDelimiter otherLengthHead.render = some .close ∧
      stopDelimiter otherLengthHead.render = .length 3 := by
  decide +kernel

end Http

end TuxDock
