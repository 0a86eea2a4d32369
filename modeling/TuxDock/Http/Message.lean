import TuxDock.Http.Block

/-!
# Well-formed responses

The head of a response as its sender builds it: a status line and header lines that carry their
own well-formedness, rendered to bytes (`Head.render`).  Nothing here is translated from the
source; the results say what the two functions of the parser find in a rendered head, whatever
payload follows it:

* `StatusLine.readStatusCode_render`, `headerOf_render` : status code, names and values are read
  back;
* `Head.parse_render` : `parseHttpResponse` selects the body by `Head.framing`;
* `Head.parse_cut` : a head that is cut anywhere is reported as missing headers.
-/

namespace TuxDock

namespace Http

open Text Search

/-- The three digits of a status code. -/
def codeDigits (n : ℕ) : Bytes :=
  [UInt8.ofNat (48 + n / 100), UInt8.ofNat (48 + n / 10 % 10), UInt8.ofNat (48 + n % 10)]

/-- A status line: version, three-digit code, reason phrase. -/
structure StatusLine where
  version : Bytes
  code : ℕ
  reason : Bytes
  version_ne : version ≠ []
  version_word : ∀ c ∈ version, isspace c = false
  code_ge : 100 ≤ code
  code_le : code ≤ 999
  reason_line : (13 : UInt8) ∉ reason

/-- The text of the status line. -/
def StatusLine.render (s : StatusLine) : Bytes :=
  s.version ++ 32 :: (codeDigits s.code ++ 32 :: s.reason)

/-- A header line: a name without blanks and colons, and a value on one line. -/
structure HeaderLine where
  name : Bytes
  value : Bytes
  name_word : ∀ c ∈ name, isspace c = false
  name_colon : (58 : UInt8) ∉ name
  value_line : (13 : UInt8) ∉ value

namespace HeaderLine

/-- The text of the line. -/
def render (h : HeaderLine) : Bytes := h.name ++ 58 :: h.value

/-- The line is named `Content-Length`. -/
def isContentLength (h : HeaderLine) : Prop := lower h.name = lit "content-length"

instance (h : HeaderLine) : Decidable h.isContentLength :=
  inferInstanceAs (Decidable (lower h.name = lit "content-length"))

/-- The line is a Transfer-Encoding header whose value mentions `chunked`, in any case. -/
def isChunked (h : HeaderLine) : Prop :=
  lower h.name = lit "transfer-encoding" ∧ lit "chunked" <:+: lower (trim h.value)

instance (h : HeaderLine) : Decidable h.isChunked :=
  inferInstanceAs (Decidable (_ ∧ _))

/-- What the header loop makes of the line. -/
def apply (h : HeaderLine) (f : Framing) : Option Framing :=
  if h.isContentLength then
    (stoull 10 (lower (trim h.value))).map fun n => { f with contentLength := n }
  else if h.isChunked then some { f with chunked := true }
  else some f

variable (h : HeaderLine) (f : Framing)

theorem apply_contentLength (hc : h.isContentLength) : h.apply f =
    (stoull 10 (lower (trim h.value))).map fun n => { f with contentLength := n } := by
  simp [apply, hc]

theorem apply_chunked (hc : ¬ h.isContentLength) (ht : h.isChunked) :
    h.apply f = some { f with chunked := true } := by
  simp [apply, hc, ht]

theorem apply_other (hc : ¬ h.isContentLength) (ht : ¬ h.isChunked) : h.apply f = some f := by
  simp [apply, hc, ht]

end HeaderLine

/-- Header lines as they stand in the response, each with its line end. -/
def renderLines (lines : List HeaderLine) : Bytes := lines.flatMap fun h => h.render ++ crlf

/-- The head of a response. -/
structure Head where
  status : StatusLine
  lines : List HeaderLine

namespace Head

/-- The text of the head. -/
def render (hd : Head) : Bytes := hd.status.render ++ (crlf ++ (renderLines hd.lines ++ crlf))

/-- The framing that all lines together declare; `none` if a Content-Length is no number. -/
def framing (hd : Head) : Option Framing := hd.lines.foldlM (fun f h => h.apply f) {}

end Head

/-! ### The declared framing -/

namespace HeaderLine

/-- The length a Content-Length line declares; `none` if `std::stoull` throws. -/
def length? (h : HeaderLine) : Option ℕ := stoull 10 (lower (trim h.value))

theorem not_isContentLength_of_isChunked {h : HeaderLine} (hc : h.isChunked) :
    ¬ h.isContentLength := by
  intro hl
  exact absurd (hl.symm.trans hc.1) (by decide)

end HeaderLine

theorem foldlM_apply (lines : List HeaderLine) (f : Framing) :
    lines.foldlM (fun f h => h.apply f) f =
      ((lines.filter (·.isContentLength)).mapM HeaderLine.length?).map fun ns =>
        ⟨ns.getLastD f.contentLength, f.chunked || lines.any (·.isChunked)⟩ := by
  induction lines generalizing f with
  | nil => simp
  | cons h lines ih =>
    rw [List.foldlM_cons]
    by_cases hcl : h.isContentLength
    · -- a later length replaces an earlier one
      have hch : ¬ h.isChunked := fun hc => h.not_isContentLength_of_isChunked hc hcl
      rw [h.apply_contentLength f hcl, List.filter_cons_of_pos (by simpa using hcl),
        List.mapM_cons]
      change (h.length?.map _).bind _ = _
      cases hn : h.length? with
      | none => simp
      | some n =>
        simp only [Option.map_some, Option.bind_some, ih, List.any_cons, hch, decide_false,
          Bool.false_or]
        cases (lines.filter (·.isContentLength)).mapM HeaderLine.length? with
        | none => rfl
        | some ns => cases ns <;> rfl
    · rw [List.filter_cons_of_neg (by simpa using hcl)]
      by_cases hch : h.isChunked
      · rw [h.apply_chunked f hcl hch]
        simp [ih, hch]
      · rw [h.apply_other f hcl hch]
        simp [ih, hch]

/-- **The framing a head declares**: the last of its lengths, if it has any, and whether a
Transfer-Encoding line mentions `chunked`. -/
theorem Head.framing_eq (hd : Head) : hd.framing =
    ((hd.lines.filter (·.isContentLength)).mapM HeaderLine.length?).map fun ns =>
      ⟨ns.getLastD npos, hd.lines.any (·.isChunked)⟩ := by
  rw [framing, foldlM_apply]
  simp

/-! ### The status line -/

theorem codeDigits_digitsThen {n : ℕ} (hn : n ≤ 999) (rest : Bytes)
    (hr : ∀ c ∈ rest.head?, digitVal c = 36) :
    DigitsThen 10 (codeDigits n) rest ∧ numeral 10 (codeDigits n) = n := by
  have key : ∀ d, d ≤ 9 → digitVal (UInt8.ofNat (48 + d)) = d := by decide
  have h1 := key (n / 100) (by omega)
  have h2 := key (n / 10 % 10) (by omega)
  have h3 := key (n % 10) (by omega)
  refine ⟨⟨?_, by simp [codeDigits], hr⟩, ?_⟩
  · intro c hc
    simp only [codeDigits, List.mem_cons, List.not_mem_nil, or_false] at hc
    rcases hc with rfl | rfl | rfl <;> simp only [isDigit, h1, h2, h3, decide_eq_true_eq] <;> omega
  · simp only [numeral, codeDigits, List.map_cons, List.map_nil, List.reverse_cons,
      List.reverse_nil, List.nil_append, List.cons_append, Nat.ofDigits_cons, Nat.ofDigits_nil,
      h1, h2, h3]
    omega

namespace StatusLine

variable (s : StatusLine)

theorem codeDigits_notMem : (13 : UInt8) ∉ codeDigits s.code := by
  have key : ∀ d, d ≤ 9 → (13 : UInt8) ≠ UInt8.ofNat (48 + d) := by decide
  have := s.code_le
  simp only [codeDigits, List.mem_cons, List.not_mem_nil, or_false, not_or]
  exact ⟨key _ (by omega), key _ (by omega), key _ (by omega)⟩

theorem render_notMem : (13 : UInt8) ∉ s.render := by
  intro h
  rw [render, List.mem_append, List.mem_cons, List.mem_append, List.mem_cons] at h
  rcases h with h | h | h | h | h
  · exact absurd (s.version_word _ h) (by decide)
  · exact absurd h (by decide)
  · exact s.codeDigits_notMem h
  · exact absurd h (by decide)
  · exact s.reason_line h

/-- **The status code is read back.** -/
theorem readStatusCode_render : readStatusCode s.render = s.code := by
  have hne : s.render ≠ [] := by simp [render]
  have hskip : s.render.dropWhile isspace = s.render := by
    unfold render
    rcases hv : s.version with _ | ⟨c, l⟩
    · exact absurd hv s.version_ne
    · have hc := s.version_word c (by simp [hv])
      rw [List.cons_append, List.dropWhile_cons_of_neg (by simp [hc])]
  have hword : ∀ c ∈ s.version, (! isspace c) = true := fun c hc => by simp [s.version_word c hc]
  have hrest : s.render.dropWhile (! isspace ·) = 32 :: (codeDigits s.code ++ 32 :: s.reason) := by
    rw [render, List.dropWhile_append_of_pos hword, List.dropWhile_cons_of_neg (by decide)]
  obtain ⟨hd, hnum⟩ := codeDigits_digitsThen s.code_le (32 :: s.reason) (by simp; decide)
  have hread : readInt (32 :: (codeDigits s.code ++ 32 :: s.reason)) =
      readInt (codeDigits s.code ++ 32 :: s.reason) := by
    simp only [readInt, List.dropWhile_cons_of_pos (show isspace 32 = true by decide)]
  have hle := s.code_le
  simp only [readStatusCode, readWord, hskip, hne, ↓reduceIte, hrest]
  rw [hread, hd.readInt_eq (by omega), hnum]

end StatusLine

/-! ### Searching the head -/

variable {lines : List HeaderLine}

theorem HeaderLine.render_notMem (h : HeaderLine) : (13 : UInt8) ∉ h.render := by
  intro hm
  rw [render, List.mem_append, List.mem_cons] at hm
  rcases hm with hm | hm | hm
  · exact absurd (h.name_word _ hm) (by decide)
  · exact absurd hm (by decide)
  · exact h.value_line hm

theorem HeaderLine.render_length_pos (h : HeaderLine) : 0 < h.render.length := by
  simp [render]

@[simp] theorem renderLines_nil : renderLines [] = [] := rfl

@[simp] theorem renderLines_cons (h : HeaderLine) (lines : List HeaderLine) :
    renderLines (h :: lines) = h.render ++ (crlf ++ renderLines lines) := by
  simp [renderLines]

namespace Head

variable (hd : Head) (payload : Bytes)

theorem render_append : hd.render ++ payload =
    hd.status.render ++ (crlf ++ (renderLines hd.lines ++ (crlf ++ payload))) := by
  simp [render]

theorem render_length :
    hd.render.length = hd.status.render.length + (renderLines hd.lines).length + 4 := by
  simp [render]; omega

end Head

/-! ### The head in the bytes received -/

theorem not_crlf_infix {u : Bytes} (hu : (13 : UInt8) ∉ u) : ¬ crlf <:+: u := by
  intro h
  exact hu (h.subset (by decide))

theorem HeaderLine.isLine (h : HeaderLine) : IsLine h.render :=
  ⟨List.length_pos_iff.1 h.render_length_pos, not_crlf_infix h.render_notMem⟩

/-- The header lines before their line ends, or behind them. -/
theorem joinLines_append_crlf (lines : List HeaderLine) :
    joinLines (lines.map HeaderLine.render) ++ crlf = crlf ++ renderLines lines := by
  induction lines with
  | nil => simp
  | cons h lines ih => simp [ih]

theorem trim_name (h : HeaderLine) : trim h.name = h.name := by
  refine trim_eq_self ?_
  intro c hc
  have hs := h.name_word c hc
  rw [Bool.eq_false_iff, ne_eq, isTrimmed_iff]
  rintro (rfl | rfl | rfl | rfl) <;> revert hs <;> decide

theorem headerOf_render (h : HeaderLine) :
    headerOf h.render = some (lower h.name, lower (trim h.value)) := by
  have hcolon : indexOf (lit ":") h.render = some h.name.length := by
    have hc : lit ":" = [58] := by decide
    have hr : h.render = h.name ++ ([58] ++ h.value) := by simp [HeaderLine.render]
    rw [hc, hr, indexOf_first h.name_colon]
  have hname : h.render.take h.name.length = h.name := List.take_left
  have hvalue : h.render.drop (h.name.length + 1) = h.value := by
    rw [HeaderLine.render, ← List.drop_drop, List.drop_left]
    rfl
  rw [headerOf, hcolon, Option.map_some, hname, hvalue, trim_name]

theorem lineFraming_render (f : Framing) (h : HeaderLine) :
    lineFraming f h.render = h.apply f := by
  simp only [lineFraming, headerOf_render]
  by_cases hcl : h.isContentLength
  · rw [h.apply_contentLength f hcl]
    exact if_pos hcl
  · by_cases hch : h.isChunked
    · rw [h.apply_chunked f hcl hch]
      exact (if_neg hcl).trans (if_pos hch)
    · rw [h.apply_other f hcl hch]
      exact (if_neg hcl).trans (if_neg hch)

namespace Head

variable (hd : Head)

/-- The head as lines of text. -/
def toRaw : RawHead where
  status := hd.status.render
  lines := hd.lines.map HeaderLine.render
  status_line := not_crlf_infix hd.status.render_notMem
  lines_line := by
    intro l hl
    obtain ⟨h, -, rfl⟩ := List.mem_map.1 hl
    exact h.isLine

theorem toRaw_render : hd.toRaw.render = hd.render := by
  calc hd.toRaw.render
      = hd.status.render ++ ((joinLines (hd.lines.map HeaderLine.render) ++ crlf) ++ crlf) := by
        simp [RawHead.render, toRaw]
    _ = hd.render := by rw [joinLines_append_crlf, render, List.append_assoc]

theorem toRaw_framing : hd.toRaw.framing = hd.framing := by
  rw [RawHead.framing, toRaw, List.foldlM_map, framing]
  refine congrArg (fun g => List.foldlM g _ _) ?_
  funext f h
  exact lineFraming_render f h

/-- **Parsing a response with a complete head**: the lines decide the framing, and the framing
selects the body from the payload. -/
theorem parse_render (payload : Bytes) : parseHttpResponse (hd.render ++ payload) =
    match hd.framing with
    | none => .ok { statusCode := hd.status.code, error := lit "Invalid Content-Length." }
    | some f => selectBody hd.status.code f payload := by
  have hstatus : readStatusCode hd.toRaw.status = hd.status.code := hd.status.readStatusCode_render
  have hcode : readStatusCode hd.toRaw.status ≠ 0 := by
    have := hd.status.code_ge
    omega
  have hparse := hd.toRaw.parse_render hcode payload
  rw [hd.toRaw_render, hd.toRaw_framing, hstatus] at hparse
  exact hparse

/-- **Parsing a cut head.** -/
theorem parse_cut {p : Bytes} (hp : p <+: hd.render) (hlt : p.length < hd.render.length) :
    parseHttpResponse p =
      .ok { error := lit "Invalid response from Docker Engine: missing headers." } := by
  rw [← hd.toRaw_render] at hp hlt
  exact hd.toRaw.parse_cut hp hlt

end Head

end Http

end TuxDock
