import TuxDock.Http.Parser

/-!
# The head of a response

A head as it stands in the bytes received: a status line and header lines that are not empty and
contain no line end, and nothing else is known of them (`RawHead`).  Every response with a complete
head is one of these with a payload behind it (`exists_rawHead`), and both functions of the parser
are read off it line by line:

* `RawHead.scanHeaders_eq` : the header loop meets the lines one after the other, each on its own
  (`lineFraming`);
* `RawHead.framing_eq` : the framing that comes out, the last of the lengths and any mention of
  `chunked`;
* `RawHead.complete_render` : what the early stop looks at.
-/

namespace TuxDock

namespace Http

open Text Search

theorem crlf_eq : crlf = [13, 10] := by decide

@[simp] theorem crlf_length : crlf.length = 2 := by decide

/-- Header lines as they follow the status line, each behind a line end. -/
def joinLines (lines : List Bytes) : Bytes := lines.flatMap fun l => crlf ++ l

/-- A header line of a response: it is not empty, and a line end would end it. -/
def IsLine (l : Bytes) : Prop := l ≠ [] ∧ ¬ crlf <:+: l

instance (l : Bytes) : Decidable (IsLine l) := inferInstanceAs (Decidable (_ ∧ _))

/-- A status line and header lines. -/
structure RawHead where
  status : Bytes
  lines : List Bytes
  status_line : ¬ crlf <:+: status
  lines_line : ∀ l ∈ lines, IsLine l

namespace RawHead

/-- The text of the head. -/
def render (hd : RawHead) : Bytes := hd.status ++ (joinLines hd.lines ++ (crlf ++ crlf))

/-- The header block between the status line and the end of the head. -/
def block (hd : RawHead) : Bytes := (joinLines hd.lines).drop 2

end RawHead

/-! ### Line ends -/

@[simp] theorem joinLines_nil : joinLines [] = [] := rfl

@[simp] theorem joinLines_cons (l : Bytes) (lines : List Bytes) :
    joinLines (l :: lines) = crlf ++ (l ++ joinLines lines) := by
  simp [joinLines]

theorem joinLines_append (front back : List Bytes) :
    joinLines (front ++ back) = joinLines front ++ joinLines back := List.flatMap_append

theorem le_joinLines_length (lines : List Bytes) : lines.length ≤ (joinLines lines).length := by
  induction lines with
  | nil => simp
  | cons l lines ih => simp; omega

theorem exists_joinLines_append (lines : List Bytes) (v : Bytes) :
    ∃ w, joinLines lines ++ (crlf ++ v) = crlf ++ w := by
  cases lines with
  | nil => exact ⟨v, rfl⟩
  | cons l lines => exact ⟨l ++ joinLines lines ++ (crlf ++ v), by simp⟩

theorem indexOf_crlf_line {u : Bytes} (hu : ¬ crlf <:+: u) (v : Bytes) :
    indexOf crlf (u ++ (crlf ++ v)) = some u.length := by
  rw [crlf_eq] at hu ⊢
  exact indexOf_pair (by decide) hu v

theorem IsLine.not_crlf {l : Bytes} (hl : IsLine l) (v : Bytes) : ¬ crlf <+: l ++ (crlf ++ v) := by
  intro h
  have hfirst := indexOf_crlf_line hl.2 v
  rw [indexOf_eq_zero h, Option.some.injEq] at hfirst
  exact hl.1 (List.length_eq_zero_iff.1 hfirst.symm)

/-- After a line, a double line end starts at once or is that of what follows the line end. -/
theorem indexOf_crlf2_line {u : Bytes} (hu : ¬ crlf <:+: u) (v : Bytes) :
    indexOf (crlf ++ crlf) (u ++ (crlf ++ v)) =
      if crlf <+: v then some u.length
      else (indexOf (crlf ++ crlf) v).map (· + (u.length + 2)) := by
  have hbefore : ∀ j < u.length, ¬ crlf ++ crlf <+: (u ++ (crlf ++ v)).drop j := by
    intro j hj h
    refine (indexOf_eq_some_iff.1 (indexOf_crlf_line hu v)).2 j hj ?_
    exact (List.prefix_append _ _).trans h
  rw [indexOf_skip (by simp) hbefore, List.drop_left]
  split_ifs with hv
  · rw [indexOf_eq_zero ((List.prefix_append_right_inj crlf).2 hv)]
    simp
  · -- a double line end starts neither at this line end nor inside it
    have h0 : ¬ crlf ++ crlf <+: 13 :: 10 :: v := by
      intro h
      exact hv ((List.prefix_append_right_inj crlf).1 (by simpa [crlf_eq] using h))
    have h1 : ¬ crlf ++ crlf <+: 10 :: v := by
      intro h; simp [crlf_eq] at h
    have hv' : crlf ++ v = 13 :: 10 :: v := by simp [crlf_eq]
    rw [hv', indexOf_cons_succ h0, indexOf_cons_succ h1]
    cases indexOf (crlf ++ crlf) v with
    | none => rfl
    | some i => simp; omega

/-- The first double line end is the one behind the last line. -/
theorem indexOf_joinLines {lines : List Bytes} (hlines : ∀ l ∈ lines, IsLine l) {u : Bytes}
    (hu : ¬ crlf <:+: u) (payload : Bytes) :
    indexOf (crlf ++ crlf) (u ++ (joinLines lines ++ (crlf ++ (crlf ++ payload)))) =
      some (u.length + (joinLines lines).length) := by
  induction lines generalizing u with
  | nil =>
    rw [joinLines_nil, List.nil_append, indexOf_crlf2_line hu, if_pos (List.prefix_append _ _)]
    simp
  | cons l lines ih =>
    obtain ⟨hl, hlines⟩ := List.forall_mem_cons.1 hlines
    obtain ⟨w, hw⟩ := exists_joinLines_append lines (crlf ++ payload)
    have hnot : ¬ crlf <+: l ++ (joinLines lines ++ (crlf ++ (crlf ++ payload))) := by
      rw [hw]; exact hl.not_crlf w
    rw [joinLines_cons, List.append_assoc, List.append_assoc, indexOf_crlf2_line hu, if_neg hnot,
      ih hlines hl.2]
    simp; omega

/-! ### Every complete head -/

/-- A text up to a double line end consists of lines: by induction on its length. -/
theorem exists_lines {s : Bytes} {i : ℕ} (h : indexOf (crlf ++ crlf) s = some i) :
    ∃ u lines payload, ¬ crlf <:+: u ∧ (∀ l ∈ lines, IsLine l) ∧
      s = u ++ (joinLines lines ++ (crlf ++ (crlf ++ payload))) := by
  induction hn : s.length using Nat.strong_induction_on generalizing s i with
  | h n ih =>
    have hocc : crlf <+: s.drop i := (List.prefix_append _ _).trans (prefix_of_indexOf h)
    obtain ⟨j, -, hj⟩ := exists_indexOf_le hocc
    have hsplit := eq_append_of_indexOf hj
    have hu := not_infix_take (by decide) hj
    generalize s.take j = u at hsplit hu
    generalize s.drop (j + crlf.length) = v at hsplit
    subst hsplit
    rw [indexOf_crlf2_line hu] at h
    split_ifs at h with hv
    · -- the head ends with this line
      obtain ⟨payload, rfl⟩ := hv
      exact ⟨u, [], payload, hu, by simp, rfl⟩
    · obtain ⟨i', hi', -⟩ := Option.map_eq_some_iff.1 h
      obtain ⟨u', lines, payload, hu', hlines, rfl⟩ := ih v.length (by simp [← hn]; omega) hi' rfl
      refine ⟨u, u' :: lines, payload, hu, ?_, by simp⟩
      refine List.forall_mem_cons.2 ⟨⟨?_, hu'⟩, hlines⟩
      rintro rfl
      obtain ⟨w, hw⟩ := exists_joinLines_append lines (crlf ++ payload)
      rw [List.nil_append, hw] at hv
      exact hv (List.prefix_append _ _)

/-- **Every response with a complete head** is a rendered head with a payload. -/
theorem exists_rawHead {raw : Bytes} {i : ℕ} (h : find raw (crlf ++ crlf) 0 = some i) :
    ∃ (hd : RawHead) (payload : Bytes), raw = hd.render ++ payload := by
  rw [find_zero] at h
  obtain ⟨u, lines, payload, hu, hlines, hraw⟩ := exists_lines h
  exact ⟨⟨u, lines, hu, hlines⟩, payload, by simpa [RawHead.render] using hraw⟩

namespace RawHead

variable (hd : RawHead) (payload : Bytes)

theorem render_append : hd.render ++ payload =
    hd.status ++ (joinLines hd.lines ++ (crlf ++ (crlf ++ payload))) := by
  simp [render]

theorem render_length :
    hd.render.length = hd.status.length + (joinLines hd.lines).length + 4 := by
  simp [render]; omega

theorem find_headerEnd : find (hd.render ++ payload) (crlf ++ crlf) 0 =
    some (hd.status.length + (joinLines hd.lines).length) := by
  rw [find_zero, render_append, indexOf_joinLines hd.lines_line hd.status_line]

theorem find_statusEnd : find (hd.render ++ payload) crlf 0 = some hd.status.length := by
  obtain ⟨w, hw⟩ := exists_joinLines_append hd.lines (crlf ++ payload)
  rw [find_zero, render_append, hw, indexOf_crlf_line hd.status_line]

theorem substr_status : substr (hd.render ++ payload) 0 hd.status.length = hd.status := by
  rw [render_append]; exact substr_append [] _ _

theorem drop_headerEnd :
    (hd.render ++ payload).drop (hd.status.length + (joinLines hd.lines).length + 4) =
      payload := by
  rw [← hd.render_length, List.drop_left]

/-- **A cut head**: a proper prefix of the head has no double line end. -/
theorem find_headerEnd_cut {p : Bytes} (hp : p <+: hd.render) (hlt : p.length < hd.render.length) :
    find p (crlf ++ crlf) 0 = none := by
  have hfull := hd.find_headerEnd []
  rw [List.append_nil, find_zero] at hfull
  rw [find_zero, List.prefix_iff_eq_take.1 hp, indexOf_take hfull, if_neg]
  have := hd.render_length
  simp only [List.length_append, crlf_length]
  omega

end RawHead

/-! ### The header loop, line by line -/

/-- The name and the value of a header line, blanks and case ignored; `none` without a colon. -/
def headerOf (line : Bytes) : Option (Bytes × Bytes) :=
  (indexOf (lit ":") line).map fun i =>
    (lower (trim (line.take i)), lower (trim (line.drop (i + 1))))

/-- What the header loop makes of a line. -/
def lineFraming (f : Framing) (line : Bytes) : Option Framing :=
  match headerOf line with
  | none => some f
  | some (name, value) =>
    if name = lit "content-length" then
      (stoull 10 value).map fun n => { f with contentLength := n }
    else if name = lit "transfer-encoding" ∧ lit "chunked" <:+: value then
      some { f with chunked := true }
    else some f

/-- The loop body in the middle of a buffer: `pre` has been passed, the line stands next. -/
theorem scanLine_eq (pre line rest : Bytes) (f : Framing) :
    scanLine (pre ++ (line ++ rest)) pre.length (pre.length + line.length) f =
      lineFraming f line := by
  rw [scanLine, find_append, lineFraming, headerOf]
  cases hi : indexOf (lit ":") line with
  | none =>
    -- a colon that is found stands behind the line
    cases hcolon : indexOf (lit ":") (line ++ rest) with
    | none => rfl
    | some i =>
      have hlt : ¬ pre.length + i < pre.length + line.length := by
        intro hlt
        have htake := indexOf_take hcolon line.length
        have hone : (lit ":").length = 1 := by decide
        rw [List.take_left, hi, if_pos (by omega)] at htake
        cases htake
      simp only [Option.map_some, hlt, ↓reduceIte, Option.map_none]
  | some i =>
    have hle := le_length_of_indexOf hi
    have hone : (lit ":").length = 1 := by decide
    have hlt : pre.length + i < pre.length + line.length := by omega
    have hname : substr (pre ++ (line ++ rest)) pre.length (pre.length + i - pre.length) =
        line.take i := by
      rw [Nat.add_sub_cancel_left, substr, List.drop_left, List.take_append_of_le_length (by omega)]
    have hvalue : substr (pre ++ (line ++ rest)) (pre.length + i + 1)
        (pre.length + line.length - (pre.length + i) - 1) = line.drop (i + 1) := by
      rw [substr, Nat.add_assoc, ← List.drop_drop, List.drop_left,
        List.drop_append_of_le_length (by omega)]
      have hn : pre.length + line.length - (pre.length + i) - 1 = (line.drop (i + 1)).length := by
        rw [List.length_drop]; omega
      rw [hn, List.take_left]
    simp only [indexOf_append_of_eq_some hi, Option.map_some, hlt, ↓reduceIte, hname, hvalue,
      find_zero, indexOf_isSome_iff]

/-- **The header loop meets exactly the header lines, in order.**  By induction on the lines that
are left; `pre` is what the loop has passed. -/
theorem scanHeaders_eq (pre : Bytes) {lines : List Bytes} (hlines : ∀ l ∈ lines, IsLine l)
    (payload : Bytes) (f : Framing) {fuel : ℕ} (hfuel : lines.length ≤ fuel) :
    scanHeaders (pre ++ (joinLines lines ++ (crlf ++ (crlf ++ payload))))
        (pre.length + (joinLines lines).length) fuel (pre.length + 2) f =
      lines.foldlM lineFraming f := by
  induction lines generalizing pre f fuel with
  | nil =>
    cases fuel with
    | zero => rfl
    | succ fuel =>
      rw [scanHeaders, if_neg (by simp)]
      rfl
  | cons l lines ih =>
    obtain ⟨fuel, rfl⟩ : ∃ n, fuel = n + 1 := ⟨fuel - 1, by simp at hfuel; omega⟩
    obtain ⟨hl, hlines⟩ := List.forall_mem_cons.1 hlines
    have hpos := List.length_pos_iff.2 hl.1
    obtain ⟨w, hw⟩ := exists_joinLines_append lines (crlf ++ payload)
    have hbuf : pre ++ (joinLines (l :: lines) ++ (crlf ++ (crlf ++ payload))) =
        (pre ++ crlf) ++ (l ++ (joinLines lines ++ (crlf ++ (crlf ++ payload)))) := by simp
    have hstart : pre.length + 2 = (pre ++ crlf).length := by simp
    have hlen : (joinLines (l :: lines)).length = 2 + l.length + (joinLines lines).length := by
      simp; omega
    have hend : find ((pre ++ crlf) ++ (l ++ (joinLines lines ++ (crlf ++ (crlf ++ payload))))) crlf
        (pre ++ crlf).length = some ((pre ++ crlf).length + l.length) := by
      rw [find_append, hw, indexOf_crlf_line hl.2]
      rfl
    have hnext (f : Framing) := ih (pre ++ crlf ++ l) hlines f (by simpa using hfuel)
    rw [scanHeaders, if_pos (by omega), hbuf, hstart, hend]
    simp only
    rw [if_neg (by simp; omega), scanLine_eq, List.foldlM_cons]
    cases ha : lineFraming f l with
    | none => rfl
    | some f' =>
      have he : pre.length + (joinLines (l :: lines)).length =
          (pre ++ crlf ++ l).length + (joinLines lines).length := by simp; omega
      have ho : (pre ++ crlf).length + l.length + 2 = (pre ++ crlf ++ l).length + 2 := by
        simp; omega
      rw [he, ho, ← List.append_assoc (pre ++ crlf) l]
      exact hnext f'

/-! ### The declared framing -/

/-- The value of a line with the name `name`. -/
def valueOf (name line : Bytes) : Option Bytes :=
  (headerOf line).bind fun h => if h.1 = name then some h.2 else none

/-- The values of the lines called Content-Length, in order. -/
def lengths (lines : List Bytes) : List Bytes := lines.filterMap (valueOf (lit "content-length"))

/-- The line is called Transfer-Encoding and mentions `chunked`. -/
def isChunkedLine (line : Bytes) : Bool :=
  (valueOf (lit "transfer-encoding") line).any fun value => lit "chunked" <:+: value

theorem valueOf_eq_some_iff {name line value : Bytes} :
    valueOf name line = some value ↔ headerOf line = some (name, value) := by
  rw [valueOf, Option.bind_eq_some_iff]
  constructor
  · rintro ⟨⟨name', value'⟩, hheader, h⟩
    dsimp only at h
    split_ifs at h with hname
    cases h
    rw [hheader, hname]
  · intro h
    exact ⟨(name, value), h, if_pos rfl⟩

theorem lineFraming_length {f : Framing} {line value : Bytes}
    (h : valueOf (lit "content-length") line = some value) :
    lineFraming f line = (stoull 10 value).map fun n => { f with contentLength := n } := by
  simp only [lineFraming, valueOf_eq_some_iff.1 h, ↓reduceIte]

/-- A line that declares a length declares no chunked coding. -/
theorem isChunkedLine_of_length {line value : Bytes}
    (h : valueOf (lit "content-length") line = some value) : isChunkedLine line = false := by
  have hne : valueOf (lit "transfer-encoding") line = none := by
    rw [Option.eq_none_iff_forall_ne_some]
    intro v hv
    rw [valueOf_eq_some_iff] at h hv
    rw [h, Option.some.injEq, Prod.mk.injEq] at hv
    exact absurd hv.1 (by decide)
  rw [isChunkedLine, hne]
  rfl

/-- A line that declares no length declares a chunked coding or nothing. -/
theorem lineFraming_other {f : Framing} {line : Bytes}
    (h : valueOf (lit "content-length") line = none) :
    lineFraming f line = some { f with chunked := f.chunked || isChunkedLine line } := by
  cases hheader : headerOf line with
  | none => simp [lineFraming, isChunkedLine, valueOf, hheader]
  | some p =>
    obtain ⟨name, value⟩ := p
    have hname : name ≠ lit "content-length" := by
      rintro rfl
      rw [valueOf_eq_some_iff.2 hheader] at h
      cases h
    simp only [lineFraming, hheader, if_neg hname, isChunkedLine, valueOf, Option.bind_some]
    by_cases hte : name = lit "transfer-encoding"
    · by_cases hch : lit "chunked" <:+: value <;> simp [hte, hch]
    · simp [hte]

/-- What the lines declare together: a later length replaces an earlier one. -/
theorem foldlM_lineFraming (lines : List Bytes) (f : Framing) :
    lines.foldlM lineFraming f = ((lengths lines).mapM (stoull 10)).map fun ns =>
      ⟨ns.getLastD f.contentLength, f.chunked || lines.any isChunkedLine⟩ := by
  induction lines generalizing f with
  | nil => simp [lengths]
  | cons l lines ih =>
    rw [List.foldlM_cons, List.any_cons]
    cases hl : valueOf (lit "content-length") l with
    | some value =>
      have hlengths : lengths (l :: lines) = value :: lengths lines := by
        simp [lengths, hl]
      rw [lineFraming_length hl, hlengths, List.mapM_cons, isChunkedLine_of_length hl,
        Bool.false_or]
      cases hn : stoull 10 value with
      | none => rfl
      | some n =>
        simp only [Option.map_some, Option.bind_eq_bind, Option.bind_some, ih]
        cases (lengths lines).mapM (stoull 10) with
        | none => rfl
        | some ns => cases ns <;> rfl
    | none =>
      have hlengths : lengths (l :: lines) = lengths lines := by
        simp [lengths, hl]
      rw [lineFraming_other hl, hlengths, Option.bind_eq_bind, Option.bind_some, ih,
        Bool.or_assoc]

theorem mapM_isSome_iff {α β : Type*} {g : α → Option β} {l : List α} :
    (l.mapM g).isSome ↔ ∀ x ∈ l, (g x).isSome := by
  induction l with
  | nil => simp
  | cons x l ih =>
    rw [List.mapM_cons, List.forall_mem_cons, ← ih]
    cases g x with
    | none => simp
    | some y => cases l.mapM g <;> simp

theorem getLast?_of_mapM {α β : Type*} {g : α → Option β} {l : List α} {ys : List β}
    (h : l.mapM g = some ys) : ys.getLast? = l.getLast?.bind g := by
  induction l generalizing ys with
  | nil => cases h; rfl
  | cons x l ih =>
    rw [List.mapM_cons, Option.bind_eq_bind, Option.bind_eq_some_iff] at h
    obtain ⟨y, hy, h⟩ := h
    rw [Option.bind_eq_bind, Option.bind_eq_some_iff] at h
    obtain ⟨ys', hys, h⟩ := h
    cases h
    rw [List.getLast?_cons, ih hys, List.getLast?_cons]
    rcases hlast : l.getLast? with _ | z
    · simp [hy]
    · -- the last value is read, as all are
      have hz : (g z).isSome :=
        mapM_isSome_iff.1 (by rw [hys]; rfl) z (List.mem_of_getLast? hlast)
      obtain ⟨w, hw⟩ := Option.isSome_iff_exists.1 hz
      simp [hw]

namespace RawHead

variable (hd : RawHead)

/-- The framing that all lines together declare; `none` if a length is no number. -/
def framing : Option Framing := hd.lines.foldlM lineFraming {}

/-- **The framing a head declares**: the last of its lengths, if it has any, and whether a
Transfer-Encoding line mentions `chunked`. -/
theorem framing_eq : hd.framing = ((lengths hd.lines).mapM (stoull 10)).map fun ns =>
    ⟨ns.getLastD npos, hd.lines.any isChunkedLine⟩ := by
  rw [framing, foldlM_lineFraming]
  simp

theorem framing_isSome_iff :
    hd.framing.isSome ↔ ∀ value ∈ lengths hd.lines, (stoull 10 value).isSome := by
  rw [framing_eq, Option.isSome_map, mapM_isSome_iff]

theorem framing_eq_none_iff :
    hd.framing = none ↔ ∃ value ∈ lengths hd.lines, stoull 10 value = none := by
  rw [← Option.not_isSome_iff_eq_none, framing_isSome_iff]
  simp only [Option.isSome_iff_ne_none, not_forall, not_not, exists_prop]

theorem framing_eq_some {hd : RawHead} {f : Framing} (h : hd.framing = some f) :
    f.chunked = hd.lines.any isChunkedLine ∧
      f.contentLength = ((lengths hd.lines).getLast?.bind (stoull 10)).getD npos := by
  rw [framing_eq, Option.map_eq_some_iff] at h
  obtain ⟨ns, hns, rfl⟩ := h
  refine ⟨rfl, ?_⟩
  rw [← getLast?_of_mapM hns]
  exact List.getLastD_eq_getLast?

theorem scanHeaders_render (payload : Bytes) :
    scanHeaders (hd.render ++ payload) (hd.status.length + (joinLines hd.lines).length)
      (hd.status.length + (joinLines hd.lines).length) (hd.status.length + 2) {} = hd.framing := by
  have hfuel : hd.lines.length ≤ hd.status.length + (joinLines hd.lines).length :=
    (le_joinLines_length _).trans (Nat.le_add_left _ _)
  rw [render_append]
  exact scanHeaders_eq hd.status hd.lines_line payload {} hfuel

/-- **Parsing a response with a complete head**: the lines decide the framing, and the framing
selects the body from the payload. -/
theorem parse_render (hcode : readStatusCode hd.status ≠ 0) (payload : Bytes) :
    parseHttpResponse (hd.render ++ payload) =
      match hd.framing with
      | none =>
        .ok { statusCode := readStatusCode hd.status, error := lit "Invalid Content-Length." }
      | some f => selectBody (readStatusCode hd.status) f payload := by
  cases hf : hd.framing with
  | none =>
    simp only [parseHttpResponse, hd.find_headerEnd, hd.find_statusEnd, Option.getD_some,
      hd.substr_status, hcode, ↓reduceIte, hd.scanHeaders_render, hf]
  | some f =>
    simp only [parseHttpResponse, hd.find_headerEnd, hd.find_statusEnd, Option.getD_some,
      hd.substr_status, hcode, ↓reduceIte, hd.scanHeaders_render, hd.drop_headerEnd, hf]

/-- **Parsing a cut head.** -/
theorem parse_cut {p : Bytes} (hp : p <+: hd.render) (hlt : p.length < hd.render.length) :
    parseHttpResponse p =
      .ok { error := lit "Invalid response from Docker Engine: missing headers." } := by
  simp only [parseHttpResponse, hd.find_headerEnd_cut hp hlt]

/-! ### The early stop -/

variable (method : Bytes)

theorem complete_cut {p : Bytes} (hp : p <+: hd.render) (hlt : p.length < hd.render.length) :
    httpResponseComplete p method = false := by
  simp only [httpResponseComplete, hd.find_headerEnd_cut hp hlt]

/-- What the early stop takes for the header block: the block, if there is one, and else
everything behind the status line. -/
def searched (payload : Bytes) : Bytes := if hd.lines = [] then crlf ++ payload else hd.block

theorem joinLines_length (hl : hd.lines ≠ []) : 2 < (joinLines hd.lines).length := by
  rcases hls : hd.lines with _ | ⟨l, lines⟩
  · exact absurd hls hl
  · have hline := hd.lines_line l (by simp [hls])
    have hpos := List.length_pos_iff.2 hline.1
    simp; omega

theorem joinLines_eq (hl : hd.lines ≠ []) : joinLines hd.lines = crlf ++ hd.block := by
  rcases hls : hd.lines with _ | ⟨l, lines⟩
  · exact absurd hls hl
  · rw [block, hls, joinLines_cons]
    rfl

theorem substr_block (payload : Bytes) (hfit : (hd.render ++ payload).length < 2 ^ 64) :
    substr (hd.render ++ payload) (hd.status.length + 2)
      (sub64 (sub64 (hd.status.length + (joinLines hd.lines).length) hd.status.length) 2) =
        hd.searched payload := by
  have hlen := hd.render_length
  rw [List.length_append] at hfit
  have hcount : sub64 (hd.status.length + (joinLines hd.lines).length) hd.status.length =
      (joinLines hd.lines).length := by
    rw [sub64_eq (by omega) (by omega), Nat.add_sub_cancel_left]
  rw [hcount, searched, render_append, substr, ← List.drop_drop, List.drop_left]
  split_ifs with hl
  · -- without a line the length is `2^64 - 2`
    have hsub : sub64 0 2 = 2 ^ 64 - 2 := by decide
    have hall : (crlf ++ payload).length ≤ 2 ^ 64 - 2 := by simp; omega
    rw [hl, joinLines_nil, List.nil_append, List.length_nil, hsub]
    exact List.take_of_length_le hall
  · have hlines := hd.joinLines_length hl
    have hblock : (joinLines hd.lines).length = 2 + hd.block.length := by
      rw [hd.joinLines_eq hl]; simp
    rw [sub64_eq (by omega) (by omega), hd.joinLines_eq hl, List.append_assoc]
    have hdrop : (crlf ++ (hd.block ++ (crlf ++ (crlf ++ payload)))).drop 2 =
        hd.block ++ (crlf ++ (crlf ++ payload)) := rfl
    have htwo : (crlf ++ hd.block).length - 2 = hd.block.length := by simp
    rw [hdrop, htwo, List.take_left]

/-- **The early stop after a complete head.** -/
theorem complete_render (hm : method ≠ lit "HEAD")
    (hb : bodyless (readStatusCode hd.status) = false) (payload : Bytes)
    (hfit : (hd.render ++ payload).length < 2 ^ 64) :
    httpResponseComplete (hd.render ++ payload) method =
      if announcesChunked (hd.searched payload) then (find payload lastChunkMark 0).isSome
      else
        match announcedLength (hd.searched payload) with
        | none => false
        | some expected =>
          (hd.render.length + expected) % 2 ^ 64 ≤ hd.render.length + payload.length := by
  have hend : hd.status.length + (joinLines hd.lines).length + 4 = hd.render.length :=
    hd.render_length.symm
  have hge : ¬ hd.status.length + (joinLines hd.lines).length < hd.status.length := by omega
  have hguard : ¬ (method = lit "HEAD" ∨ bodyless (readStatusCode hd.status) = true) := by
    simp [hm, hb]
  have hmark : (decide (hd.status.length + (joinLines hd.lines).length + 7 ≤
        (hd.render ++ payload).length) &&
      (find (hd.render ++ payload) lastChunkMark hd.render.length).isSome) =
      (find payload lastChunkMark 0).isSome := by
    rw [find_append, find_zero, Option.isSome_map]
    cases hi : indexOf lastChunkMark payload with
    | none => simp
    | some i =>
      -- the mark takes five bytes, more than the three the length test asks for
      have hle := le_length_of_indexOf hi
      have hfive : lastChunkMark.length = 5 := by decide
      simp only [Option.isSome_some, Bool.and_true, decide_eq_true_eq, List.length_append]
      omega
  simp only [httpResponseComplete, hd.find_headerEnd, hd.find_statusEnd, hge, ↓reduceIte,
    hd.substr_status, hguard, hd.substr_block payload hfit, hend, hmark]
  cases announcedLength (hd.searched payload) <;> simp only [List.length_append]

/-- **A response that announces the length of its body is complete with its last byte**, and on
no proper prefix. -/
theorem complete_length_iff {body : Bytes} (hm : method ≠ lit "HEAD")
    (hb : bodyless (readStatusCode hd.status) = false) (hl : hd.lines ≠ [])
    (hch : ¬ announcesChunked hd.block = true)
    (hlength : announcedLength hd.block = some body.length)
    (hfit : (hd.render ++ body).length < 2 ^ 64) {p : Bytes} (hp : p <+: hd.render ++ body) :
    httpResponseComplete p method = true ↔ p = hd.render ++ body := by
  have hsum : hd.render.length + body.length < 2 ^ 64 := by rwa [List.length_append] at hfit
  rcases prefix_append_or hp with ⟨hcut, hlt⟩ | ⟨t, ht, rfl⟩
  · rw [hd.complete_cut method hcut hlt]
    refine iff_of_false (by simp) ?_
    rintro rfl
    rw [List.length_append] at hlt
    omega
  · have hle := ht.length_le
    rw [hd.complete_render method hm hb t (by rw [List.length_append]; omega), searched, if_neg hl,
      if_neg hch, hlength]
    simp only [decide_eq_true_eq]
    rw [Nat.mod_eq_of_lt hsum, List.append_cancel_left_eq]
    constructor
    · intro hall
      exact ht.eq_of_length (by omega)
    · rintro rfl
      exact le_rfl

/-- A response without a body is complete with its head. -/
theorem complete_bodyless_iff (hb : bodyless (readStatusCode hd.status) = true) {p : Bytes}
    (hp : p <+: hd.render) : httpResponseComplete p method = true ↔ p = hd.render := by
  rcases lt_or_eq_of_le hp.length_le with hlt | heq
  · rw [hd.complete_cut method hp hlt]
    refine iff_of_false (by simp) ?_
    rintro rfl
    exact lt_irrefl _ hlt
  · obtain rfl := hp.eq_of_length heq
    have hend := hd.find_headerEnd []
    have hstatus := hd.find_statusEnd []
    have htext := hd.substr_status []
    rw [List.append_nil] at hend hstatus htext
    have hge : ¬ hd.status.length + (joinLines hd.lines).length < hd.status.length := by omega
    simp only [httpResponseComplete, hend, hstatus, hge, ↓reduceIte, htext, hb, or_true]

end RawHead

end Http

end TuxDock
