import TuxDock.Http.Message

/-!
# The early stop on a rendered response

What `httpResponseComplete` says about a buffer that holds a rendered head, or part of one:

* `Head.complete_cut` : nothing is complete before the head is;
* `Head.complete_render` : after the head, the answer depends on the header block
  (`Head.block`) and on the payload received so far;
* `Head.complete_chunked` : **a chunked response counts as complete as soon as its payload
  contains `CRLF 0 CRLF` anywhere**.
-/

namespace TuxDock

namespace Http

open Text Search

/-- The header block the early stop searches: the header lines without the last line end. -/
def Head.block (hd : Head) : Bytes :=
  (renderLines hd.lines).take ((renderLines hd.lines).length - 2)

namespace Head

variable (hd : Head) (method : Bytes)

theorem complete_cut {p : Bytes} (hp : p <+: hd.render) (hlt : p.length < hd.render.length) :
    httpResponseComplete p method = false := by
  rw [← hd.toRaw_render] at hp hlt
  exact hd.toRaw.complete_cut method hp hlt

/-- The block is searched, not what follows it. -/
theorem searched_eq (hl : hd.lines ≠ []) (payload : Bytes) :
    hd.toRaw.searched payload = hd.block := by
  have hne : hd.toRaw.lines ≠ [] := by simpa [toRaw] using hl
  have hjoin : crlf ++ (hd.toRaw.block ++ crlf) = crlf ++ renderLines hd.lines := by
    rw [← List.append_assoc, ← hd.toRaw.joinLines_eq hne]
    exact joinLines_append_crlf hd.lines
  rw [RawHead.searched, if_neg hne, block, ← List.append_cancel_left hjoin]
  simp

/-- **The early stop after a complete head.** -/
theorem complete_render (hl : hd.lines ≠ []) (hm : method ≠ lit "HEAD")
    (hb : bodyless hd.status.code = false) (payload : Bytes)
    (hfit : (hd.render ++ payload).length < 2 ^ 64) :
    httpResponseComplete (hd.render ++ payload) method =
      if announcesChunked hd.block then (find payload lastChunkMark 0).isSome
      else
        match announcedLength hd.block with
        | none => false
        | some expected =>
          (hd.render.length + expected) % 2 ^ 64 ≤ hd.render.length + payload.length
    := by
  have hstatus : readStatusCode hd.toRaw.status = hd.status.code := hd.status.readStatusCode_render
  have hraw : bodyless (readStatusCode hd.toRaw.status) = false := by rw [hstatus]; exact hb
  have hcomplete := hd.toRaw.complete_render method hm hraw payload (by rwa [hd.toRaw_render])
  rw [hd.toRaw_render, hd.searched_eq hl payload] at hcomplete
  exact hcomplete

/-! ### Chunked responses -/

/-- The head has the line `Transfer-Encoding: chunked`. -/
def HasChunkedLine : Prop :=
  ∃ h ∈ hd.lines, h.name = lit "Transfer-Encoding" ∧ h.value = lit " chunked"

variable {hd}

theorem HasChunkedLine.lines_ne (h : hd.HasChunkedLine) : hd.lines ≠ [] := by
  obtain ⟨l, hl, -⟩ := h
  exact List.ne_nil_of_mem hl

theorem HasChunkedLine.any_isChunked (h : hd.HasChunkedLine) :
    hd.lines.any (·.isChunked) = true := by
  obtain ⟨l, hl, hn, hv⟩ := h
  rw [List.any_eq_true]
  refine ⟨l, hl, ?_⟩
  rw [decide_eq_true_eq]
  refine ⟨by rw [hn]; decide, ?_⟩
  rw [hv, show lower (trim (lit " chunked")) = lit "chunked" by decide]

/-- The search finds the line: the first match of the name is no later, so the value is in what
it searches for `chunked`. -/
theorem HasChunkedLine.announcesChunked (h : hd.HasChunkedLine) :
    announcesChunked hd.block = true := by
  obtain ⟨l, hl, hn, hv⟩ := h
  obtain ⟨front, back, hlines⟩ := List.append_of_mem hl
  have hrender : l.render = lit "Transfer-Encoding: chunked" := by
    rw [HeaderLine.render, hn, hv]; decide
  have hblock : ∃ rest, hd.block = renderLines front ++ (l.render ++ rest) := by
    have hsplit : renderLines hd.lines =
        (renderLines front ++ l.render) ++ (crlf ++ renderLines back) := by
      simp [hlines, renderLines]
    refine ⟨(crlf ++ renderLines back).take ((crlf ++ renderLines back).length - 2), ?_⟩
    rw [block, hsplit, List.take_append]
    have h1 : (renderLines front ++ l.render ++ (crlf ++ renderLines back)).length - 2 -
        (renderLines front ++ l.render).length = (crlf ++ renderLines back).length - 2 := by
      simp; omega
    rw [h1, List.take_of_length_le (by simp; omega), List.append_assoc]
  obtain ⟨rest, hblock⟩ := hblock
  have hname : lit "Transfer-Encoding:" <+: hd.block.drop (renderLines front).length := by
    rw [hblock, List.drop_left, hrender]
    exact (List.IsPrefix.trans (by decide) (List.prefix_append _ _))
  -- the first match may stand in an earlier line, with the value of this one behind it
  obtain ⟨i, hi, hfind⟩ := exists_indexOf_le hname
  have hvalue : lit "chunked" <:+: lower (hd.block.drop i) := by
    have hsub : l.render <:+: hd.block.drop i := by
      have hfrom : hd.block.drop (renderLines front).length <:+ hd.block.drop i :=
        List.drop_suffix_drop_left _ hi
      rw [hblock, List.drop_left] at hfrom
      rw [hblock]
      exact (List.prefix_append _ _).isInfix.trans hfrom.isInfix
    refine List.IsInfix.trans ?_ (lower_isInfix hsub)
    rw [hrender]
    decide
  simp only [Http.announcesChunked, find_zero, hfind]
  exact indexOf_isSome_iff.2 hvalue

/-- **A chunked response counts as complete once the mark occurs in its payload.** -/
theorem HasChunkedLine.complete_iff (h : hd.HasChunkedLine) (hm : method ≠ lit "HEAD")
    (hb : bodyless hd.status.code = false) (payload : Bytes)
    (hfit : (hd.render ++ payload).length < 2 ^ 64) :
    httpResponseComplete (hd.render ++ payload) method = true ↔ lastChunkMark <:+: payload := by
  rw [hd.complete_render method h.lines_ne hm hb payload hfit, if_pos h.announcesChunked,
    find_zero, indexOf_isSome_iff]

end Head

end Http

end TuxDock
