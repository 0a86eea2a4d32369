import TuxDock.Http.Client
import TuxDock.Http.Block

/-!
# Completeness of a growing buffer

The early stop of the read loop tests the same buffer again after every read.  Behind a head with a
header line, the test depends on the head and grows with the payload.

* `complete_append` : a complete buffer stays complete, whatever follows;
* `complete_monotone` : **the buffers on which the loop stops are upward closed**, so that the loop
  stops on a response exactly when the whole of it is complete, whatever the split into reads.

Without a header line this fails: the header block is then searched to the end of the buffer
(`bareRaw_cut`).
-/

namespace TuxDock

namespace Http

open Text Search

/-- A line follows the status line: behind the first line end, no second one follows at once. -/
def HasHeaderLine (raw : Bytes) : Prop :=
  ∀ statusEnd, find raw crlf 0 = some statusEnd → ¬ crlf <+: raw.drop (statusEnd + 2)

variable {raw method : Bytes}

theorem HasHeaderLine.mono (h : HasHeaderLine raw) {p : Bytes} (hp : p <+: raw) :
    HasHeaderLine p := by
  obtain ⟨more, rfl⟩ := hp
  intro statusEnd hend hline
  rw [find_zero] at hend
  refine h statusEnd ?_ ?_
  · rw [find_zero]
    exact indexOf_append_of_eq_some hend more
  · have hle := le_length_of_indexOf hend
    rw [crlf_length] at hle
    rw [List.drop_append_of_le_length hle]
    exact hline.trans (List.prefix_append _ _)

theorem HasHeaderLine.lines_ne {hd : RawHead} {payload : Bytes}
    (h : HasHeaderLine (hd.render ++ payload)) : hd.lines ≠ [] := by
  intro hl
  refine h hd.status.length (hd.find_statusEnd payload) ?_
  rw [hd.render_append, hl, joinLines_nil, List.nil_append, ← List.drop_drop, List.drop_left]
  exact List.prefix_append _ _

/-- Only a buffer with a complete head is complete. -/
theorem exists_rawHead_of_complete (h : httpResponseComplete raw method = true) :
    ∃ (hd : RawHead) (payload : Bytes), raw = hd.render ++ payload := by
  cases hend : find raw (crlf ++ crlf) 0 with
  | none => simp only [httpResponseComplete, hend, Bool.false_eq_true] at h
  | some headerEnd => exact exists_rawHead hend

namespace RawHead

variable (hd : RawHead)

/-- No payload is waited for after a HEAD request or a status without a body. -/
theorem complete_of_bodyless (payload : Bytes)
    (h : method = lit "HEAD" ∨ bodyless (readStatusCode hd.status) = true) :
    httpResponseComplete (hd.render ++ payload) method = true := by
  have hge : ¬ hd.status.length + (joinLines hd.lines).length < hd.status.length := by omega
  simp only [httpResponseComplete, hd.find_headerEnd, hd.find_statusEnd, hge, ↓reduceIte,
    hd.substr_status, h]

/-- **The payload grows, the head stays.** -/
theorem complete_append (hl : hd.lines ≠ []) (payload more : Bytes)
    (hfit : (hd.render ++ (payload ++ more)).length < 2 ^ 64)
    (h : httpResponseComplete (hd.render ++ payload) method = true) :
    httpResponseComplete (hd.render ++ (payload ++ more)) method = true := by
  by_cases hbody : method = lit "HEAD" ∨ bodyless (readStatusCode hd.status) = true
  · exact hd.complete_of_bodyless _ hbody
  · obtain ⟨hm, hb⟩ := not_or.1 hbody
    rw [Bool.not_eq_true] at hb
    have hfit' : (hd.render ++ payload).length < 2 ^ 64 := by
      simp only [List.length_append] at hfit ⊢
      omega
    rw [hd.complete_render method hm hb payload hfit', searched, if_neg hl] at h
    rw [hd.complete_render method hm hb (payload ++ more) hfit, searched, if_neg hl]
    by_cases hch : announcesChunked hd.block = true
    · -- the mark that has been found stays
      rw [if_pos hch, find_zero, Option.isSome_iff_exists] at h
      obtain ⟨i, hi⟩ := h
      rw [if_pos hch, find_zero, indexOf_append_of_eq_some hi]
      rfl
    · rw [if_neg hch] at h ⊢
      cases hlength : announcedLength hd.block with
      | none =>
        rw [hlength] at h
        cases h
      | some expected =>
        -- the sum may have wrapped around: it is the same sum
        simp only [hlength, decide_eq_true_eq] at h ⊢
        rw [List.length_append]
        omega

end RawHead

/-- **A complete buffer stays complete.** -/
theorem complete_append (hline : HasHeaderLine raw) (more : Bytes)
    (hfit : (raw ++ more).length < 2 ^ 64) (h : httpResponseComplete raw method = true) :
    httpResponseComplete (raw ++ more) method = true := by
  obtain ⟨hd, payload, rfl⟩ := exists_rawHead_of_complete h
  rw [List.append_assoc] at hfit ⊢
  exact hd.complete_append hline.lines_ne payload more hfit h

theorem complete_mono (hline : HasHeaderLine raw) (hfit : raw.length < 2 ^ 64) {p q : Bytes}
    (hpq : p <+: q) (hq : q <+: raw) (h : httpResponseComplete p method = true) :
    httpResponseComplete q method = true := by
  have hp := hline.mono (hpq.trans hq)
  have hle := hq.length_le
  obtain ⟨more, rfl⟩ := hpq
  exact complete_append hp more (by omega) h

/-- **The buffers on which the read loop stops are upward closed.**  A complete buffer is complete
with whatever follows; and when a response arrives in pieces, the buffers stay complete from the
first complete one on, so that the loop stops exactly on a complete response. -/
theorem complete_monotone (raw method : Bytes) (hline : HasHeaderLine raw) :
    (∀ more, (raw ++ more).length < 2 ^ 64 → httpResponseComplete raw method = true →
      httpResponseComplete (raw ++ more) method = true) ∧
    ∀ pieces, (∀ b ∈ pieces, b ≠ []) → pieces.flatten = raw → raw.length < 2 ^ 64 →
      (∀ m n, m ≤ n → httpResponseComplete (received pieces m) method = true →
        httpResponseComplete (received pieces n) method = true) ∧
      ((readLoop method [] (deliver pieces ++ [.ok []])).2 = .complete ↔
        httpResponseComplete raw method = true) := by
  constructor
  · intro more hfit h
    exact complete_append hline more hfit h
  · intro pieces hne hraw hfit
    have hpart (n : ℕ) : received pieces n <+: raw := hraw ▸ received_prefix pieces n
    constructor
    · intro m n hmn h
      exact complete_mono hline hfit (received_mono pieces hmn) (hpart n) h
    · rcases readLoop_deliver method [] pieces hne [.ok []] with
        ⟨n, -, hcomplete, -, hstop⟩ | ⟨hnone, hgo⟩
      · rw [List.nil_append] at hcomplete
        rw [hstop]
        exact iff_of_true rfl
          (complete_mono hline hfit (hpart n) List.prefix_rfl hcomplete)
      · have hall := hnone pieces.length
        rw [List.nil_append, received_all, hraw] at hall
        rw [hgo, List.nil_append, hraw, readLoop, if_neg (by rw [hall]; decide), hall]
        exact iff_of_false (by simp) (by simp)

/-- A response whose length is announced twice, and one without a header line. -/
def twiceRaw : Bytes :=
  lit "HTTP/1.1 200 OK\r\nContent-Length: 2\r\nContent-Length: 9\r\n\r\nhello"

/-- A response whose body looks like a header line. -/
def bareRaw : Bytes := lit "HTTP/1.1 200 OK\r\n\r\ncontent-length: 5"

theorem complete_monotone_twice :
    httpResponseComplete (twiceRaw ++ lit "!") (lit "GET") = true ∧
      (readLoop (lit "GET") [] (deliver [twiceRaw] ++ [.ok []])).2 = .complete := by
  have hline : HasHeaderLine twiceRaw := by
    intro statusEnd hend
    have hfound : find twiceRaw crlf 0 = some 15 := by decide +kernel
    rw [hfound] at hend
    cases hend
    decide +kernel
  have hcomplete : httpResponseComplete twiceRaw (lit "GET") = true := by decide +kernel
  have h := complete_monotone twiceRaw (lit "GET") hline
  exact ⟨h.1 (lit "!") (by decide +kernel) hcomplete,
    (h.2 [twiceRaw] (by decide +kernel) (by decide +kernel) (by decide +kernel)).2.2 hcomplete⟩

/-- Without a header line, the payload is searched: a longer number makes the buffer incomplete. -/
theorem bareRaw_cut :
    httpResponseComplete bareRaw (lit "GET") = true ∧
      httpResponseComplete (bareRaw ++ lit "55") (lit "GET") = false := by
  decide +kernel

end Http

end TuxDock
