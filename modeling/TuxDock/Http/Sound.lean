import TuxDock.Http.Offsets

/-!
# What a decoded payload looks like

Chunks whose size lines carry a plain hexadecimal numeral (`PlainLine`), one behind the other and
closed by a last-chunk line (`Encodes`), and how far `decodeChunked` accepts nothing else.

* `decodeChunked_sound_iff` : **an accepted payload is such a sequence, with the body its data,
  exactly when every size line on the way is plain and no size wraps around**;
* `garbagePayload_accepted` : a payload that is accepted and is none.
-/

namespace TuxDock

namespace Http

open Text Search Relation

/-- The text of a size: before an optional `;`, without the blanks around it. -/
def sizeText (line : Bytes) : Bytes := trim (line.takeWhile (· != 59))

/-- The size on the line is a plain hexadecimal numeral. -/
def PlainSize (line : Bytes) : Prop :=
  sizeText line ≠ [] ∧ ∀ c ∈ sizeText line, isDigit 16 c = true

/-- A size line with a plain numeral. -/
structure PlainLine where
  text : Bytes
  one_line : ¬ crlf <:+: text
  plain : PlainSize text

/-- The size that the line declares. -/
def PlainLine.value (l : PlainLine) : ℕ := numeral 16 (sizeText l.text)

/-- A chunk behind such a line: as many bytes as the line says, at least one, and a line end. -/
structure PlainChunk where
  line : PlainLine
  data : Bytes
  line_value : line.value = data.length
  data_ne : data ≠ []

/-- The text of the chunk. -/
def PlainChunk.encode (c : PlainChunk) : Bytes := c.line.text ++ (crlf ++ (c.data ++ crlf))

/-- The payload starts with chunks and a last-chunk line, and `body` is the data of the chunks. -/
def Encodes (payload body : Bytes) : Prop :=
  ∃ (chunks : List PlainChunk) (last : PlainLine) (rest : Bytes), last.value = 0 ∧
    payload = chunks.flatMap PlainChunk.encode ++ (last.text ++ (crlf ++ rest)) ∧
    body = chunks.flatMap PlainChunk.data

/-- On the way of the decoder through the payload, every size line carries a plain numeral, and no
size leads past the end of 64-bit arithmetic. -/
def Plainly (payload : Bytes) : Prop :=
  ∀ p e s, ReflTransGen (Leads payload) 0 p → SizeAt payload p e s →
    PlainSize (substr payload p (e - p)) ∧ (s = 0 ∨ e + 2 + s + 2 < 2 ^ 64)

/-! ### A plain size is read as it stands -/

/-- What the decoder hands to `std::stoull` is the numeral and perhaps a blank. -/
theorem PlainSize.sizeValue_eq {line : Bytes} (h : PlainSize line) :
    ∃ rest, sizeValue line = sizeText line ++ rest ∧ DigitsThen 16 (sizeText line) rest := by
  obtain ⟨b, b', hb, hb', hu⟩ := exists_trim (line.takeWhile (· != 59))
  have hplain : ∀ c ∈ sizeText line, isTrimmed c = false := by
    intro c hc
    exact (not_blank_of_isDigit (by omega) (h.2 c hc)).2.1
  have hsemi : ∀ c ∈ sizeText line, (c != 59) = true := by
    intro c hc
    rw [bne_iff_ne]
    rintro rfl
    exact absurd (h.2 59 hc) (by decide)
  -- the line is blanks, the numeral, blanks, and what follows from the `;` on
  obtain ⟨w, hw⟩ : ∃ w, line.dropWhile (· != 59) = w := ⟨_, rfl⟩
  have hline : line = b ++ (sizeText line ++ (b' ++ w)) := by
    calc line = line.takeWhile (· != 59) ++ w := by rw [← hw, List.takeWhile_append_dropWhile]
      _ = b ++ (sizeText line ++ (b' ++ w)) := by
        rw [hu]
        simp only [sizeText, List.append_assoc]
  have htrim : trim line = sizeText line ++ (b' ++ w).rdropWhile isTrimmed := by
    have hfront : trim line = trim (sizeText line ++ (b' ++ w)) := by
      rw [hline, trim, List.dropWhile_append_of_pos hb, ← hline]
      rfl
    rw [hfront, trim_append h.1 hplain]
  refine ⟨((b' ++ w).rdropWhile isTrimmed).takeWhile (· != 59), ?_, h.2, h.1, ?_⟩
  · rw [sizeValue, htrim, List.takeWhile_append_of_pos hsemi]
  · intro c hc
    have hne : c ≠ 59 := by
      simpa using List.mem_takeWhile_imp (List.mem_of_mem_head? hc)
    have hhead : c ∈ (b' ++ w).head? := by
      obtain ⟨t, ht⟩ := (List.takeWhile_prefix _).trans (List.rdropWhile_prefix isTrimmed (b' ++ w))
      rw [← ht, List.head?_append_of_ne_nil]
      · exact hc
      · intro hnil; simp [hnil] at hc
    cases b' with
    | cons a b' =>
      have hca : a = c := by simpa using hhead
      exact digitVal_of_isTrimmed (hb' c (by simp [hca]))
    | nil =>
      -- behind the numeral stands the `;` itself
      rw [List.nil_append, ← hw] at hhead
      have hstop := List.head?_dropWhile_not (· != 59) line
      rw [Option.mem_def.1 hhead] at hstop
      exact absurd hstop (by simpa using hne)

theorem PlainSize.stoull_eq {line : Bytes} (h : PlainSize line) :
    stoull 16 (sizeValue line) =
      if numeral 16 (sizeText line) < 2 ^ 64 then some (numeral 16 (sizeText line)) else none := by
  obtain ⟨rest, hrest, hdigits⟩ := h.sizeValue_eq
  rw [hrest, hdigits.stoull_ite (Or.inr rfl)]

/-! ### From the payload to its chunks -/

variable {payload : Bytes} {p e s : ℕ}

theorem SizeAt.split (h : SizeAt payload p e s) :
    payload.drop p = substr payload p (e - p) ++ (crlf ++ payload.drop (e + 2)) ∧
      ¬ crlf <:+: substr payload p (e - p) ∧ p ≤ e := by
  have hline := h.line
  rw [find, if_pos h.inside.le, Option.map_eq_some_iff] at hline
  obtain ⟨i, hi, rfl⟩ := hline
  rw [Nat.add_sub_cancel_left]
  refine ⟨?_, not_infix_take (by decide) hi, Nat.le_add_right p i⟩
  have hsplit := eq_append_of_indexOf hi
  rwa [crlf_length, List.drop_drop, ← Nat.add_assoc] at hsplit

/-- A plain size line, as the decoder finds it. -/
def SizeAt.plainLine (h : SizeAt payload p e s) (hplain : PlainSize (substr payload p (e - p))) :
    PlainLine := ⟨substr payload p (e - p), h.split.2.1, hplain⟩

theorem SizeAt.plainLine_value (h : SizeAt payload p e s)
    (hplain : PlainSize (substr payload p (e - p))) : (h.plainLine hplain).value = s := by
  have hsize := h.size
  rw [hplain.stoull_eq] at hsize
  split_ifs at hsize
  exact Option.some.inj hsize

theorem ChunkAt.split (h : ChunkAt payload p e s) (hfit : e + 2 + s + 2 < 2 ^ 64)
    (hplain : PlainSize (substr payload p (e - p))) :
    ∃ c : PlainChunk, c.data = substr payload (e + 2) s ∧
      payload.drop p = c.encode ++ payload.drop (e + 2 + s + 2) := by
  have hclosed := h.closed
  rw [Nat.mod_eq_of_lt (by omega)] at hclosed
  have hend := le_length_of_crlf hclosed
  have hdata : (substr payload (e + 2) s).length = s := by
    rw [substr, List.length_take, List.length_drop]; omega
  refine ⟨⟨h.plainLine hplain, substr payload (e + 2) s, ?_, ?_⟩, rfl, ?_⟩
  · rw [h.plainLine_value hplain, hdata]
  · intro hnil
    rw [hnil] at hdata
    exact h.size_ne hdata.symm
  · obtain ⟨t, ht⟩ := hclosed
    have hrest : payload.drop (e + 2 + s + 2) = t := by
      rw [← List.drop_drop, ← ht]; rfl
    have hbody : payload.drop (e + 2) = substr payload (e + 2) s ++ (crlf ++ t) := by
      rw [ht, substr, ← List.drop_drop (i := s) (j := e + 2), List.take_append_drop]
    simp only [PlainChunk.encode, SizeAt.plainLine, List.append_assoc]
    rw [h.toSizeAt.split.1, hbody, hrest]

/-- **Accepted from offset `p` on**: by induction on the iterations; `body` is decoded already. -/
theorem exists_chunks (hplain : Plainly payload) {fuel : ℕ} {body : Bytes} {d : Decoded}
    (hreach : ReflTransGen (Leads payload) 0 p) (h : decodeLoop payload fuel p body = .ok d)
    (hok : d.ok = true) :
    ∃ (chunks : List PlainChunk) (last : PlainLine) (rest : Bytes), last.value = 0 ∧
      payload.drop p = chunks.flatMap PlainChunk.encode ++ (last.text ++ (crlf ++ rest)) ∧
      d.body = body ++ chunks.flatMap PlainChunk.data := by
  induction fuel generalizing p body with
  | zero => cases h
  | succ fuel ih =>
    rw [decodeLoop] at h
    by_cases hat : ∃ e s, SizeAt payload p e s
    · obtain ⟨e, s, hat⟩ := hat
      obtain ⟨hline, hwrap⟩ := hplain p e s hreach hat
      by_cases hs : s = 0
      · -- the last-chunk line ends the loop
        rw [hat.decodeStep_eq, if_pos hs] at h
        cases h
        refine ⟨[], hat.plainLine hline, payload.drop (e + 2), ?_, hat.split.1, by simp⟩
        rw [hat.plainLine_value hline, hs]
      · cases hstep : decodeStep payload p body with
        | stop result =>
          -- no other way to stop is a success
          rw [hstep] at h
          rw [hat.decodeStep_eq, if_neg hs] at hstep
          split_ifs at hstep <;> cases hstep <;> cases h <;> cases hok
        | next q body' =>
          obtain ⟨e', s', hc, rfl, rfl⟩ := decodeStep_eq_next_iff.1 hstep
          obtain ⟨rfl, rfl⟩ := hat.unique hc.toSizeAt
          have hfit := hwrap.resolve_left hs
          obtain ⟨c, hdata, hsplit⟩ := hc.split hfit hline
          rw [hstep] at h
          obtain ⟨chunks, last, rest, hlast, hrest, hbody⟩ := ih (hreach.tail ⟨_, _, hc, rfl⟩) h
          refine ⟨c :: chunks, last, rest, hlast, ?_, ?_⟩
          · rw [Nat.mod_eq_of_lt hfit] at hrest
            rw [hsplit, hrest, List.flatMap_cons, List.append_assoc]
          · rw [hbody, List.flatMap_cons, hdata, List.append_assoc]
    · simp only [not_exists] at hat
      obtain ⟨error, hstep⟩ := decodeStep_of_not_sizeAt hat body
      rw [hstep] at h
      cases h
      cases hok

/-! ### From the chunks to the way of the decoder -/

theorem PlainLine.sizeAt (l : PlainLine) (h : l.value < 2 ^ 64) (pre rest : Bytes) :
    SizeAt (pre ++ (l.text ++ (crlf ++ rest))) pre.length (pre.length + l.text.length) l.value := by
  have hne : l.text ≠ [] := by
    intro hnil
    exact l.plain.1 (by rw [hnil]; rfl)
  have hpos := List.length_pos_iff.2 hne
  refine ⟨by simp, ?_, ?_⟩
  · rw [find_append, crlf_eq]
    exact congrArg _ (indexOf_pair (by decide) l.one_line rest)
  · rw [Nat.add_sub_cancel_left, substr_append, l.plain.stoull_eq]
    exact if_pos h

/-- **The decoder goes along the chunks** of a payload that is one: by induction on them. -/
theorem plain_of_chunks {chunks : List PlainChunk} {last : PlainLine} (hlast : last.value = 0)
    (pre rest : Bytes)
    (hlen : (pre ++ (chunks.flatMap PlainChunk.encode ++ (last.text ++ (crlf ++ rest)))).length
      < 2 ^ 64) (payload : Bytes)
    (hpayload : payload =
      pre ++ (chunks.flatMap PlainChunk.encode ++ (last.text ++ (crlf ++ rest))))
    (hreach : ReflTransGen (Leads payload) pre.length p) (hat : SizeAt payload p e s) :
    PlainSize (substr payload p (e - p)) ∧ (s = 0 ∨ e + 2 + s + 2 < 2 ^ 64) := by
  induction chunks generalizing pre with
  | nil =>
    have hend : SizeAt payload pre.length (pre.length + last.text.length) 0 := by
      rw [hpayload, ← hlast]
      exact last.sizeAt (by omega) pre rest
    -- the last-chunk line leads nowhere
    obtain rfl : p = pre.length := by
      rcases hreach.cases_head with h | ⟨q, ⟨e', s', hc, -⟩, -⟩
      · exact h.symm
      · exact absurd (hend.unique hc.toSizeAt).2 hc.size_ne
    obtain ⟨rfl, rfl⟩ := hend.unique hat
    refine ⟨?_, Or.inl rfl⟩
    rw [hpayload, List.flatMap_nil, List.nil_append, Nat.add_sub_cancel_left, substr_append]
    exact last.plain
  | cons c chunks ih =>
    have hv := c.line_value
    have hlong : pre.length + c.encode.length < 2 ^ 64 := by
      simp only [List.flatMap_cons, List.length_append] at hlen ⊢
      omega
    have hclen : c.encode.length = c.line.text.length + 2 + c.data.length + 2 := by
      simp only [PlainChunk.encode, List.length_append, crlf_length]; omega
    have hstart : SizeAt payload pre.length (pre.length + c.line.text.length) c.line.value := by
      have h := c.line.sizeAt (by omega) pre (c.data ++ (crlf ++
        (chunks.flatMap PlainChunk.encode ++ (last.text ++ (crlf ++ rest)))))
      rw [hpayload]
      simpa only [List.flatMap_cons, PlainChunk.encode, List.append_assoc] using h
    have hnext : pre.length + c.line.text.length + 2 + c.line.value + 2 =
        (pre ++ c.encode).length := by
      rw [List.length_append, hv, hclen]; omega
    rcases hreach.cases_head with rfl | ⟨q, ⟨e', s', hc, rfl⟩, hreach'⟩
    · obtain ⟨rfl, rfl⟩ := hstart.unique hat
      refine ⟨?_, Or.inr (by omega)⟩
      rw [hpayload, List.flatMap_cons, PlainChunk.encode, Nat.add_sub_cancel_left]
      simp only [List.append_assoc]
      rw [substr_append]
      exact c.line.plain
    · obtain ⟨rfl, rfl⟩ := hstart.unique hc.toSizeAt
      rw [Nat.mod_eq_of_lt (by omega), hnext] at hreach'
      refine ih (pre ++ c.encode) ?_ ?_ hreach'
      · simpa only [List.flatMap_cons, List.append_assoc] using hlen
      · simpa only [List.flatMap_cons, List.append_assoc] using hpayload

theorem Encodes.plainly {body : Bytes} (h : Encodes payload body) (hlen : payload.length < 2 ^ 64) :
    Plainly payload := by
  obtain ⟨chunks, last, rest, hlast, hpayload, -⟩ := h
  intro p e s hreach hat
  exact plain_of_chunks hlast [] rest (by rwa [List.nil_append, ← hpayload]) payload hpayload
    hreach hat

/-! ### Soundness -/

/-- **When an accepted payload is a sequence of chunks with the body as their data**: exactly when
the decoder meets a plain numeral on every size line, and no size that wraps around. -/
theorem decodeChunked_sound_iff (payload : Bytes) (hlen : payload.length < 2 ^ 64) (d : Decoded)
    (h : decodeChunked payload = .ok d) (hok : d.ok = true) :
    Encodes payload d.body ↔ Plainly payload := by
  constructor
  · intro henc
    exact henc.plainly hlen
  · intro hplain
    exact exists_chunks hplain .refl h hok

/-- Such a payload. -/
theorem decodeChunked_sound_iff_hello :
    let payload := lit "5 ;x\r\nhello\r\n00\r\n"
    Encodes payload (lit "hello") ↔ Plainly payload :=
  decodeChunked_sound_iff _ (by decide) ⟨true, lit "hello", []⟩ (by decide +kernel) rfl

/-- A size line with more than a numeral on it. -/
def garbagePayload : Bytes := lit "5 or so\r\nhello\r\n0\r\n"

/-- **A payload that is accepted and is no sequence of chunks with plain sizes.** -/
theorem garbagePayload_accepted :
    decodeChunked garbagePayload = .ok ⟨true, lit "hello", []⟩ ∧
      ¬ Encodes garbagePayload (lit "hello") := by
  refine ⟨by decide +kernel, ?_⟩
  intro henc
  have hat : SizeAt garbagePayload 0 7 5 :=
    ⟨by decide, by decide +kernel, by decide +kernel⟩
  have hplain := (henc.plainly (by decide) 0 7 5 .refl hat).1
  exact absurd (hplain.2 32 (by decide +kernel)) (by decide)

end Http

end TuxDock
