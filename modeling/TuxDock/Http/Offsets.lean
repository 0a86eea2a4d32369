import TuxDock.Http.Chunked

/-!
# The offsets of the chunk decoder

Where the loop of `decodeChunked` goes, read off the payload: from the offset of a size line to two
bytes past the end of its chunk, the sum computed modulo `2^64` (`Leads`).

* `decodeChunked_ends_iff` : **the loop ends exactly when the size lines do not lead round in a
  circle**, and every iteration increases the offset exactly when no size on the way makes the sum
  wrap around, one size apart;
* `decoded_self_wraps` : a payload that is decoded to itself has a size that wraps around;
* `endlessPayload_not_ends` : a payload of 24 bytes on which the loop does not end.

The body grows without bound here.  On a payload that appends data on every turn of a circle, the
`append` of the source would throw once no memory is left.
-/

namespace TuxDock

namespace Http

open Text Search Relation

/-- A size line at offset `p`: it ends at `e`, and `s` is what `std::stoull` reads on it. -/
structure SizeAt (input : Bytes) (p e s : ℕ) : Prop where
  inside : p < input.length
  line : find input crlf p = some e
  size : stoull 16 (sizeValue (substr input p (e - p))) = some s

/-- The size line announces a chunk, and a line end stands where its data end. -/
structure ChunkAt (input : Bytes) (p e s : ℕ) : Prop extends SizeAt input p e s where
  size_ne : s ≠ 0
  fits : (e + 2 + s + 2) % 2 ^ 64 ≤ input.length
  closed : crlf <+: input.drop ((e + 2 + s) % 2 ^ 64)

/-- The chunk at offset `p` leads to offset `q`. -/
def Leads (input : Bytes) (p q : ℕ) : Prop :=
  ∃ e s, ChunkAt input p e s ∧ q = (e + 2 + s + 2) % 2 ^ 64

variable {input : Bytes} {p q e s : ℕ}

theorem SizeAt.unique (h : SizeAt input p e s) {e' s' : ℕ} (h' : SizeAt input p e' s') :
    e' = e ∧ s' = s := by
  have he : e' = e := Option.some.inj (h'.line.symm.trans h.line)
  subst he
  exact ⟨rfl, Option.some.inj (h'.size.symm.trans h.size)⟩

theorem SizeAt.start_le (h : SizeAt input p e s) : p ≤ e := by
  have hline := h.line
  rw [find, if_pos h.inside.le, Option.map_eq_some_iff] at hline
  obtain ⟨i, -, rfl⟩ := hline
  exact Nat.le_add_right p i

/-- Where an iteration finds a line end after the data. -/
theorem substr_crlf_iff {n : ℕ} : substr input n 2 = crlf ↔ crlf <+: input.drop n := by
  rw [List.prefix_iff_eq_take]
  exact eq_comm

theorem le_length_of_crlf {n : ℕ} (h : crlf <+: input.drop n) : n + 2 ≤ input.length := by
  have hle := h.length_le
  rw [List.length_drop, crlf_length] at hle
  omega

theorem SizeAt.decodeStep_eq (h : SizeAt input p e s) (body : Bytes) :
    decodeStep input p body =
      if s = 0 then .stop (.ok ⟨true, body, []⟩)
      else if input.length < (e + 2 + s + 2) % 2 ^ 64 then
        .stop (.ok ⟨false, body, lit "Truncated chunk data."⟩)
      else if input.length < (e + 2 + s) % 2 ^ 64 then .stop (.error .outOfRange)
      else if substr input ((e + 2 + s) % 2 ^ 64) 2 ≠ crlf then
        .stop (.ok ⟨false, body, lit "Truncated chunk data."⟩)
      else .next ((e + 2 + s + 2) % 2 ^ 64) (body ++ substr input (e + 2) s) := by
  simp only [decodeStep, if_pos h.inside, h.line, h.size]

/-- Without a readable size line an iteration reports an error. -/
theorem decodeStep_of_not_sizeAt (h : ∀ e s, ¬ SizeAt input p e s) (body : Bytes) :
    ∃ error, decodeStep input p body = .stop (.ok ⟨false, body, error⟩) := by
  by_cases hin : p < input.length
  · cases hline : find input crlf p with
    | none => exact ⟨lit "Truncated chunk size.", by simp only [decodeStep, if_pos hin, hline]⟩
    | some e =>
      cases hsize : stoull 16 (sizeValue (substr input p (e - p))) with
      | none =>
        refine ⟨lit "Invalid chunk size.", ?_⟩
        simp only [decodeStep, if_pos hin, hline, hsize]
      | some s => exact absurd ⟨hin, hline, hsize⟩ (h e s)
  · exact ⟨lit "Missing terminating chunk.", by simp only [decodeStep, if_neg hin]⟩

/-- **An iteration that moves on** appends the data of a chunk and follows its size line. -/
theorem decodeStep_eq_next_iff {body body' : Bytes} :
    decodeStep input p body = .next q body' ↔
      ∃ e s, ChunkAt input p e s ∧ q = (e + 2 + s + 2) % 2 ^ 64 ∧
        body' = body ++ substr input (e + 2) s := by
  by_cases hat : ∃ e s, SizeAt input p e s
  · obtain ⟨e, s, hat⟩ := hat
    rw [hat.decodeStep_eq]
    constructor
    · intro h
      split_ifs at h with hs hfits hpos hclosed
      simp only [DecodeStep.next.injEq] at h
      refine ⟨e, s, ⟨hat, hs, by omega, substr_crlf_iff.1 (not_not.1 hclosed)⟩, h.1.symm, h.2.symm⟩
    · rintro ⟨e', s', hc, rfl, rfl⟩
      obtain ⟨rfl, rfl⟩ := hat.unique hc.toSizeAt
      have hpos := le_length_of_crlf hc.closed
      have hfits := hc.fits
      rw [if_neg hc.size_ne, if_neg (by omega), if_neg (by omega),
        if_neg (not_not.2 (substr_crlf_iff.2 hc.closed))]
  · simp only [not_exists] at hat
    obtain ⟨error, h⟩ := decodeStep_of_not_sizeAt hat body
    rw [h]
    constructor
    · intro hno; cases hno
    · rintro ⟨e, s, hc, -⟩
      exact absurd hc.toSizeAt (hat e s)

theorem moves_eq_leads : PartialRun.Moves (nextOffset input) = Leads input := by
  funext p q
  apply propext
  rw [PartialRun.Moves, nextOffset]
  constructor
  · intro h
    split at h
    · cases h
    · rename_i q' body' hstep
      cases h
      obtain ⟨e, s, hc, hq, -⟩ := decodeStep_eq_next_iff.1 hstep
      exact ⟨e, s, hc, hq⟩
  · rintro ⟨e, s, hc, hq⟩
    rw [decodeStep_eq_next_iff.2 ⟨e, s, hc, hq, rfl⟩]

/-! ### Back or forth -/

/-- Two line ends do not overlap. -/
theorem crlf_not_next {n : ℕ} (h : crlf <+: input.drop n) : ¬ crlf <+: input.drop (n + 1) := by
  intro h'
  rw [← List.drop_drop] at h'
  obtain ⟨t, ht⟩ := h
  rw [← ht] at h'
  exact absurd (List.cons_prefix_cons.1 h').1 (by decide)

/-- Every offset the loop reaches, except the first, has a line end before it. -/
theorem crlf_before (h : ReflTransGen (Leads input) 0 p) (hlen : input.length < npos) :
    p = 0 ∨ 2 ≤ p ∧ crlf <+: input.drop (p - 2) := by
  induction h with
  | refl => exact Or.inl rfl
  | tail _ hstep _ =>
    obtain ⟨e, s, hc, rfl⟩ := hstep
    have hpos := le_length_of_crlf hc.closed
    have hmod : (e + 2 + s + 2) % 2 ^ 64 = (e + 2 + s) % 2 ^ 64 + 2 := by
      unfold npos at hlen; omega
    refine Or.inr ⟨by omega, ?_⟩
    rw [hmod, Nat.add_sub_cancel]
    exact hc.closed

/-- **An iteration moves forth or back**: forth when its sum does not wrap, or when the size is
`2^64 - 2`, which leads to the line end after the size line again; back for every other size. -/
theorem ChunkAt.lt_iff (hc : ChunkAt input p e s) (hreach : ReflTransGen (Leads input) 0 p)
    (hlen : input.length < npos) :
    p < (e + 2 + s + 2) % 2 ^ 64 ↔ e + 2 + s + 2 < 2 ^ 64 ∨ s = 2 ^ 64 - 2 := by
  have hs := stoull_lt hc.size
  have hpos := le_length_of_crlf hc.closed
  obtain ⟨hpe, hcr, hfirst⟩ := (find_eq_some_iff hc.inside.le).1 hc.line
  have he := le_length_of_crlf hcr
  unfold npos at hlen
  by_cases hwrap : e + 2 + s + 2 < 2 ^ 64
  · rw [Nat.mod_eq_of_lt hwrap]
    exact iff_of_true (by omega) (Or.inl hwrap)
  · obtain ⟨d, hd⟩ : ∃ d, e + 2 + s = 2 ^ 64 + d := Nat.exists_eq_add_of_le (by omega)
    have hend : (e + 2 + s) % 2 ^ 64 = d := by omega
    have hnext : (e + 2 + s + 2) % 2 ^ 64 = d + 2 := by omega
    have hclosed := hc.closed
    rw [hend] at hclosed
    rw [hnext]
    rcases lt_trichotomy s (2 ^ 64 - 2) with hlt | heq | hgt
    · -- the data end before the size line does, hence before the line begins
      have hbefore : d < p := by
        by_contra hle
        exact hfirst d (not_lt.1 hle) (by omega) hclosed
      have hnot : d + 1 ≠ p := by
        intro heq
        rcases crlf_before hreach hlen with hp | ⟨hp, hcrp⟩
        · omega
        · refine crlf_not_next hcrp ?_
          have hp1 : p - 2 + 1 = d := by omega
          rwa [hp1]
      exact iff_of_false (by omega) (by omega)
    · exact iff_of_true (by omega) (Or.inr heq)
    · -- a line end cannot begin at the second byte of one
      have hsecond : d = e + 1 := by omega
      subst hsecond
      exact absurd hclosed (crlf_not_next hcr)

/-! ### Termination -/

/-- Finitely many iterations of the loop are enough. -/
def Ends (input : Bytes) : Prop := ∃ n, decodeLoop input n 0 [] ≠ .error .endless

/-- Every iteration that moves on, from an offset the loop reaches, increases it. -/
def Increases (input : Bytes) : Prop :=
  ∀ n p q, PartialRun.run (nextOffset input) n 0 = some p → nextOffset input p = some q → p < q

theorem ends_iff : Ends input ↔ ¬ ∀ n, (PartialRun.run (nextOffset input) n 0).isSome := by
  rw [not_forall]
  exact exists_congr fun n => not_congr (decodeLoop_endless_iff input n 0 [])

/-- The argument for termination: a loop that increases its offset cannot go round. -/
theorem Increases.ends (h : Increases input) : Ends input := by
  rw [ends_iff, PartialRun.forever_iff_cycle (s := Finset.range input.length)]
  · rintro ⟨p, hreach, hcycle⟩
    have hup : ∀ q, Relation.TransGen (PartialRun.Moves (nextOffset input)) p q → p < q := by
      intro q hq
      induction hq with
      | single hstep =>
        obtain ⟨n, hn⟩ := PartialRun.run_of_reaches hreach
        exact h n p _ hn hstep
      | tail hpq hstep ih =>
        obtain ⟨n, hn⟩ := PartialRun.run_of_reaches (hreach.trans hpq.to_reflTransGen)
        exact ih.trans (h n _ _ hn hstep)
    exact lt_irrefl p (hup p hcycle)
  · intro p hp
    exact Finset.mem_range.2 (lt_length_of_nextOffset hp)

theorem ends_iff_no_cycle :
    Ends input ↔ ¬ ∃ p, ReflTransGen (Leads input) 0 p ∧ TransGen (Leads input) p p := by
  rw [ends_iff, PartialRun.forever_iff_cycle (s := Finset.range input.length), moves_eq_leads]
  intro p hp
  exact Finset.mem_range.2 (lt_length_of_nextOffset hp)

theorem increases_iff (hlen : input.length < npos) :
    Increases input ↔ ∀ p e s, ReflTransGen (Leads input) 0 p → ChunkAt input p e s →
      e + 2 + s + 2 < 2 ^ 64 ∨ s = 2 ^ 64 - 2 := by
  have hmoves : PartialRun.Moves (nextOffset input) = Leads input := moves_eq_leads
  constructor
  · intro h p e s hreach hc
    obtain ⟨n, hn⟩ := PartialRun.run_of_reaches (hmoves ▸ hreach)
    have hstep : PartialRun.Moves (nextOffset input) p ((e + 2 + s + 2) % 2 ^ 64) := by
      rw [hmoves]; exact ⟨e, s, hc, rfl⟩
    exact (hc.lt_iff hreach hlen).1 (h n p _ hn hstep)
  · intro h n p q hn hstep
    have hreach : ReflTransGen (Leads input) 0 p := hmoves ▸ PartialRun.reaches_of_run hn
    have hlead : Leads input p q := hmoves ▸ hstep
    obtain ⟨e, s, hc, rfl⟩ := hlead
    exact (hc.lt_iff hreach hlen).2 (h p e s hreach hc)

/-- **When the loop of `decodeChunked` ends**: exactly when the size lines, followed from the start
of the payload, do not lead round in a circle; and it ends because the offset increases exactly
when no size on the way, `2^64 - 2` apart, makes the sum wrap around. -/
theorem decodeChunked_ends_iff (input : Bytes) (hlen : input.length < npos) :
    (Ends input ↔ ¬ ∃ p, ReflTransGen (Leads input) 0 p ∧ TransGen (Leads input) p p) ∧
      (Increases input ↔ ∀ p e s, ReflTransGen (Leads input) 0 p → ChunkAt input p e s →
        e + 2 + s + 2 < 2 ^ 64 ∨ s = 2 ^ 64 - 2) :=
  ⟨ends_iff_no_cycle, increases_iff hlen⟩

/-- A chunk, and a size line whose size leads back to the end of that chunk. -/
def endlessPayload : Bytes := lit "1\r\nA\r\nFFFFFFFFFFFFFFEC\r\n"

/-- **A payload of 24 bytes on which the loop does not end.** -/
theorem endlessPayload_not_ends : ¬ Ends endlessPayload := by
  rintro ⟨n, hn⟩
  exact hn (decodeLoop_endless (by decide +kernel) n)

/-- A chunk of five bytes and the last one. -/
def helloPayload : Bytes := lit "5\r\nhello\r\n0\r\n\r\n"

/-- The loop ends on this payload, and its size lines lead into no circle. -/
theorem decodeChunked_ends_iff_hello : Ends helloPayload ∧
    ¬ ∃ p, ReflTransGen (Leads helloPayload) 0 p ∧ TransGen (Leads helloPayload) p p := by
  have hends : Ends helloPayload := ⟨2, by decide +kernel⟩
  exact ⟨hends, (decodeChunked_ends_iff helloPayload (by decide)).1.1 hends⟩

/-! ### A payload that is decoded to itself -/

/-- A size on the way of the decoder leads past the end of 64-bit arithmetic. -/
def SizeWraps (input : Bytes) : Prop :=
  ∃ p e s, ReflTransGen (Leads input) 0 p ∧ ChunkAt input p e s ∧ 2 ^ 64 ≤ e + 2 + s + 2

/-- Without one, the loop has appended fewer bytes than it has passed: by induction on the
iterations. -/
theorem length_lt_of_decodeLoop (hno : ¬ SizeWraps input) {fuel : ℕ} {body : Bytes} {d : Decoded}
    (hreach : ReflTransGen (Leads input) 0 p) (hle : body.length ≤ p)
    (h : decodeLoop input fuel p body = .ok d) (hok : d.ok = true) :
    d.body.length < input.length := by
  induction fuel generalizing p body with
  | zero => cases h
  | succ fuel ih =>
    rw [decodeLoop] at h
    by_cases hat : ∃ e s, SizeAt input p e s
    · obtain ⟨e, s, hat⟩ := hat
      cases hstep : decodeStep input p body with
      | stop result =>
        rw [hstep] at h
        rw [hat.decodeStep_eq] at hstep
        split_ifs at hstep <;> cases hstep <;> cases h
        · exact hle.trans_lt hat.inside
        all_goals cases hok
      | next q body' =>
        rw [hstep] at h
        obtain ⟨e', s', hc, rfl, rfl⟩ := decodeStep_eq_next_iff.1 hstep
        have hfit : e' + 2 + s' + 2 < 2 ^ 64 := by
          by_contra hwraps
          exact hno ⟨p, e', s', hreach, hc, not_lt.1 hwraps⟩
        have hpe : p ≤ e' := hc.start_le
        refine ih (hreach.tail ⟨e', s', hc, rfl⟩) ?_ h
        have hdata : (substr input (e' + 2) s').length ≤ s' := by
          rw [substr, List.length_take]
          exact min_le_left _ _
        rw [Nat.mod_eq_of_lt hfit, List.length_append]
        omega
    · simp only [not_exists] at hat
      obtain ⟨error, hstep⟩ := decodeStep_of_not_sizeAt hat body
      rw [hstep] at h
      cases h
      cases hok

/-- **A payload that is decoded to itself has a size that wraps around.** -/
theorem decoded_self_wraps (h : decodeChunked input = .ok ⟨true, input, []⟩) : SizeWraps input := by
  by_contra hno
  exact lt_irrefl _ (length_lt_of_decodeLoop hno .refl le_rfl h rfl)

end Http

end TuxDock
