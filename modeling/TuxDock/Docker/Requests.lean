import TuxDock.Docker.Manager
import TuxDock.Http.Wire

/-!
# Requests for actions

Each call of the manager that changes something writes one request, with the id of its target in the
path.  An id is no text of the user: the engine has made it.

* `Action.Plain` : the ids have no blank, no slash and no question mark;
* `request_injective` : **different actions have different requests**;
* `action_read_iff` : what the engine reads of an action on the wire, if anything, asks for this
  action and for no other.
-/

namespace TuxDock

namespace Docker

open Text Http

/-- An id as the engine makes them. -/
def PlainId (id : Bytes) : Prop := ∀ c ∈ id, isspace c = false ∧ c ≠ 47 ∧ c ≠ 63

instance (id : Bytes) : Decidable (PlainId id) :=
  inferInstanceAs (Decidable (∀ c ∈ id, isspace c = false ∧ c ≠ 47 ∧ c ≠ 63))

namespace Action

/-- The id of the container or the image. -/
def target : Action → Bytes
  | start id | stop id _ | remove id | deleteImage id => id

/-- The id can be part of a path. -/
def Plain (a : Action) : Prop := PlainId a.target

instance (a : Action) : Decidable a.Plain := inferInstanceAs (Decidable (PlainId a.target))

end Action

theorem PlainId.slash_notMem {id : Bytes} (h : PlainId id) : (47 : UInt8) ∉ id := fun hmem =>
  (h 47 hmem).2.1 rfl

theorem isspace_decimal {n : ℤ} {c : UInt8} (h : c ∈ decimal n) : isspace c = false := by
  obtain ⟨d, hd, rfl⟩ := List.mem_map.1 h
  rcases mem_toString hd with rfl | hdigit
  · decide
  · simp only [Char.isDigit, Bool.and_eq_true, decide_eq_true_eq, UInt32.le_iff_toNat_le] at hdigit
    have hge : 48 ≤ d.toNat := hdigit.1
    have hle : d.toNat ≤ 57 := hdigit.2
    have hval : (UInt8.ofNat d.toNat).toNat = d.toNat :=
      UInt8.toNat_ofNat_of_lt' (Nat.lt_of_le_of_lt hle (by decide))
    simp only [isspace, hval, Bool.or_eq_false_iff, beq_eq_false_iff_ne, Bool.and_eq_false_iff,
      decide_eq_false_iff_not]
    omega

theorem start_ne_stop {id id' tail : Bytes} (h : (47 : UInt8) ∉ id) (h' : (47 : UInt8) ∉ id') :
    lit "/containers/" ++ id ++ lit "/start" ≠
      lit "/containers/" ++ id' ++ lit "/stop?t=" ++ tail := by
  intro heq
  rw [List.append_assoc, List.append_assoc, List.append_assoc, List.append_cancel_left_eq] at heq
  obtain ⟨-, hrest⟩ := append_sep_injective h h' heq
  have hthird : some (97 : UInt8) = some 111 := congrArg (fun l : Bytes => l[2]?) hrest
  exact absurd hthird (by decide +kernel)

theorem containers_ne_images {id id' : Bytes} :
    lit "/containers/" ++ id ≠ lit "/images/" ++ id' := by
  intro heq
  have hsecond : some (99 : UInt8) = some 105 := congrArg (fun l : Bytes => l[1]?) heq
  exact absurd hsecond (by decide +kernel)

theorem post_ne_delete : lit "POST" ≠ lit "DELETE" := by decide +kernel

/-- **Different actions have different requests.** -/
theorem request_injective {a b : Action} (ha : a.Plain) (hb : b.Plain)
    (hmethod : a.request.method = b.request.method) (hpath : a.request.path = b.request.path) :
    a = b := by
  have hslash := ha.slash_notMem
  have hslash' := hb.slash_notMem
  cases a with
  | start id =>
    cases b with
    | start id' => rw [List.append_cancel_left (List.append_cancel_right hpath)]
    | stop id' timeoutSeconds => exact absurd hpath (start_ne_stop hslash hslash')
    | remove id' | deleteImage id' => exact absurd hmethod post_ne_delete
  | stop id timeoutSeconds =>
    cases b with
    | start id' => exact absurd hpath.symm (start_ne_stop hslash' hslash)
    | stop id' timeoutSeconds' =>
      simp only [Action.request, stopRequest, List.append_assoc,
        List.append_cancel_left_eq] at hpath
      obtain ⟨hid, hrest⟩ : id = id' ∧ lit "stop?t=" ++ decimal timeoutSeconds =
          lit "stop?t=" ++ decimal timeoutSeconds' := append_sep_injective hslash hslash' hpath
      rw [hid, decimal_injective (List.append_cancel_left hrest)]
    | remove id' | deleteImage id' => exact absurd hmethod post_ne_delete
  | remove id =>
    cases b with
    | remove id' => rw [List.append_cancel_left hpath]
    | deleteImage id' => exact absurd hpath containers_ne_images
    | start id' | stop id' timeoutSeconds' => exact absurd hmethod.symm post_ne_delete
  | deleteImage id =>
    cases b with
    | deleteImage id' => rw [List.append_cancel_left hpath]
    | remove id' => exact absurd hpath.symm containers_ne_images
    | start id' | stop id' timeoutSeconds' => exact absurd hmethod.symm post_ne_delete

theorem request_words {a : Action} (ha : a.Plain) :
    (∀ c ∈ a.request.method, isspace c = false) ∧ ∀ c ∈ a.request.path, isspace c = false := by
  have hid : ∀ c ∈ a.target, isspace c = false := fun c hc => (ha c hc).1
  have hpost : ∀ c ∈ lit "POST", isspace c = false := by decide +kernel
  have hdelete : ∀ c ∈ lit "DELETE", isspace c = false := by decide +kernel
  have hcontainers : ∀ c ∈ lit "/containers/" ++ a.target, isspace c = false :=
    List.forall_mem_append.2 ⟨by decide +kernel, hid⟩
  have himages : ∀ c ∈ lit "/images/" ++ a.target, isspace c = false :=
    List.forall_mem_append.2 ⟨by decide +kernel, hid⟩
  cases a with
  | start id => exact ⟨hpost, List.forall_mem_append.2 ⟨hcontainers, by decide +kernel⟩⟩
  | stop id timeoutSeconds =>
    refine ⟨hpost, List.forall_mem_append.2 ⟨?_, fun c hc => isspace_decimal hc⟩⟩
    exact List.forall_mem_append.2 ⟨hcontainers, by decide +kernel⟩
  | remove id => exact ⟨hdelete, hcontainers⟩
  | deleteImage id => exact ⟨hdelete, himages⟩

/-- **What the engine reads of an action asks for this action and no other**, whatever the writes
answer: it reads nothing, or the request of the action. -/
theorem action_read_iff (a : Action) (ha : a.Plain) (answers : List (Except Errno ℕ))
    (R : RequestText) (rest : Bytes)
    (h : accepted (wireRequest a.request.method a.request.path a.request.body) answers =
      R.render ++ rest) (b : Action) (hb : b.Plain) :
    (R.method = b.request.method ∧ R.target = b.request.path) ↔ b = a := by
  have hwords := request_words ha
  obtain ⟨hmethod, htarget, -⟩ := wire_read hwords.1 hwords.2 h
  rw [hmethod, htarget]
  constructor
  · rintro ⟨hm, hp⟩
    exact (request_injective ha hb hm hp).symm
  · rintro rfl
    exact ⟨rfl, rfl⟩

/-- What the engine reads of a request to remove a container is no request to delete an image. -/
theorem action_read_iff_removing : ∃ R : RequestText,
    accepted (wireRequest (lit "DELETE") (lit "/containers/web") []) [.ok 119] = R.render ++ [] ∧
      ¬ (R.method = lit "DELETE" ∧ R.target = lit "/images/web") := by
  have hread : accepted (wireRequest (lit "DELETE") (lit "/containers/web") []) [.ok 119] =
      (wireText (lit "DELETE") (lit "/containers/web") [] (by decide +kernel)
        (by decide +kernel)).render ++ [] := by
    rw [wireText_render, List.append_nil]
    decide +kernel
  refine ⟨_, hread, ?_⟩
  have hiff := action_read_iff (.remove (lit "web")) (by decide +kernel) [.ok 119] _ [] hread
    (.deleteImage (lit "web")) (by decide +kernel)
  exact fun h => absurd (hiff.1 h) (by decide +kernel)

end Docker

end TuxDock
