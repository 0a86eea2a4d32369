import TuxDock.Docker.Manager
import TuxDock.App.Events

/-!
# The image list

`getImageList` turns the response of the engine into rows of an id and a tag, and
`ApplyRefreshResults` puts them in the place of the cached ones.

* `Image` : an element of the response as the engine may send it;
* `getImageList_iff` : **when the list is the rows of all images** and when a response that is no
  array is an error: no tags are `null`, and the loop meets a value it cannot read;
* `refresh_keeps`, `refresh_wipes` : what such a response makes of the cached images.

The exceptions of the JSON library carry a text; `what` is the text for a body that raises one.
-/

namespace TuxDock

namespace Docker

open Text Http App

/-- What a call for a list comes to. -/
inductive ListCall (α : Type) where
  | returned (r : ListResult α)
  | fault (f : Fault)
  | waiting
  deriving Repr, DecidableEq

/-- What the two list calls have in common: the response is read, or it is an error. -/
def listCall {α : Type} (request : Request) (fallback : String) (read : Bytes → ListResult α)
    (engine : Request → Exchange) : ListCall α :=
  match engine request with
  | .response r => .returned (if r.ok then read r.body else ⟨[], apiError r fallback⟩)
  | .fault f => .fault f
  | .waiting => .waiting

theorem listCall_eq {α : Type} {request : Request} {fallback : String}
    {read : Bytes → ListResult α} {engine : Request → Exchange} {body : Bytes}
    (h : engine request = .response ⟨200, body, []⟩) :
    listCall request fallback read engine = .returned (read body) := by
  rw [listCall, h]
  rfl

/-! ### The image list -/

/-- The request of `getImageList`. -/
def imagesRequest : Request := ⟨lit "GET", lit "/images/json", [], 10⟩

/-- The loop body of `getImageList`; `none` when `value` throws. -/
def appendImage (items : List ImageInfo) (item : Json) : Option (List ImageInfo) :=
  match item.valueStr (lit "Id") [], item.valueStrs (lit "RepoTags") [] with
  | some id, some tags =>
    if id = [] then some items
    else if tags = [] then some (items ++ [(id, lit "<untagged>")])
    else some (items ++ tags.map fun tag => (id, tag))
  | _, _ => none

section Lists

variable (parse : Bytes → Option Json) (what : Bytes → Bytes)

/-- The loop of `getImageList` with its handler, which drops what has been read so far. -/
def parseImages (body : Bytes) : ListResult ImageInfo :=
  match (parse body).bind fun v => v.items.foldlM appendImage [] with
  | some items => ⟨items, []⟩
  | none => ⟨[], lit "Could not parse image data: " ++ what body⟩

/-- `getImageList`. -/
def getImageList : (Request → Exchange) → ListCall ImageInfo :=
  listCall imagesRequest "Could not list images." (parseImages parse what)

end Lists

/-! ### Images -/

/-- The tags of an image. -/
inductive RepoTags where
  | absent
  | null
  | listed (tags : List Bytes)
  deriving Repr, DecidableEq

namespace RepoTags

/-- The member that carries the tags, if there is one. -/
def member : RepoTags → Option Json
  | absent => none
  | null => some .null
  | listed tags => some (.arr (tags.map .str))

/-- The tags that are listed. -/
def all : RepoTags → List Bytes
  | listed tags => tags
  | _ => []

end RepoTags

/-- An image as the engine lists it: an object with an id and tags, and other members. -/
structure Image where
  members : List (Bytes × Json)
  id : Bytes
  repoTags : RepoTags
  has_id : members.lookup (lit "Id") = some (.str id)
  has_tags : members.lookup (lit "RepoTags") = repoTags.member
  id_ne : id ≠ []

namespace Image

/-- The element of the response. -/
def json (i : Image) : Json := .obj i.members

/-- A row for each tag, and one for an image without tags. -/
def rows (i : Image) : List ImageInfo :=
  if i.repoTags.all = [] then [(i.id, lit "<untagged>")]
  else i.repoTags.all.map fun tag => (i.id, tag)

/-- **An image appends its rows**, unless its tags are `null`. -/
theorem appendImage_json (i : Image) (items : List ImageInfo) :
    appendImage items i.json =
      if i.repoTags = .null then none else some (items ++ i.rows) := by
  have hid : i.json.valueStr (lit "Id") [] = some i.id := by
    simp only [json, Json.valueStr, i.has_id]
  have htags : i.json.valueStrs (lit "RepoTags") [] =
      if i.repoTags = .null then none else some i.repoTags.all := by
    simp only [json, Json.valueStrs, i.has_tags]
    cases i.repoTags with
    | absent => rfl
    | null => rfl
    | listed tags => exact Json.strs_map tags
  rw [appendImage, hid, htags]
  by_cases hnull : i.repoTags = .null
  · rw [if_pos hnull, if_pos hnull]
  · simp only [if_neg hnull, if_neg i.id_ne, rows]
    split_ifs <;> rfl

theorem foldlM_json (images : List Image) (items : List ImageInfo) :
    (images.map json).foldlM appendImage items =
      if ∀ i ∈ images, i.repoTags ≠ .null then some (items ++ images.flatMap rows) else none := by
  induction images generalizing items with
  | nil => simp
  | cons i images ih =>
    rw [List.map_cons, List.foldlM_cons, i.appendImage_json]
    by_cases hnull : i.repoTags = .null
    · have hnot : ¬ ∀ j ∈ i :: images, j.repoTags ≠ .null := fun h => h i List.mem_cons_self hnull
      rw [if_pos hnull, if_neg hnot]
      rfl
    · rw [if_neg hnull, Option.bind_eq_bind, Option.bind_some, ih]
      simp only [List.forall_mem_cons, ne_eq, hnull, not_false_eq_true, true_and,
        List.flatMap_cons, List.append_assoc]

end Image

/-! ### Values the loop can read -/

/-- An object whose id and tags, if present, are a string and a list of strings. -/
def ReadableImage (item : Json) : Prop :=
  ∃ members, item = .obj members ∧
    (∀ v, members.lookup (lit "Id") = some v → ∃ s, v = .str s) ∧
    ∀ v, members.lookup (lit "RepoTags") = some v → ∃ ss : List Bytes, v = .arr (ss.map .str)

theorem valueStr_isSome_iff {members : List (Bytes × Json)} {key default : Bytes} :
    ((Json.obj members).valueStr key default).isSome ↔
      ∀ v, members.lookup key = some v → ∃ s, v = .str s := by
  rw [Json.valueStr]
  rcases members.lookup key with _ | ⟨_ | _ | _ | _ | _ | _ | _⟩ <;> simp

theorem valueStrs_isSome_iff {members : List (Bytes × Json)} {key : Bytes} {default : List Bytes} :
    ((Json.obj members).valueStrs key default).isSome ↔
      ∀ v, members.lookup key = some v → ∃ ss : List Bytes, v = .arr (ss.map .str) := by
  rw [Json.valueStrs]
  rcases members.lookup key with _ | ⟨_ | _ | _ | _ | _ | items | _⟩ <;>
    simp [Json.strs_isSome_iff]

theorem appendImage_isSome_iff (items : List ImageInfo) {item : Json} :
    (appendImage items item).isSome ↔ ReadableImage item := by
  have hboth : (appendImage items item).isSome ↔ (item.valueStr (lit "Id") []).isSome ∧
      (item.valueStrs (lit "RepoTags") []).isSome := by
    rw [appendImage]
    cases item.valueStr (lit "Id") [] with
    | none => simp
    | some id =>
      cases item.valueStrs (lit "RepoTags") [] with
      | none => simp
      | some tags =>
        dsimp only
        split_ifs <;> simp
  rw [hboth]
  cases item with
  | obj members =>
    rw [valueStr_isSome_iff, valueStrs_isSome_iff]
    constructor
    · rintro ⟨hid, htags⟩
      exact ⟨members, rfl, hid, htags⟩
    · rintro ⟨_, h, hid, htags⟩
      cases h
      exact ⟨hid, htags⟩
  | _ =>
    refine iff_of_false (by simp [Json.valueStr]) ?_
    rintro ⟨members, h, -⟩
    cases h

theorem foldlM_isSome_iff (values : List Json) (items : List ImageInfo) :
    (values.foldlM appendImage items).isSome ↔ ∀ item ∈ values, ReadableImage item := by
  induction values generalizing items with
  | nil => simp
  | cons item values ih =>
    rw [List.foldlM_cons, List.forall_mem_cons, ← appendImage_isSome_iff items]
    cases happend : appendImage items item with
    | none => simp
    | some items' =>
      rw [Option.bind_eq_bind, Option.bind_some, ih]
      simp

/-! ### The list -/

section Results

variable {parse : Bytes → Option Json} {what : Bytes → Bytes} {body : Bytes}

/-- The engine answers with status 200 and this body. -/
def AnswersImages (engine : Request → Exchange) (body : Bytes) : Prop :=
  engine imagesRequest = .response ⟨200, body, []⟩

theorem getImageList_eq {engine : Request → Exchange} (h : AnswersImages engine body) :
    getImageList parse what engine = .returned (parseImages parse what body) := listCall_eq h

/-- The text of an error is not empty, whatever the library says. -/
theorem parse_error_ne : lit "Could not parse image data: " ++ what body ≠ [] := by
  intro h
  exact absurd (List.append_eq_nil_iff.1 h).1 (by decide)

theorem parseImages_images {images : List Image}
    (h : parse body = some (.arr (images.map Image.json))) :
    parseImages parse what body = ⟨images.flatMap Image.rows, []⟩ ↔
      ∀ i ∈ images, i.repoTags ≠ .null := by
  rw [parseImages, h, Option.bind_some, Json.items, Image.foldlM_json]
  split_ifs with hnull
  · exact iff_of_true rfl hnull
  · refine iff_of_false ?_ hnull
    intro hlist
    exact parse_error_ne (ListResult.mk.inj hlist).2

/-- A body is an error exactly when the library or the loop throws. -/
theorem parseImages_error_iff (what : Bytes → Bytes) :
    ((parseImages parse what body).items = [] ∧ (parseImages parse what body).error ≠ []) ↔
      ∀ v, parse body = some v → ∃ item ∈ v.items, ¬ ReadableImage item := by
  rw [parseImages]
  cases hparse : parse body with
  | none => exact iff_of_true ⟨rfl, parse_error_ne⟩ (by simp)
  | some v =>
    have hread := foldlM_isSome_iff v.items []
    rw [Option.bind_some]
    cases hloop : v.items.foldlM appendImage [] with
    | none =>
      rw [hloop] at hread
      refine iff_of_true ⟨rfl, parse_error_ne⟩ ?_
      intro w hw
      cases hw
      by_contra hall
      refine absurd (hread.2 ?_) (by simp)
      intro item hitem
      by_contra hitem'
      exact hall ⟨item, hitem, hitem'⟩
    | some items =>
      rw [hloop] at hread
      refine iff_of_false (fun h => h.2 rfl) ?_
      intro hall
      obtain ⟨item, hitem, hnot⟩ := hall v rfl
      exact hnot (hread.1 rfl item hitem)

/-- **The image list.**  The rows of all images come out, in order, exactly when the tags of none
are `null`; and a body that is no array is an error exactly when the loop meets a value it cannot
read. -/
theorem getImageList_iff (parse : Bytes → Option Json) (what : Bytes → Bytes)
    (engine : Request → Exchange) (body : Bytes) (h : AnswersImages engine body) :
    (∀ images : List Image, parse body = some (.arr (images.map Image.json)) →
      (getImageList parse what engine = .returned ⟨images.flatMap Image.rows, []⟩ ↔
        ∀ i ∈ images, i.repoTags ≠ .null)) ∧
    ((∀ values, parse body ≠ some (.arr values)) →
      ((∃ r, getImageList parse what engine = .returned r ∧ r.items = [] ∧ r.error ≠ []) ↔
        ∀ v, parse body = some v → ∃ item ∈ v.items, ¬ ReadableImage item)) := by
  rw [getImageList_eq h]
  constructor
  · intro images hparse
    rw [ListCall.returned.injEq]
    exact parseImages_images hparse
  · intro _
    rw [← parseImages_error_iff what]
    constructor
    · rintro ⟨r, hr, hitems, herror⟩
      cases hr
      exact ⟨hitems, herror⟩
    · rintro ⟨hitems, herror⟩
      exact ⟨_, rfl, hitems, herror⟩

/-- The cached images stay when the body is an error. -/
theorem refresh_keeps (h : ∀ v, parse body = some v → ∃ item ∈ v.items, ¬ ReadableImage item)
    (a : TuxDockApp) (containers : ListResult ContainerInfo) (silent : Bool) :
    (a.applyRefreshResults containers (parseImages parse what body) silent).images = a.images := by
  have herror := (parseImages_error_iff what).2 h
  rw [applyRefreshResults_images, ListResult.ok, if_neg (by simpa using herror.2)]

/-- They are lost when it is `null` or an empty object. -/
theorem refresh_wipes (h : parse body = some .null ∨ parse body = some (.obj []))
    (a : TuxDockApp) (containers : ListResult ContainerInfo) (silent : Bool) :
    (a.applyRefreshResults containers (parseImages parse what body) silent).images = [] := by
  have hempty : parseImages parse what body = ⟨[], []⟩ := by
    rcases h with h | h <;> rw [parseImages, h] <;> rfl
  rw [applyRefreshResults_images, hempty]
  rfl

end Results

/-! ### Three responses -/

/-- The library on one text. -/
def parseOnly (text : Bytes) (v : Json) (body : Bytes) : Option Json :=
  if body = text then some v else none

/-- An engine that answers any request with this body. -/
def answer (body : Bytes) (_ : Request) : Exchange := .response ⟨200, body, []⟩

theorem answersImages_answer (body : Bytes) : AnswersImages (answer body) body := rfl

/-- The text of the exception for a `null` in the place of a list. -/
def notArray : Bytes := lit "[json.exception.type_error.302] type must be array, but is null"

/-- The image `a` with the tag `x`. -/
def taggedImage : Image where
  members := [(lit "Id", .str (lit "a")), (lit "RepoTags", .arr [.str (lit "x")])]
  id := lit "a"
  repoTags := .listed [lit "x"]
  has_id := rfl
  has_tags := rfl
  id_ne := by decide

/-- The image `b`, with no tags and with `null` for tags. -/
def plainImage : Image where
  members := [(lit "Id", .str (lit "b"))]
  id := lit "b"
  repoTags := .absent
  has_id := rfl
  has_tags := rfl
  id_ne := by decide

/-- The image `b`, without tags. -/
def nullImage : Image where
  members := [(lit "Id", .str (lit "b")), (lit "RepoTags", .null)]
  id := lit "b"
  repoTags := .null
  has_id := rfl
  has_tags := rfl
  id_ne := by decide

/-- A response in which `b` has no member for its tags. -/
def plainText : Bytes :=
  lit "[\x7b\"Id\":\"a\",\"RepoTags\":[\"x\"]\x7d,\x7b\"Id\":\"b\"\x7d]"

/-- A response in which that member is `null`. -/
def nullText : Bytes :=
  lit "[\x7b\"Id\":\"a\",\"RepoTags\":[\"x\"]\x7d,\x7b\"Id\":\"b\",\"RepoTags\":null\x7d]"

theorem getImageList_iff_plain :
    getImageList (parseOnly plainText (.arr ([taggedImage, plainImage].map Image.json)))
      (fun _ => []) (answer plainText) =
        .returned ⟨[(lit "a", lit "x"), (lit "b", lit "<untagged>")], []⟩ := by
  have hparse : parseOnly plainText (.arr ([taggedImage, plainImage].map Image.json)) plainText =
      some (.arr ([taggedImage, plainImage].map Image.json)) := if_pos rfl
  have hlist := (getImageList_iff _ (fun _ => []) (answer plainText) plainText
    (answersImages_answer plainText)).1
    [taggedImage, plainImage] hparse
  exact hlist.2 (by decide)

/-- **Two responses that are taken the wrong way**: one image with `null` for its tags makes an
error of the whole list, and an empty object passes for an empty list. -/
theorem getImageList_fails :
    (getImageList (parseOnly nullText (.arr ([taggedImage, nullImage].map Image.json)))
        (fun _ => notArray) (answer nullText) =
          .returned ⟨[], lit "Could not parse image data: " ++ notArray⟩ ∧
      [taggedImage, nullImage].flatMap Image.rows =
        [(lit "a", lit "x"), (lit "b", lit "<untagged>")]) ∧
    getImageList (parseOnly (lit "\x7b\x7d") (.obj [])) (fun _ => []) (answer (lit "\x7b\x7d")) =
      .returned ⟨[], []⟩ := by
  refine ⟨⟨?_, by decide⟩, ?_⟩
  · rw [getImageList_eq (answersImages_answer nullText), parseImages, parseOnly, if_pos rfl]
    rfl
  · rw [getImageList_eq (answersImages_answer _), parseImages, parseOnly, if_pos rfl]
    rfl

end Docker

end TuxDock
