import TuxDock.App.Subject
import TuxDock.Docker.Images

/-!
# The image of a new container

Create Container hands the second member of the chosen row to `createContainer` as the image.  In a
row of `getImageList` that member is a tag, or `<untagged>` for an image without tags.

* `tag_cases` : the second member is that placeholder, or a tag the engine has reported for the id;
* `image_eq` : what is created is created from the second member of the chosen row;
* `created_iff` : **so the image is the id or a tag of it exactly when the row has a tag**.
-/

namespace TuxDock

namespace App

open Text History Transition Docker

/-! ### Rows -/

/-- The placeholder for a tag. -/
def untagged : Bytes := lit "<untagged>"

/-- The engine lists an image of this id with this tag. -/
def Reports (parse : Bytes → Option Json) (engine : Request → Http.Exchange) (id tag : Bytes) :
    Prop :=
  ∃ (response : Http.EngineResponse) (v : Json) (members : List (Bytes × Json))
    (tags : List Bytes), engine imagesRequest = .response response ∧
    parse response.body = some v ∧ Json.obj members ∈ v.items ∧
    members.lookup (lit "Id") = some (.str id) ∧
    members.lookup (lit "RepoTags") = some (.arr (tags.map .str)) ∧ tag ∈ tags

/-- The row is one of the image that the value describes. -/
def IsRow (item : Json) (row : ImageInfo) : Prop :=
  ∃ members, item = .obj members ∧ members.lookup (lit "Id") = some (.str row.1) ∧
    (row.2 = untagged ∨ ∃ tags : List Bytes,
      members.lookup (lit "RepoTags") = some (.arr (tags.map .str)) ∧ row.2 ∈ tags)

theorem lookup_of_valueStr {item : Json} {key id : Bytes} (h : item.valueStr key [] = some id)
    (hid : id ≠ []) : ∃ members, item = .obj members ∧ members.lookup key = some (.str id) := by
  unfold Json.valueStr at h
  split at h
  · rename_i members
    refine ⟨members, rfl, ?_⟩
    split at h <;> cases h
    · exact absurd rfl hid
    · assumption
  · cases h

theorem lookup_of_valueStrs {members : List (Bytes × Json)} {key tag : Bytes} {tags : List Bytes}
    (h : (Json.obj members).valueStrs key [] = some tags) (htag : tag ∈ tags) :
    members.lookup key = some (.arr (tags.map .str)) := by
  unfold Json.valueStrs at h
  simp only at h
  split at h
  · cases h
    cases htag
  · rename_i items hlookup
    obtain ⟨ss, rfl⟩ := Json.strs_isSome_iff.1 (Option.isSome_of_eq_some h)
    rw [Json.strs_map] at h
    cases h
    exact hlookup
  · cases h

theorem mem_appendImage {items items' : List ImageInfo} {item : Json} {row : ImageInfo}
    (h : appendImage items item = some items') (hrow : row ∈ items') :
    row ∈ items ∨ IsRow item row := by
  unfold appendImage at h
  split at h
  · rename_i id tags hid htags
    split_ifs at h with hempty hnone <;> cases h
    · exact .inl hrow
    · rcases List.mem_append.1 hrow with hold | hnew
      · exact .inl hold
      · obtain ⟨members, hitem, hlookup⟩ := lookup_of_valueStr hid hempty
        rw [List.mem_singleton.1 hnew]
        exact .inr ⟨members, hitem, hlookup, .inl rfl⟩
    · rcases List.mem_append.1 hrow with hold | hnew
      · exact .inl hold
      · obtain ⟨members, rfl, hlookup⟩ := lookup_of_valueStr hid hempty
        obtain ⟨tag, htag, rfl⟩ := List.mem_map.1 hnew
        exact .inr ⟨members, rfl, hlookup, .inr ⟨tags, lookup_of_valueStrs htags htag, htag⟩⟩
  · cases h

theorem mem_foldlM_appendImage {values : List Json} {items items' : List ImageInfo}
    {row : ImageInfo} (h : values.foldlM appendImage items = some items') (hrow : row ∈ items') :
    row ∈ items ∨ ∃ item ∈ values, IsRow item row := by
  induction values generalizing items with
  | nil =>
    cases h
    exact .inl hrow
  | cons item values ih =>
    rw [List.foldlM_cons, Option.bind_eq_bind, Option.bind_eq_some_iff] at h
    obtain ⟨next, hnext, hrest⟩ := h
    rcases ih hrest with hold | ⟨item', hmem, hitem'⟩
    · rcases mem_appendImage hnext hold with hold | hitem
      · exact .inl hold
      · exact .inr ⟨item, List.mem_cons_self, hitem⟩
    · exact .inr ⟨item', List.mem_cons_of_mem _ hmem, hitem'⟩

/-- **The rows of the image list** have the placeholder or a tag of their id. -/
theorem tag_cases {parse : Bytes → Option Json} {what : Bytes → Bytes}
    {engine : Request → Http.Exchange} {r : ListResult ImageInfo} {id tag : Bytes}
    (hlist : getImageList parse what engine = .returned r) (hrow : (id, tag) ∈ r.items) :
    tag = untagged ∨ Reports parse engine id tag := by
  unfold getImageList listCall at hlist
  split at hlist
  · rename_i response hresponse
    cases hlist
    split_ifs at hrow
    · unfold parseImages at hrow
      split at hrow
      · rename_i items hitems
        obtain ⟨v, hparse, hloop⟩ := Option.bind_eq_some_iff.1 hitems
        rcases mem_foldlM_appendImage hloop hrow with hnil | ⟨item, hmem, members, rfl, hid, htag⟩
        · cases hnil
        · rcases htag with hplaceholder | ⟨tags, htags, hmemtag⟩
          · exact .inl hplaceholder
          · exact .inr ⟨response, v, members, tags, hresponse, hparse, hmem, hid, htags, hmemtag⟩
      · cases hrow
    · cases hrow
  · cases hlist
  · cases hlist

/-! ### The container that is created -/

variable {L : Json.Library} {env : Env} {s t u : System} {o : Outside} {id tag : Bytes}

theorem tracked_select {k : SelectCallback} {i : ℕ} (h : Tracked [] s)
    (hmode : s.app.modalMode = .select) (hcallback : s.app.selectCallback = some k)
    (hline : s.app.modalSelectIndex = i) (hconfirm : step L env s (.event .ret o) = some u) :
    ∃ made, u.app.calls = made ++ s.app.calls ∧ AllAbout made.head? u.app ∧
      (made = [] ∨ ∃ entry, (k.entries s.app)[i]? = some entry ∧ made = [(k, entry)]) := by
  obtain ⟨-, u', hu', rfl⟩ := advance_of_step hconfirm
  have hres : s.app.resolution .ret = some (.select, true) := by
    simp only [TuxDockApp.resolution, hmode]
  have hidle : Idle (s.app.close .select) :=
    idle_close h.settled (h.one.quiet (by simp [hmode])).1 hres
  have hslot : s.app.slot .select = some (.select k) := by
    simp only [TuxDockApp.slot, hcallback, Option.map_some]
  have hrun : s.app.onEvent L env .ret o = .ok (k.run o true i (s.app.close .select)) := by
    rw [onEvent_resolve hres hslot, Callback.run, hline]
  simp only [App.advance, hrun] at hu'
  cases hu'
  have hentries : k.entries (s.app.close .select) = k.entries s.app := by cases k <;> rfl
  have hcalls : (s.app.close .select).calls = s.app.calls := rfl
  rcases k.about_run hidle o true i with ⟨hsame, hb⟩ | ⟨entry, hentry, hcalled, hb⟩
  · exact ⟨[], hsame.trans hcalls, hb.about, .inl rfl⟩
  · rw [hentries, Int.toNat_natCast] at hentry
    exact ⟨[(k, entry)], hcalled.trans (congrArg _ hcalls), hb, .inr ⟨entry, hentry, rfl⟩⟩

/-- **What is created** until something else is chosen is created from the second member of the
chosen row. -/
theorem image_eq {i : ℕ} {after : List Label} {name image : Bytes} {ports : List Bytes}
    {onComplete : Option OnComplete} (h : Tracked [] s) (hmode : s.app.modalMode = .select)
    (hcallback : s.app.selectCallback = some (.image .runContainer))
    (hline : s.app.modalSelectIndex = i) (hrow : s.app.images[i]? = some (id, tag))
    (hconfirm : step L env s (.event .ret o) = some u)
    (hafter : exec (step L env) u after = some t) (hsame : t.app.calls = u.app.calls)
    (hcreates : .busy (.createContainer name image ports) onComplete ∈ t.app.actionThreads) :
    image = tag := by
  obtain ⟨made, hcalls, habout, hmade⟩ := tracked_select h hmode hcallback hline hconfirm
  have htracked : Tracked s.app.calls u :=
    ⟨(h.step hconfirm).one, (h.step hconfirm).settled, made, hcalls, habout⟩
  obtain ⟨made', hcalls', habout'⟩ := (htracked.exec hafter).about
  rw [hsame, hcalls] at hcalls'
  obtain rfl := List.append_cancel_right hcalls'
  obtain ⟨id', hchosen⟩ := habout'.threads _ hcreates
  rcases hmade with rfl | ⟨entry, hentry, rfl⟩
  · cases hchosen
  · have hentry' : entry = (id, tag) := Option.some.inj (hentry.symm.trans hrow)
    cases hchosen
    exact (Prod.mk.inj hentry').2

/-- **The image of a new container.**  For every list that `getImageList` can return and every row
of it that is confirmed in Create Container while the list is cached: what is then created, until
something else is chosen, is created from the id of the row or a tag that the engine has reported
for it, exactly when the row has a tag, or the engine uses the text of the placeholder itself. -/
theorem created_iff (L : Json.Library) (env : Env) (historyFile : Option Bytes)
    (containers : ListResult ContainerInfo) (images : ListResult ImageInfo)
    (parse : Bytes → Option Json) (what : Bytes → Bytes) (engine : Request → Http.Exchange)
    (r : ListResult ImageInfo) (before after : List Label) (s u t : System) (o : Outside) (i : ℕ)
    (id tag name image : Bytes) (ports : List Bytes) (onComplete : Option OnComplete)
    (hlist : getImageList parse what engine = .returned r)
    (hbefore : exec (step L env) (boot historyFile containers images) before = some s)
    (hmode : s.app.modalMode = .select)
    (hcallback : s.app.selectCallback = some (.image .runContainer))
    (himages : s.app.images = r.items) (hline : s.app.modalSelectIndex = i)
    (hrow : r.items[i]? = some (id, tag)) (hconfirm : step L env s (.event .ret o) = some u)
    (hafter : exec (step L env) u after = some t) (hsame : t.app.calls = u.app.calls)
    (hcreates : .busy (.createContainer name image ports) onComplete ∈ t.app.actionThreads) :
    image = id ∨ Reports parse engine id image ↔
      tag ≠ untagged ∨ id = untagged ∨ Reports parse engine id untagged := by
  have htracked := (Tracked.boot historyFile containers images).exec hbefore
  obtain rfl : image = tag :=
    image_eq htracked hmode hcallback hline (himages ▸ hrow) hconfirm hafter hsame hcreates
  have hcases : image = untagged ∨ Reports parse engine id image :=
    tag_cases hlist (List.mem_of_getElem? hrow)
  by_cases hplaceholder : image = untagged
  · rw [hplaceholder, eq_comm]
    simp
  · exact iff_of_true (.inr (hcases.resolve_left hplaceholder)) (.inl hplaceholder)

/-! ### Two images -/

/-- The library on the list of the images `a`, with the tag `x`, and `b`, without tags. -/
def plainParse : Bytes → Option Json :=
  parseOnly plainText (.arr [taggedImage.json, plainImage.json])

theorem plainParse_plainText :
    plainParse plainText = some (.arr [taggedImage.json, plainImage.json]) := by
  rw [plainParse, parseOnly, if_pos rfl]

theorem getImageList_plain : getImageList plainParse (fun _ => []) (answer plainText) =
    .returned ⟨[(lit "a", lit "x"), (lit "b", untagged)], []⟩ := by
  rw [getImageList_eq (answersImages_answer plainText), parseImages, plainParse_plainText]
  rfl

/-- The application with the two rows, and Create Container opened with row `i` chosen. -/
def chosen (i : ℕ) : System :=
  after (boot none ⟨[], []⟩ ⟨[(lit "a", lit "x"), (lit "b", untagged)], []⟩)
    [.event .other { still with index := 1 }, .event .ret still,
      .event .other { still with index := i }]

/-- A name is entered, and no ports. -/
def named : List Label :=
  [.event .other { still with text := lit "web" }, .event .ret still,
    .event .other { still with text := lit "0" }, .event .ret still]

/-- The operations that are then running. -/
def created (i : ℕ) : List ActionThread :=
  (after (chosen i) (.event .ret still :: named)).app.actionThreads

theorem created_iff_tagged :
    created 0 = [.busy (.createContainer (lit "web") (lit "x") []) none] ∧
      (lit "x" = lit "a" ∨ Reports plainParse (answer plainText) (lit "a") (lit "x")) := by
  have hcreated : created 0 = [.busy (.createContainer (lit "web") (lit "x") []) none] := by
    decide +kernel
  refine ⟨hcreated, ?_⟩
  refine (created_iff layoutLibrary goodEnv none ⟨[], []⟩
    ⟨[(lit "a", lit "x"), (lit "b", untagged)], []⟩ plainParse (fun _ => []) (answer plainText)
    ⟨[(lit "a", lit "x"), (lit "b", untagged)], []⟩
    [.event .other { still with index := 1 }, .event .ret still, .event .other still] named
    (chosen 0) (after (chosen 0) [.event .ret still])
    (after (chosen 0) (.event .ret still :: named)) still 0 (lit "a") (lit "x") (lit "web")
    (lit "x") [] none getImageList_plain
    ?_ ?_ ?_ ?_ ?_ ?_ ?_ ?_ ?_ ?_).2 (.inl (by decide))
  all_goals decide +kernel

/-- The image without tags is created from the placeholder. -/
theorem created_untagged :
    getImageList plainParse (fun _ => []) (answer plainText) =
        .returned ⟨(chosen 1).app.images, []⟩ ∧
      (chosen 1).app.images[1]? = some (lit "b", lit "<untagged>") ∧
      created 1 = [.busy (.createContainer (lit "web") (lit "<untagged>") []) none] ∧
      ¬ (lit "<untagged>" = lit "b" ∨
        Reports plainParse (answer plainText) (lit "b") (lit "<untagged>")) := by
  have himages : (chosen 1).app.images = [(lit "a", lit "x"), (lit "b", untagged)] := by
    decide +kernel
  rw [himages]
  refine ⟨getImageList_plain, rfl, by decide +kernel, ?_⟩
  rintro (hid | ⟨response, v, members, tags, hresponse, hparse, hmem, hid, htags, htag⟩)
  · exact absurd hid (by decide)
  · cases hresponse
    rw [plainParse_plainText] at hparse
    cases hparse
    rcases List.mem_pair.1 hmem with htagged | hplain
    · rw [Json.obj.inj htagged, taggedImage.has_id] at hid
      exact absurd (Json.str.inj (Option.some.inj hid)) (by decide)
    · rw [Json.obj.inj hplain, plainImage.has_tags] at htags
      cases htags

end App

end TuxDock
