import TuxDock.Docker.Images
import TuxDock.Lib.Distinct
import TuxDock.Text.Decimal

/-!
# The container list

`parseContainerList` and what it calls: each object of the response becomes a container, if it has
an id and a name, and its published ports become one text without repetitions.

* `portsFor_eq` : the ports of a container, each pair once, in the order of first appearance;
* `parseContainerList_spec` : **every array is a list of containers**, one for each element that has
  an id and a name, independently of the other elements; every other body is an error.

Port numbers are converted to `int`: `mappedPorts_wrap` has two that become the same.
-/

namespace TuxDock

namespace Docker

open Text Http App

/-- What `get<int>()` makes of a number that is no integer, and the text of the exception a body
raises. -/
structure Conversions where
  truncate : ℤ
  what : Bytes → Bytes

/-! ### The source -/

/-- The string under a key; `none` when `get` throws. -/
def optionalString (object : Json) (key : String) : Option Bytes :=
  match object.find (lit key) with
  | some v => if v.isString then v.getStr else some []
  | none => some []

/-- What the loop of `portsFor` carries along. -/
structure PortsLoop where
  result : Bytes
  seen : List Bytes
  first : Bool
  deriving Repr, DecidableEq

/-- The text of a pair of ports. -/
def mapping (publicPort privatePort : ℤ) : Bytes := decimal publicPort ++ 58 :: decimal privatePort

section Source

variable (c : Conversions)

/-- The loop body of `portsFor`; `none` when `get` throws. -/
def PortsLoop.next (s : PortsLoop) (port : Json) : Option PortsLoop :=
  match port.find (lit "PublicPort"), port.find (lit "PrivatePort") with
  | some publicIt, some privateIt =>
    if publicIt.isNumber && privateIt.isNumber then
      match publicIt.getInt c.truncate, privateIt.getInt c.truncate with
      | some publicPort, some privatePort =>
        let text := mapping publicPort privatePort
        if text ∈ s.seen then some s
        else some {
          result := (if s.first then s.result else s.result ++ lit ", ") ++ text
          seen := text :: s.seen
          first := false }
      | _, _ => none
    else some s
  | _, _ => some s

/-- `portsFor`; `none` when it throws. -/
def portsFor (item : Json) : Option Bytes :=
  match item.find (lit "Ports") with
  | some (.arr ports) => (ports.foldlM (PortsLoop.next c) ⟨[], [], true⟩).map PortsLoop.result
  | _ => some []

/-- The first name, if there is a list of names and it starts with a string. -/
def frontName (item : Json) : Option Bytes :=
  match item.find (lit "Names") with
  | some (.arr (front :: _)) => if front.isString then front.getStr else some []
  | _ => some []

/-- Without one leading slash. -/
def eraseSlash (name : Bytes) : Bytes := if name.head? = some 47 then name.tail else name

/-- The container of an element; `none` when something throws. -/
def containerInfo (item : Json) : Option ContainerInfo :=
  match optionalString item "Id", frontName item, optionalString item "Status",
      optionalString item "State", portsFor c item with
  | some id, some name, some status, some state, some ports =>
    some ⟨id, eraseSlash name, status, ports, state = lit "running"⟩
  | _, _, _, _, _ => none

/-- The loop body of `parseContainerList`. -/
def appendContainer (items : List ContainerInfo) : Json → Option (List ContainerInfo)
  | .obj members =>
    (containerInfo c (.obj members)).map fun info =>
      if info.id ≠ [] ∧ info.name ≠ [] then items ++ [info] else items
  | _ => some items

/-- The loop of `parseContainerList`; after an exception, what has been appended stays. -/
def containersLoop (body : Bytes) (items : List ContainerInfo) :
    List Json → ListResult ContainerInfo
  | [] => ⟨items, []⟩
  | item :: rest =>
    match appendContainer c items item with
    | some items => containersLoop body items rest
    | none => ⟨items, lit "Could not parse container data: " ++ c.what body⟩

/-- `parseContainerList`. -/
def parseContainerList (parse : Bytes → Option Json) (body : Bytes) : ListResult ContainerInfo :=
  match parse body with
  | none => ⟨[], lit "Could not parse container data: " ++ c.what body⟩
  | some (.arr items) => containersLoop c body [] items
  | some _ => ⟨[], lit "Container response is not an array."⟩

/-- `getContainerList`. -/
def getContainerList (parse : Bytes → Option Json) :
    (Request → Exchange) → ListCall ContainerInfo :=
  listCall ⟨lit "GET", lit "/containers/json?all=true", [], 10⟩ "Could not list containers."
    (parseContainerList c parse)

end Source

/-! ### What an element says -/

/-- A number of the response as an `int`. -/
def int32 (n : ℤ) : ℤ := n.bmod (2 ^ 32)

/-- The pair of a port entry, if it has both numbers. -/
def portPair (port : Json) : Option (ℤ × ℤ) :=
  match port.find (lit "PublicPort"), port.find (lit "PrivatePort") with
  | some (.number publicPort), some (.number privatePort) =>
    some (int32 publicPort, int32 privatePort)
  | _, _ => none

/-- The pairs of an element, in order. -/
def portPairs (item : Json) : List (ℤ × ℤ) :=
  match item.find (lit "Ports") with
  | some (.arr ports) => ports.filterMap portPair
  | _ => []

/-- No port of the entry is a number that is no integer. -/
def IntegerPort (port : Json) : Prop :=
  port.find (lit "PublicPort") ≠ some .float ∧ port.find (lit "PrivatePort") ≠ some .float

/-- No port of the element is a number that is no integer. -/
def IntegerPorts (item : Json) : Prop :=
  ∀ ports, item.find (lit "Ports") = some (.arr ports) → ∀ port ∈ ports, IntegerPort port

/-- The element is an object with this id and, behind at most one slash, this first name. -/
structure Named (item : Json) (id name : Bytes) : Prop where
  has_id : item.find (lit "Id") = some (.str id)
  has_name : ∃ front names, item.find (lit "Names") = some (.arr (.str front :: names)) ∧
    (front = 47 :: name ∨ front = name ∧ name.head? ≠ some 47)
  id_ne : id ≠ []
  name_ne : name ≠ []

/-- The distinct pairs, joined by commas. -/
def PortsText (pairs : List (ℤ × ℤ)) (text : Bytes) : Prop :=
  ∃ distinct, Distinct pairs distinct ∧
    text = (lit ", ").intercalate (distinct.map fun p => mapping p.1 p.2)

/-- The container is what the element says. -/
structure Describes (item : Json) (info : ContainerInfo) : Prop where
  named : Named item info.id info.name
  status : item.find (lit "Status") = some (.str info.status) ∨
    info.status = [] ∧ ∀ s, item.find (lit "Status") ≠ some (.str s)
  running : info.running = true ↔ item.find (lit "State") = some (.str (lit "running"))
  ports : PortsText (portPairs item) info.ports

/-- The containers of the elements that are named, in order. -/
inductive Lists : List Json → List ContainerInfo → Prop where
  | nil : Lists [] []
  | skip {item : Json} {items : List Json} {infos : List ContainerInfo}
      (hitem : ∀ id name, ¬ Named item id name) (rest : Lists items infos) :
      Lists (item :: items) infos
  | take {item : Json} {items : List Json} {info : ContainerInfo} {infos : List ContainerInfo}
      (hitem : Describes item info) (rest : Lists items infos) :
      Lists (item :: items) (info :: infos)

/-! ### Strings -/

theorem optionalString_eq (item : Json) (key : String) :
    ∃ s, optionalString item key = some s ∧ (item.find (lit key) = some (.str s) ∨
      s = [] ∧ ∀ t, item.find (lit key) ≠ some (.str t)) := by
  rw [optionalString]
  rcases item.find (lit key) with _ | ⟨_ | _ | _ | _ | s | _ | _⟩
  case some.str => exact ⟨s, rfl, Or.inl rfl⟩
  all_goals exact ⟨[], rfl, Or.inr ⟨rfl, by simp⟩⟩

theorem frontName_eq (item : Json) :
    ∃ s, frontName item = some s ∧
      ((∃ names, item.find (lit "Names") = some (.arr (.str s :: names))) ∨
        s = [] ∧ ∀ t names, item.find (lit "Names") ≠ some (.arr (.str t :: names))) := by
  rw [frontName]
  rcases item.find (lit "Names") with
    _ | ⟨_ | _ | _ | _ | _ | ⟨_ | ⟨_ | _ | _ | _ | s | _ | _, names⟩⟩ | _⟩
  case some.arr.cons.str => exact ⟨s, rfl, Or.inl ⟨names, rfl⟩⟩
  all_goals exact ⟨[], rfl, Or.inr ⟨rfl, by simp⟩⟩

theorem eraseSlash_eq_iff {front name : Bytes} :
    eraseSlash front = name ↔ front = 47 :: name ∨ front = name ∧ name.head? ≠ some 47 := by
  rw [eraseSlash]
  rcases front with _ | ⟨a, front⟩
  · simp only [List.head?_nil, reduceCtorEq, ↓reduceIte, false_or]
    constructor
    · rintro rfl
      exact ⟨rfl, by simp⟩
    · exact And.left
  · by_cases ha : a = 47
    · subst ha
      simp only [List.head?_cons, ↓reduceIte, List.tail_cons, List.cons.injEq, true_and]
      constructor
      · exact Or.inl
      · rintro (h | ⟨rfl, h⟩)
        · exact h
        · exact absurd rfl h
    · simp only [List.head?_cons, Option.some.injEq, ha, ↓reduceIte, List.cons.injEq, false_and,
        false_or]
      constructor
      · rintro rfl
        exact ⟨rfl, by simpa using ha⟩
      · exact And.left

/-! ### Ports -/

/-- Different pairs have different texts. -/
theorem mapping_injective {a b a' b' : ℤ} (h : mapping a b = mapping a' b') : a = a' ∧ b = b' := by
  obtain ⟨ha, hb⟩ := append_sep_injective (colon_notMem_decimal a) (colon_notMem_decimal a') h
  exact ⟨decimal_injective ha, decimal_injective hb⟩

theorem intercalate_append_singleton (sep x : Bytes) (l : List Bytes) :
    sep.intercalate (l ++ [x]) = (if l = [] then [] else sep.intercalate l ++ sep) ++ x := by
  induction l with
  | nil => simp
  | cons a l ih =>
    rw [if_neg (List.cons_ne_nil a l)]
    rcases l with _ | ⟨b, l⟩
    · simp [List.intercalate_cons_cons]
    · rw [if_neg (List.cons_ne_nil b l)] at ih
      simp only [List.cons_append, List.intercalate_cons_cons, List.append_assoc] at ih ⊢
      rw [ih]

/-- **The invariant of the loop**: it has met the pairs `pairs`. -/
structure PortsInv (s : PortsLoop) (pairs ds : List (ℤ × ℤ)) : Prop where
  distinct : Distinct pairs ds
  seen : ∀ a b, mapping a b ∈ s.seen ↔ (a, b) ∈ ds
  first : s.first = true ↔ ds = []
  result : s.result = (lit ", ").intercalate (ds.map fun p => mapping p.1 p.2)

theorem PortsInv.init : PortsInv ⟨[], [], true⟩ [] [] :=
  ⟨.nil, by simp, by simp, rfl⟩

theorem PortsInv.pair {s : PortsLoop} {pairs ds : List (ℤ × ℤ)} (h : PortsInv s pairs ds)
    (a b : ℤ) :
    ∃ ds', PortsInv (if mapping a b ∈ s.seen then s else {
      result := (if s.first then s.result else s.result ++ lit ", ") ++ mapping a b
      seen := mapping a b :: s.seen
      first := false }) (pairs ++ [(a, b)]) ds' := by
  by_cases hseen : mapping a b ∈ s.seen
  · rw [if_pos hseen]
    have hmem := (h.distinct.mem_iff _).1 ((h.seen a b).1 hseen)
    exact ⟨ds, h.distinct.seen hmem, h.seen, h.first, h.result⟩
  · rw [if_neg hseen]
    have hmem : (a, b) ∉ pairs := by
      rw [← h.distinct.mem_iff, ← h.seen]
      exact hseen
    refine ⟨ds ++ [(a, b)], h.distinct.fresh hmem, ?_, by simp, ?_⟩
    · intro a' b'
      rw [List.mem_cons, List.mem_append, List.mem_singleton, h.seen]
      constructor
      · rintro (heq | hold)
        · obtain ⟨rfl, rfl⟩ := mapping_injective heq
          exact Or.inr rfl
        · exact Or.inl hold
      · rintro (hold | heq)
        · exact Or.inr hold
        · cases heq
          exact Or.inl rfl
    · rw [List.map_append, List.map_singleton, intercalate_append_singleton, ← h.result]
      dsimp only
      by_cases hnil : ds = []
      · have hempty : s.result = [] := by rw [h.result, hnil]; rfl
        rw [if_pos (h.first.2 hnil), hnil, List.map_nil, if_pos rfl, hempty]
      · have hfirst : ¬ s.first = true := fun hf => hnil (h.first.1 hf)
        rw [if_neg hfirst, if_neg (by simpa using hnil)]

section Ports

variable (c : Conversions)

/-- **One port entry.** -/
theorem PortsInv.next {s : PortsLoop} {pairs ds : List (ℤ × ℤ)} (h : PortsInv s pairs ds)
    {port : Json} (hport : IntegerPort port) :
    ∃ s' ds', s.next c port = some s' ∧
      PortsInv s' (pairs ++ (portPair port).toList) ds' := by
  obtain ⟨hpublic, hprivate⟩ := hport
  have hskip : PortsInv s (pairs ++ []) ds := by rwa [List.append_nil]
  rw [PortsLoop.next, portPair]
  rcases hpub : port.find (lit "PublicPort") with _ | ⟨_ | _ | m | _ | _ | _ | _⟩ <;>
    rcases hpriv : port.find (lit "PrivatePort") with _ | ⟨_ | _ | n | _ | _ | _ | _⟩
  case some.number.some.number =>
    obtain ⟨ds', hinv⟩ := h.pair (int32 m) (int32 n)
    refine ⟨_, ds', ?_, hinv⟩
    simp only [Json.isNumber, Json.getInt, Bool.and_self, ↓reduceIte, int32]
    exact (apply_ite some _ _ _).symm
  all_goals first
    | exact absurd hpub hpublic
    | exact absurd hpriv hprivate
    | exact ⟨s, ds, rfl, hskip⟩

/-- The whole loop: by induction on the entries, `pairs` have been met. -/
theorem PortsInv.foldlM {ports : List Json} (hports : ∀ port ∈ ports, IntegerPort port)
    {s : PortsLoop} {pairs ds : List (ℤ × ℤ)} (h : PortsInv s pairs ds) :
    ∃ s' ds', ports.foldlM (PortsLoop.next c) s = some s' ∧
      PortsInv s' (pairs ++ ports.filterMap portPair) ds' := by
  induction ports generalizing s pairs ds with
  | nil => exact ⟨s, ds, rfl, by simpa using h⟩
  | cons port ports ih =>
    obtain ⟨hport, hports⟩ := List.forall_mem_cons.1 hports
    obtain ⟨s₁, ds₁, hnext, hinv⟩ := h.next c hport
    obtain ⟨s₂, ds₂, hrest, hinv₂⟩ := ih hports hinv
    refine ⟨s₂, ds₂, ?_, ?_⟩
    · rw [List.foldlM_cons, hnext]
      exact hrest
    · rw [List.append_assoc] at hinv₂
      cases hpair : portPair port with
      | none => simpa [hpair] using hinv₂
      | some p => simpa [hpair] using hinv₂

/-- **The ports of a container.** -/
theorem portsFor_eq {item : Json} (h : IntegerPorts item) :
    ∃ text, portsFor c item = some text ∧ PortsText (portPairs item) text := by
  have hnone : PortsText [] [] := ⟨[], .nil, rfl⟩
  rw [portsFor, portPairs]
  rcases hports : item.find (lit "Ports") with _ | ⟨_ | _ | _ | _ | _ | ports | _⟩
  case some.arr =>
    obtain ⟨s, ds, hloop, hinv⟩ := PortsInv.init.foldlM c (h ports hports)
    refine ⟨s.result, ?_, ds, by simpa using hinv.distinct, hinv.result⟩
    dsimp only
    rw [hloop]
    rfl
  all_goals exact ⟨[], rfl, hnone⟩

end Ports

/-! ### Elements -/

section Elements

variable (c : Conversions) {item : Json}

/-- What is read from an element, whether it is named or not. -/
theorem containerInfo_eq (h : IntegerPorts item) :
    ∃ info, containerInfo c item = some info ∧
      (info.id ≠ [] → info.name ≠ [] → Describes item info) ∧
      (info.id = [] ∨ info.name = [] → ∀ id name, ¬ Named item id name) := by
  obtain ⟨id, hid, hid'⟩ := optionalString_eq item "Id"
  obtain ⟨front, hfront, hfront'⟩ := frontName_eq item
  obtain ⟨status, hstatus, hstatus'⟩ := optionalString_eq item "Status"
  obtain ⟨state, hstate, hstate'⟩ := optionalString_eq item "State"
  obtain ⟨ports, hports, hports'⟩ := portsFor_eq c h
  refine ⟨⟨id, eraseSlash front, status, ports, state = lit "running"⟩, ?_, ?_, ?_⟩
  · rw [containerInfo, hid, hfront, hstatus, hstate, hports]
  · intro hne hname
    refine ⟨⟨?_, ?_, hne, hname⟩, hstatus', ?_, hports'⟩
    · exact hid'.resolve_right fun hnone => hne hnone.1
    · rcases hfront' with ⟨names, hnames⟩ | ⟨rfl, -⟩
      · exact ⟨front, names, hnames, eraseSlash_eq_iff.1 rfl⟩
      · exact absurd rfl hname
    · rw [decide_eq_true_eq]
      rcases hstate' with hfound | ⟨rfl, hnone⟩
      · rw [hfound, Option.some.injEq, Json.str.injEq]
      · exact iff_of_false (by decide) (hnone _)
  · rintro hempty id' name ⟨hfound, ⟨front', names, hnames, hname⟩, hne, hname'⟩
    rcases hempty with rfl | hempty
    · rcases hid' with hid' | ⟨-, hnone⟩
      · rw [hfound, Option.some.injEq, Json.str.injEq] at hid'
        exact hne hid'
      · exact hnone _ hfound
    · rcases hfront' with ⟨names', hnames'⟩ | ⟨-, hnone⟩
      · rw [hnames, Option.some.injEq, Json.arr.injEq, List.cons.injEq, Json.str.injEq] at hnames'
        rw [← hnames'.1, eraseSlash_eq_iff.2 hname] at hempty
        exact hname' hempty
      · exact hnone _ _ hnames

/-- **One element**: it adds its container, or nothing, whatever has been read before. -/
theorem appendContainer_cases (h : IntegerPorts item) :
    (∃ info, Describes item info ∧
      ∀ items, appendContainer c items item = some (items ++ [info])) ∨
    ((∀ id name, ¬ Named item id name) ∧ ∀ items, appendContainer c items item = some items) := by
  cases item with
  | obj members =>
    obtain ⟨info, hinfo, hnamed, hunnamed⟩ := containerInfo_eq c h
    by_cases hkeep : info.id ≠ [] ∧ info.name ≠ []
    · refine Or.inl ⟨info, hnamed hkeep.1 hkeep.2, ?_⟩
      intro items
      rw [appendContainer, hinfo, Option.map_some, if_pos hkeep]
    · have hempty : info.id = [] ∨ info.name = [] := by
        by_contra hnone
        exact hkeep (not_or.1 hnone)
      refine Or.inr ⟨hunnamed hempty, ?_⟩
      intro items
      rw [appendContainer, hinfo, Option.map_some, if_neg hkeep]
  | _ =>
    refine Or.inr ⟨?_, fun _ => rfl⟩
    intro id name hnamed
    cases hnamed.has_id

/-! ### The list -/

variable {items items' : List Json}

/-- **The whole loop**: by induction on the elements. -/
theorem containersLoop_eq (h : ∀ item ∈ items, IntegerPorts item) :
    ∃ infos, Lists items infos ∧
      ∀ body before, containersLoop c body before items = ⟨before ++ infos, []⟩ := by
  induction items with
  | nil =>
    refine ⟨[], .nil, ?_⟩
    intro body before
    rw [containersLoop, List.append_nil]
  | cons item items ih =>
    obtain ⟨hitem, hitems⟩ := List.forall_mem_cons.1 h
    obtain ⟨infos, hlists, hloop⟩ := ih hitems
    rcases appendContainer_cases c hitem with ⟨info, hdescribes, happend⟩ | ⟨hunnamed, happend⟩
    · refine ⟨info :: infos, .take hdescribes hlists, ?_⟩
      intro body before
      simp only [containersLoop, happend, hloop, List.append_assoc, List.singleton_append]
    · refine ⟨infos, .skip hunnamed hlists, ?_⟩
      intro body before
      simp only [containersLoop, happend, hloop]

theorem containersLoop_append (h : ∀ item ∈ items, IntegerPorts item) (body : Bytes)
    (before : List ContainerInfo) :
    containersLoop c body before (items ++ items') =
      containersLoop c body (containersLoop c body before items).items items' := by
  induction items generalizing before with
  | nil => rfl
  | cons item items ih =>
    obtain ⟨hitem, hitems⟩ := List.forall_mem_cons.1 h
    rcases appendContainer_cases c hitem with ⟨info, -, happend⟩ | ⟨-, happend⟩ <;>
      simp only [List.cons_append, containersLoop, happend, ih hitems]

end Elements

/-- **The container list.**  An array is the list of the containers of its elements, and the list of
a concatenation is the concatenation of the lists; any other body is an error and no containers.
Port numbers are read as 32-bit integers. -/
theorem parseContainerList_spec (c : Conversions) (parse : Bytes → Option Json) :
    (∀ body items, parse body = some (.arr items) → (∀ item ∈ items, IntegerPorts item) →
      ∃ infos, parseContainerList c parse body = ⟨infos, []⟩ ∧ Lists items infos) ∧
    (∀ body body₁ body₂ items₁ items₂, parse body₁ = some (.arr items₁) →
      parse body₂ = some (.arr items₂) → parse body = some (.arr (items₁ ++ items₂)) →
      (∀ item ∈ items₁ ++ items₂, IntegerPorts item) →
      (parseContainerList c parse body).items =
        (parseContainerList c parse body₁).items ++ (parseContainerList c parse body₂).items) ∧
    (∀ body, (∀ items, parse body ≠ some (.arr items)) →
      (parseContainerList c parse body).items = [] ∧
        (parseContainerList c parse body).error ≠ []) ∧
    ∀ n, -2 ^ 31 ≤ n → n < 2 ^ 31 → int32 n = n := by
  refine ⟨?_, ?_, ?_, ?_⟩
  · intro body items hparse hports
    obtain ⟨infos, hlists, hloop⟩ := containersLoop_eq c hports
    refine ⟨infos, ?_, hlists⟩
    rw [parseContainerList, hparse]
    exact hloop body []
  · intro body body₁ body₂ items₁ items₂ hparse₁ hparse₂ hparse hports
    obtain ⟨hports₁, hports₂⟩ := List.forall_mem_append.1 hports
    obtain ⟨infos₁, -, hloop₁⟩ := containersLoop_eq c hports₁
    obtain ⟨infos₂, -, hloop₂⟩ := containersLoop_eq c hports₂
    simp only [parseContainerList, hparse, hparse₁, hparse₂, containersLoop_append c hports₁,
      hloop₁, hloop₂, List.nil_append]
  · intro body hnot
    have htext : lit "Could not parse container data: " ++ c.what body ≠ [] := by
      intro h
      exact absurd (List.append_eq_nil_iff.1 h).1 (by decide)
    have hshape : lit "Container response is not an array." ≠ [] := by decide
    rcases hparse : parse body with _ | ⟨_ | _ | _ | _ | _ | items | _⟩
    case none =>
      rw [parseContainerList, hparse]
      exact ⟨rfl, htext⟩
    case some.arr => exact absurd hparse (hnot items)
    all_goals
      rw [parseContainerList, hparse]
      exact ⟨rfl, hshape⟩
  · intro n hge hlt
    exact Int.bmod_eq_of_le (by omega) (by omega)

/-! ### A response with a repeated port -/

/-- An entry of `Ports`. -/
def portEntry (publicPort privatePort : ℤ) : Json :=
  .obj [(lit "PrivatePort", .number privatePort), (lit "PublicPort", .number publicPort)]

/-- The container `a`, called `web`, with these ports. -/
def webItem (ports : List Json) : Json :=
  .obj [(lit "Id", .str (lit "a")), (lit "Names", .arr [.str (lit "/web")]),
    (lit "Ports", .arr ports)]

/-- The text of a response of one such container with two ports. -/
def webText (first second : String) : Bytes :=
  lit "[\x7b\"Id\":\"a\",\"Names\":[\"/web\"],\"Ports\":[" ++
    lit "\x7b\"PrivatePort\":80,\"PublicPort\":" ++ lit first ++
    lit "\x7d,\x7b\"PrivatePort\":80,\"PublicPort\":" ++ lit second ++ lit "\x7d]\x7d]"

/-- No number is converted, and no error has a text. -/
def noConversions : Conversions := ⟨0, fun _ => []⟩

theorem webItem_integerPorts (p q p' q' : ℤ) :
    IntegerPorts (webItem [portEntry p q, portEntry p' q']) := by
  intro ports hports port hport
  cases hports
  rw [List.mem_pair] at hport
  rcases hport with rfl | rfl <;> constructor <;> intro h <;> cases h

theorem parseContainerList_spec_web :
    ∃ infos, parseContainerList noConversions
        (parseOnly (webText "8080" "8080") (.arr [webItem [portEntry 8080 80, portEntry 8080 80]]))
        (webText "8080" "8080") = ⟨infos, []⟩ ∧
      Lists [webItem [portEntry 8080 80, portEntry 8080 80]] infos := by
  refine (parseContainerList_spec noConversions _).1 _ _ (if_pos rfl) ?_
  intro item hitem
  rw [List.mem_singleton] at hitem
  rw [hitem]
  exact webItem_integerPorts 8080 80 8080 80

/-- **Two port numbers that become one**: the first is no `int`, and goes modulo `2^32`. -/
theorem mappedPorts_wrap :
    parseContainerList noConversions
        (parseOnly (webText "4294967376" "80")
          (.arr [webItem [portEntry 4294967376 80, portEntry 80 80]]))
        (webText "4294967376" "80") =
      ⟨[⟨lit "a", lit "web", [], lit "80:80", false⟩], []⟩ := by
  rw [parseContainerList, parseOnly, if_pos rfl]
  decide +kernel

end Docker

end TuxDock
