import TuxDock.App.Announce
import TuxDock.App.Refresh
import TuxDock.Docker.Containers
import TuxDock.Http.Reply

/-!
# What the engine has reported

The rows on the screen and the ids of the operations go back to bytes that were read from the socket
of the engine.  Nothing is assumed of these bytes: a response may be cut off, malformed or lost, and
a list may be overtaken by another on its way to the cache.

* `Reported` : one of the connections was answered by a response whose body lists the container;
* `rows_reported` : **in every run the cached containers, and the containers that were chosen, have
  been reported by the engine**;
* `list_delivered` : **a list that the engine sends is the list that is fetched**, in whatever
  pieces it arrives and however often it was interrupted before.
-/

namespace TuxDock

namespace App

open Text History Http Docker Transition

/-! ### The engine behind its client -/

/-- The engine client of the manager, with what its connections answer. -/
def client (strerror : Errno → Bytes) (socketPath : Bytes) (connections : List Connection)
    (r : Request) : Exchange :=
  request strerror socketPath r.method r.path r.body connections

/-- The element of an array has been read as this container. -/
def ReadAs (item : Json) (info : ContainerInfo) : Prop :=
  Named item info.id info.name ∧ (IntegerPorts item → Describes item info)

/-- On one of the connections a response was read that succeeds, and whose body is an array with an
element for the container. -/
def Reported (parse : Bytes → Option Json) (served : List Connection) (info : ContainerInfo) :
    Prop :=
  ∃ c ∈ served, ∃ r items, parsed (readLoop (lit "GET") [] c.reads).1 = .response r ∧
    r.ok = true ∧ parse r.body = some (.arr items) ∧ ∃ item ∈ items, ReadAs item info

/-- The list is what `getContainerList` has made of some of the connections. -/
def FetchedFrom (conversions : Conversions) (parse : Bytes → Option Json)
    (strerror : Errno → Bytes) (socketPath : Bytes) (served : List Connection)
    (result : ListResult ContainerInfo) : Prop :=
  ∃ connections, (∀ c ∈ connections, c ∈ served) ∧
    getContainerList conversions parse (client strerror socketPath connections) = .returned result

section Exchanges

variable {strerror : Errno → Bytes} {socketPath method path body : Bytes}
  {connections : List Connection} {r : EngineResponse}

/-- **A successful response was read on one of the connections**: all others of a call have failed
or were interrupted. -/
theorem exists_read (hok : r.ok = true)
    (h : request strerror socketPath method path body connections = .response r) :
    ∃ c ∈ connections, parsed (readLoop method [] c.reads).1 = .response r := by
  have herror (e : Bytes) (he : Exchange.response { error := e } = .response r) : False := by
    obtain rfl := Exchange.response.inj he
    cases hok
  induction connections with
  | nil => cases h
  | cons c later ih =>
    rw [request] at h
    split at h
    · exact (herror _ h).elim
    · split_ifs at h
      · exact (herror _ h).elim
      · split at h
        · exact (herror _ h).elim
        · cases h
        · exact (herror _ h).elim
        · split at h
          · cases h
          · obtain ⟨c', hc', hread⟩ := ih h
            exact ⟨c', List.mem_cons_of_mem _ hc', hread⟩
          · exact (herror _ h).elim
          · rename_i raw hread
            split_ifs at h
            · exact ⟨c, List.mem_cons_self, by rw [hread]; exact h⟩
            · exact (herror _ h).elim
          · rename_i raw hread
            exact ⟨c, List.mem_cons_self, by rw [hread]; exact h⟩
          · rename_i raw hread
            exact ⟨c, List.mem_cons_self, by rw [hread]; exact h⟩

end Exchanges

/-! ### The elements of an array -/

section Elements

variable {c : Conversions} {item : Json} {info : ContainerInfo}

/-- An element that is read has its id and its first name, whatever its ports. -/
theorem named_of_containerInfo (h : containerInfo c item = some info) (hid : info.id ≠ [])
    (hname : info.name ≠ []) : Named item info.id info.name := by
  obtain ⟨id, hid₁, hid₂⟩ := optionalString_eq item "Id"
  obtain ⟨front, hfront₁, hfront₂⟩ := frontName_eq item
  unfold containerInfo at h
  rw [hid₁, hfront₁] at h
  split at h
  · rename_i id' front' status state ports hid' hfront' hstatus hstate hports
    cases h
    obtain rfl := Option.some.inj hid'
    obtain rfl := Option.some.inj hfront'
    refine ⟨?_, ?_, hid, hname⟩
    · exact hid₂.resolve_right fun hnone => hid hnone.1
    · rcases hfront₂ with ⟨names, hnames⟩ | ⟨rfl, -⟩
      · exact ⟨front, names, hnames, eraseSlash_eq_iff.1 rfl⟩
      · exact absurd rfl hname
  · cases h

theorem readAs_of_containerInfo (h : containerInfo c item = some info) (hid : info.id ≠ [])
    (hname : info.name ≠ []) : ReadAs item info := by
  refine ⟨named_of_containerInfo h hid hname, ?_⟩
  intro hports
  obtain ⟨info', hinfo', hdescribes, -⟩ := containerInfo_eq c hports
  obtain rfl := Option.some.inj (h.symm.trans hinfo')
  exact hdescribes hid hname

/-- **The loop invents no container**, also when it ends with an exception. -/
theorem mem_containersLoop {body : Bytes} {before : List ContainerInfo} {items : List Json}
    (h : info ∈ (containersLoop c body before items).items) :
    info ∈ before ∨ ∃ item ∈ items, ReadAs item info := by
  induction items generalizing before with
  | nil => exact .inl h
  | cons item items ih =>
    rw [containersLoop] at h
    split at h
    · rename_i before' happend
      rcases ih h with hbefore | ⟨item', hitem', hread⟩
      · cases item with
        | obj members =>
          obtain ⟨info', hinfo', hstep⟩ := Option.map_eq_some_iff.1 happend
          subst hstep
          split_ifs at hbefore with hkept
          · rcases List.mem_append.1 hbefore with hold | hnew
            · exact .inl hold
            · obtain rfl := List.mem_singleton.1 hnew
              exact .inr ⟨_, List.mem_cons_self,
                readAs_of_containerInfo hinfo' hkept.1 hkept.2⟩
          · exact .inl hbefore
        | _ =>
          obtain rfl := Option.some.inj happend
          exact .inl hbefore
      · exact .inr ⟨item', List.mem_cons_of_mem _ hitem', hread⟩
    · exact .inl h

end Elements

/-! ### A fetch -/

section Fetches

variable {conversions : Conversions} {parse : Bytes → Option Json} {strerror : Errno → Bytes}
  {socketPath : Bytes} {served : List Connection} {result : ListResult ContainerInfo}

/-- **The containers of a list that was fetched have been reported.** -/
theorem FetchedFrom.reported
    (h : FetchedFrom conversions parse strerror socketPath served result) :
    ∀ info ∈ result.items, Reported parse served info := by
  obtain ⟨connections, hserved, hcall⟩ := h
  intro info hinfo
  rw [getContainerList, listCall] at hcall
  split at hcall
  · rename_i r hr
    cases hcall
    split_ifs at hinfo with hok
    · obtain ⟨c, hc, hread⟩ := exists_read hok hr
      refine ⟨c, hserved c hc, r, ?_⟩
      unfold parseContainerList at hinfo
      split at hinfo
      · cases hinfo
      · rename_i items hparse
        refine ⟨items, hread, hok, hparse, ?_⟩
        exact (mem_containersLoop hinfo).resolve_left List.not_mem_nil
      · cases hinfo
    · cases hinfo
  · cases hcall
  · cases hcall

end Fetches

/-! ### Runs -/

/-- **No row is invented.**  In every run in which the lists of containers are what
`getContainerList` makes of the answers of the socket, whatever these are: each container that is
cached has been reported on one of the connections, and so has each one that was chosen in a
selection, with the id and the name that the operation gets. -/
theorem rows_reported (conversions : Conversions) (parse : Bytes → Option Json)
    (strerror : Errno → Bytes) (socketPath : Bytes) (served : List Connection) (L : Json.Library)
    (env : Env) (historyFile : Option Bytes) (containers : ListResult ContainerInfo)
    (images : ListResult ImageInfo)
    (hstart : FetchedFrom conversions parse strerror socketPath served containers)
    (labels : List Label)
    (hfetched : ∀ w result, Label.fetchContainers w result ∈ labels →
      FetchedFrom conversions parse strerror socketPath served result) (s : System)
    (hs : exec (step L env) (boot historyFile containers images) labels = some s) :
    (∀ info ∈ s.app.containers, Reported parse served info) ∧
      ∀ callback entry, (SelectCallback.container callback, entry) ∈ s.app.calls →
        ∃ info, Reported parse served info ∧ entry = (info.id, info.name) := by
  have hboot := CacheHolds.boot historyFile images hstart.reported
  refine ⟨(hboot.exec (fun w result h => (hfetched w result h).reported) hs).containers, ?_⟩
  intro callback entry hentry
  obtain ⟨before, o, later, t, rfl, ht, -, -, hchosen⟩ := chosen_of_mem_calls hs _ hentry
  have hcached := (hboot.exec
    (fun w result h => (hfetched w result (List.mem_append_left _ h)).reported) ht).containers
  obtain ⟨info, hinfo, hentry⟩ := List.mem_map.1 (List.mem_of_getElem? hchosen)
  exact ⟨info, hcached info hinfo, hentry.symm⟩

/-! ### A list that arrives -/

section Delivered

variable {strerror : Errno → Bytes} {socketPath : Bytes}

theorem client_interrupted (hpath : socketPath.length < 108) {r : Request}
    {lost : List Connection}
    (hlost : ∀ c ∈ lost, Loses c r.method r.path r.body .EINTR)
    (later : List Connection) :
    client strerror socketPath (lost ++ later) r = client strerror socketPath later r := by
  induction lost with
  | nil => rfl
  | cons c lost ih =>
    obtain ⟨hc, hlost⟩ := List.forall_mem_cons.1 hlost
    exact (hc.request_interrupted strerror hpath _).trans (ih hlost)

end Delivered

/-! ### One container -/

/-- The head of a reply. -/
def webHead : RawHead := okRaw [lit "Content-Length: 113"] (by decide +kernel)

/-- Its body, the same port twice. -/
def webBody : Bytes := webText "8080" "8080"

theorem webHead_reads : readStatusCode webHead.status ≠ 0 ∧
    bodyless (readStatusCode webHead.status) = false ∧ ¬ announcesChunked webHead.block = true ∧
    announcedLength webHead.block = some webBody.length ∧
    webHead.framing = some ⟨webBody.length, false⟩ ∧ (webHead.render ++ webBody).length < npos ∧
    lit "GET" ≠ lit "HEAD" ∧ webHead.lines ≠ [] := by
  decide +kernel

/-- The response with one container. -/
def webRaw : Bytes := webHead.render ++ webBody

/-- What the client returns for it. -/
def webResponse : EngineResponse := ⟨200, webBody, []⟩

/-- What the JSON library makes of the body. -/
def webItems : List Json := [webItem [portEntry 8080 80, portEntry 8080 80]]

/-- The parser of this body. -/
def webParse : Bytes → Option Json := parseOnly webBody (.arr webItems)

/-- The length of the request for the list. -/
def listRequestLength : ℕ :=
  (wireRequest (lit "GET") (lit "/containers/json?all=true") []).length

/-- A connection on which the request is sent by one write. -/
def sentConnection (reads : List (Except Errno Bytes)) : Connection :=
  ⟨.ok (), .ok (), [.ok listRequestLength], reads⟩

/-- The first attempt is interrupted. -/
def webLost : Connection := sentConnection (deliver [webRaw.take 30] ++ [.error .EINTR])

/-- At the second the response comes in two pieces. -/
def webServed : Connection :=
  sentConnection (deliver [webRaw.take 50, webRaw.drop 50])

/-- The first connection is lost, the second answers. -/
def webConnections : List Connection := [webLost, webServed]

theorem sentConnection_sent (reads : List (Except Errno Bytes)) :
    (sentConnection reads).Sent (lit "GET") (lit "/containers/json?all=true") [] := by
  have hwrites : sendLoop listRequestLength [.ok listRequestLength] = some (.ok ()) := by
    decide +kernel
  exact ⟨rfl, rfl, hwrites⟩

theorem webItems_integerPorts : ∀ item ∈ webItems, IntegerPorts item := by
  intro item hitem
  rw [List.mem_singleton.1 hitem]
  exact webItem_integerPorts 8080 80 8080 80

theorem webRaw_pieces : webRaw.take 30 ≠ [] ∧ webRaw.take 50 ≠ [] ∧ webRaw.drop 50 ≠ [] := by
  decide +kernel

theorem webParse_body : webParse webResponse.body = some (.arr webItems) := by
  have hbody : webResponse.body = webBody := rfl
  rw [hbody, webParse, parseOnly, if_pos rfl]

theorem webLost_loses : Loses webLost (lit "GET") (lit "/containers/json?all=true") [] .EINTR := by
  have hcut : (webRaw.take 30).length < webHead.render.length := by decide +kernel
  have hprefix : webRaw.take 30 <+: webHead.render := by decide +kernel
  have hreads : webLost.reads = deliver [webRaw.take 30] ++ .error .EINTR :: [] := rfl
  refine .of_incomplete (sentConnection_sent _) ?_ ?_ hreads
  · intro b hb
    rw [List.mem_singleton.1 hb]
    exact webRaw_pieces.1
  · intro n
    have hp : received [webRaw.take 30] n <+: webRaw.take 30 := by
      have h := received_prefix [webRaw.take 30] n
      rwa [List.flatten_singleton] at h
    exact webHead.complete_cut _ (hp.trans hprefix) (hp.length_le.trans_lt hcut)

theorem webServed_delivers :
    Delivers webServed (lit "GET") (lit "/containers/json?all=true") [] webResponse := by
  have hreads := webHead_reads
  have hcode : readStatusCode webHead.status = 200 := by decide +kernel
  have hne : ∀ b ∈ [webRaw.take 50, webRaw.drop 50], b ≠ [] := by
    intro b hb
    rcases List.mem_pair.1 hb with rfl | rfl
    · exact webRaw_pieces.2.1
    · exact webRaw_pieces.2.2
  have hraw : [webRaw.take 50, webRaw.drop 50].flatten = webHead.render ++ webBody := by
    rw [List.flatten_cons, List.flatten_singleton, List.take_append_drop]
    rfl
  have hserved : webServed.reads = deliver [webRaw.take 50, webRaw.drop 50] ++ [] := by
    rw [List.append_nil]
    rfl
  have hdelivers := webHead.delivers_length webBody hreads.2.2.2.2.2.2.1 hreads.1 hreads.2.1
    hreads.2.2.2.2.2.2.2 hreads.2.2.1 hreads.2.2.2.1 hreads.2.2.2.2.1 hreads.2.2.2.2.2.1
    (sentConnection_sent _) hne hraw hserved
  rwa [hcode] at hdelivers

/-- The list that is shown then. -/
def webList : ListResult ContainerInfo := ⟨[⟨lit "a", lit "web", [], lit "8080:80", false⟩], []⟩

/-- The container is chosen and started, and the poller fetches the list again. -/
def webStarted : List Label :=
  [.event .other { still with index := 4 }, .event .ret still, .event .ret still, .wake,
    .fetchContainers .poller webList, .fetchImages .poller ⟨[], []⟩, .post .poller, .deliver]

theorem rows_reported_web : ∃ info, Reported webParse webConnections info ∧
    (lit "a", lit "web") = (info.id, info.name) := by
  have hfetched : FetchedFrom noConversions webParse (fun _ => []) (lit "/var/run/docker.sock")
      webConnections webList := ⟨webConnections, fun _ => id, by decide +kernel⟩
  have hcalls : (SelectCallback.container .startDetached, lit "a", lit "web") ∈
      (after (boot none webList ⟨[], []⟩) webStarted).app.calls := by decide +kernel
  refine (rows_reported noConversions webParse (fun _ => []) (lit "/var/run/docker.sock")
    webConnections layoutLibrary goodEnv none webList ⟨[], []⟩ hfetched webStarted ?_
    (after (boot none webList ⟨[], []⟩) webStarted) (by decide +kernel)).2 _ _ hcalls
  intro w result hlabel
  simp only [webStarted, List.mem_cons, List.not_mem_nil, or_false, Label.fetchContainers.injEq,
    reduceCtorEq, false_or] at hlabel
  rw [hlabel.2]
  exact hfetched

end App

end TuxDock
