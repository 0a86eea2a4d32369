import Mathlib.Data.List.Infix
import TuxDock.Reaper.Freestanding

/-!
# The search along `PATH`

`my_execvp` of `tuxreaperdasm.c`, on memory, against the search that `execvp` of libc performs for
`tuxreaperdgnu.c`.  There an empty element of `PATH` stands for the current directory.

* `visited` : the elements the loop comes to, all but an empty one at the end;
* `exists_searchDirs` : the loop stays inside its buffer and ends, and it calls `execve` for the
  elements visited that fit, up to the first call that succeeds;
* `myExecvp_iff` : **it tries what `execvp` tries exactly when `PATH` has no empty element**;
* `emptyElement_root` : for an empty element it looks in the root directory.
-/

namespace TuxDock

namespace Reaper

open Text

/-- The error for a file that is not there. -/
def ENOENT : ℕ := 2

/-! ### The search of libc -/

/-- `getenv`: what follows `name=` in the first variable of that name. -/
def getenv (name : Bytes) (env : List Bytes) : Option Bytes :=
  (env.find? fun e => (name ++ lit "=").isPrefixOf e).map (·.drop (name.length + 1))

/-- The elements of `PATH`, separated by colons. -/
def elements (path : Bytes) : List Bytes := path.splitOn 58

/-- The file in a directory; the empty name is the current directory. -/
def candidate (file dir : Bytes) : Bytes := if dir = [] then file else dir ++ 47 :: file

/-- What `execvp` tries in turn. -/
def candidates (path file : Bytes) : List Bytes := (elements path).map (candidate file)

/-! ### The search without libc -/

/-- The loop of `my_getenv`. -/
def getenvFrom (name : Bytes) (nlen : ℕ) : List Bytes → Option (Option Bytes)
  | [] => some none
  | e :: envp => do
    let d ← myStrncmp e name nlen
    if d = 0 then do
      let c ← e[nlen]?
      if c = 61 then some (some (e.drop (nlen + 1))) else getenvFrom name nlen envp
    else getenvFrom name nlen envp

/-- `my_getenv`; `none` when it reads beyond a buffer. -/
def myGetenv (name : Bytes) (envp : List Bytes) : Option (Option Bytes) := do
  let nlen ← myStrlen name
  getenvFrom name nlen envp

/-- A search: the array `full`, the paths `execve` has been called with, and whether the last call
has replaced the program. -/
structure Search where
  full : Vector UInt8 512
  tried : List Bytes
  replaced : Bool

section

variable (execve : Bytes → Option ℕ)

/-- A call of `execve`, which returns only if it fails. -/
def Search.exec (s : Search) (arg : Bytes) : Search :=
  { s with tried := s.tried ++ [arg], replaced := (execve arg).isNone }

/-- The directory at `p`, of `dirlen` bytes, if the path fits the array. -/
def tryDir (file : Bytes) (flen : ℕ) (p : Bytes) (dirlen : ℕ) (s : Search) : Option Search :=
  if dirlen + 1 + flen + 1 ≤ 512 then do
    let full ← myMemcpy s.full 0 p dirlen
    let full ← Buffer.set? full dirlen 47
    let full ← myMemcpy full (dirlen + 1) file flen
    let full ← Buffer.set? full (dirlen + 1 + flen) 0
    let arg ← cstring full.toList
    some ({ s with full := full }.exec execve arg)
  else some s

/-- The loop over the directories from `p` on.  The first argument bounds the number of turns. -/
def searchDirs (file : Bytes) (flen : ℕ) : ℕ → Bytes → Search → Option Search
  | 0, _, _ => none
  | fuel + 1, p, s => do
    let c ← p.head?
    if c = 0 then some s
    else do
      let colon ← myStrchr 58 p
      let dirlen ← colon.elim (myStrlen p) some
      let s ← tryDir execve file flen p dirlen s
      if s.replaced then some s
      else
        match colon with
        | none => some s
        | some i => searchDirs file flen fuel (p.drop (i + 1)) s

/-- `my_execvp`, with what its array holds at the start.  Each turn of the loop goes on in the
memory of `PATH`. -/
def myExecvp (file : Bytes) (envp : List Bytes) (full : Vector UInt8 512) : Option Search := do
  let slash ← myStrchr 47 file
  if slash.isSome then do
    let arg ← cstring file
    some (Search.exec execve ⟨full, [], false⟩ arg)
  else do
    let path ← myGetenv (lit "PATH" ++ [0]) envp
    let p := path.getD (lit "/bin:/usr/bin" ++ [0])
    let flen ← myStrlen file
    searchDirs execve file flen p.length p ⟨full, [], false⟩

end

/-! ### The environment -/

/-- The memory of C strings, with what follows each. -/
def memory (env : List (Bytes × Bytes)) : List Bytes := env.map fun e => e.1 ++ 0 :: e.2

theorem getenvFrom_memory {name : Bytes} (hname : (0 : UInt8) ∉ name) (m : Bytes)
    {env : List (Bytes × Bytes)} {path : Bytes}
    (hpath : getenv name (env.map Prod.fst) = some path) :
    ∃ m', getenvFrom (name ++ 0 :: m) name.length (memory env) = some (some (path ++ 0 :: m')) := by
  induction env with
  | nil => cases hpath
  | cons e env ih =>
    obtain ⟨e, m'⟩ := e
    rw [List.map_cons, getenv, List.find?_cons] at hpath
    by_cases hvar : name ++ lit "=" <+: e
    · rw [List.isPrefixOf_iff_prefix.2 hvar] at hpath
      obtain ⟨value, rfl⟩ := hvar
      obtain rfl : value = path := by
        simpa [lit, List.drop_append, List.drop_eq_nil_of_le] using hpath
      refine ⟨m', ?_⟩
      have hpre : name <+: name ++ lit "=" ++ value := by simp
      rw [memory, List.map_cons, getenvFrom, myStrncmp_append, (strncmp_eq_zero hname).2 hpre]
      simp [lit]
    · rw [Bool.eq_false_iff.2 (mt List.isPrefixOf_iff_prefix.1 hvar)] at hpath
      obtain ⟨m'', hrest⟩ := ih hpath
      refine ⟨m'', ?_⟩
      rw [memory, List.map_cons, getenvFrom, myStrncmp_append, ← memory, hrest]
      by_cases hpre : name <+: e
      · rw [(strncmp_eq_zero hname).2 hpre]
        obtain ⟨rest, rfl⟩ := hpre
        -- the name goes on
        cases rest with
        | nil => simp
        | cons c rest =>
          have hc : c ≠ 61 := by
            rintro rfl
            exact hvar ⟨rest, by simp [lit]⟩
          simp [hc]
      · rw [← strncmp_eq_zero hname] at hpre
        simp [hpre]

theorem myGetenv_memory {name : Bytes} (hname : (0 : UInt8) ∉ name)
    {env : List (Bytes × Bytes)} {path : Bytes}
    (hpath : getenv name (env.map Prod.fst) = some path) :
    ∃ m, myGetenv (name ++ [0]) (memory env) = some (some (path ++ 0 :: m)) := by
  obtain ⟨m, hm⟩ := getenvFrom_memory hname [] hpath
  refine ⟨m, ?_⟩
  rw [myGetenv, myStrlen_append, strlen_eq hname]
  exact hm

/-! ### The directories -/

/-- The elements the loop comes to. -/
def visited (path : Bytes) : List Bytes :=
  if (elements path).getLast? = some [] then (elements path).dropLast else elements path

theorem visited_last {dir : Bytes} (hdir : 58 ∉ dir) :
    visited dir = if dir = [] then [] else [dir] := by
  rw [visited, elements, List.splitOn_eq_singleton hdir]
  simp

theorem elements_cons {dir : Bytes} (hdir : 58 ∉ dir) (rest : Bytes) :
    elements (dir ++ 58 :: rest) = dir :: elements rest :=
  List.splitOn_append_cons_self_of_not_mem hdir rest

theorem visited_cons {dir : Bytes} (hdir : 58 ∉ dir) (rest : Bytes) :
    visited (dir ++ 58 :: rest) = dir :: visited rest := by
  have hne : elements rest ≠ [] := List.splitOn_ne_nil 58 rest
  rw [visited, visited, elements_cons hdir, List.getLast?_cons_of_ne_nil hne,
    List.dropLast_cons_of_ne_nil hne]
  split_ifs <;> rfl

theorem visited_prefix (path : Bytes) : visited path <+: elements path := by
  rw [visited]
  split_ifs
  · exact List.dropLast_prefix _
  · exact List.prefix_refl _

theorem visited_eq_elements {path : Bytes} (h : [] ∉ elements path) :
    visited path = elements path := by
  refine if_neg ?_
  intro hlast
  exact h (List.mem_of_getLast? hlast)

/-! ### The loop -/

section Loop

variable (execve : Bytes → Option ℕ)

theorem exists_tryDir {dir file : Bytes} (hdir : (0 : UInt8) ∉ dir) (hfile : (0 : UInt8) ∉ file)
    (rest m : Bytes) (s : Search) (hfits : dir.length + 1 + file.length + 1 ≤ 512) :
    ∃ full, tryDir execve (file ++ 0 :: m) file.length (dir ++ rest) dir.length s =
      some ({ s with full := full }.exec execve (dir ++ 47 :: file)) := by
  have harg : (0 : UInt8) ∉ dir ++ 47 :: file := by simp [hdir, hfile]
  obtain ⟨full, hwrite, hcells⟩ := Buffer.exists_write_zero s.full
    (dir ++ ([47] ++ (file ++ [0]))) (by simp; omega)
  refine ⟨full, ?_⟩
  have hcstring : cstring full.toList = some (dir ++ 47 :: file) := by
    rw [hcells, ← cstring_append harg (s.full.toList.drop (dir ++ ([47] ++ (file ++ [0]))).length)]
    simp only [List.append_assoc, List.cons_append, List.nil_append]
  -- the four writes are one after the other
  have hsteps : tryDir execve (file ++ 0 :: m) file.length (dir ++ rest) dir.length s =
      (Buffer.write s.full 0 (dir ++ ([47] ++ (file ++ [0])))).bind fun full =>
        (cstring full.toList).bind fun arg => some ({ s with full := full }.exec execve arg) := by
    rw [tryDir, if_pos hfits, myMemcpy_eq _ _ (by simp)]
    simp only [Buffer.write_append, Buffer.write, Option.bind_eq_bind, Option.bind_assoc,
      Option.bind_fun_some, List.take_left', Nat.zero_add, List.length_singleton,
      myMemcpy_eq, List.length_append, Nat.le_add_right]
  rw [hsteps, hwrite, Option.bind_some, hcstring, Option.bind_some]

theorem idxOf?_append_cons {dir : Bytes} {c : UInt8} (hdir : c ∉ dir) (rest : Bytes) :
    (dir ++ c :: rest).idxOf? c = some dir.length := by
  rw [List.idxOf?, List.findIdx?_append, ← List.idxOf?, List.idxOf?_eq_none_iff.2 hdir]
  simp [List.idxOf?_cons]

/-- The search has gone on from `s` to `s'` over these paths, up to a call that succeeds. -/
structure Ran (paths : List Bytes) (s s' : Search) : Prop where
  calls : ∃ calls, s'.tried = s.tried ++ calls ∧ calls <+: paths
  going : s'.replaced = false → s'.tried = s.tried ++ paths
  returned : (∀ arg ∈ paths, (execve arg).isSome) → s'.replaced = false

namespace Ran

variable {execve} {paths paths' : List Bytes} {s s' s'' : Search}

theorem nil (hs : s.replaced = false) : Ran execve [] s s where
  calls := ⟨[], (List.append_nil _).symm, List.prefix_refl _⟩
  going _ := (List.append_nil _).symm
  returned _ := hs

theorem single (s : Search) (arg : Bytes) : Ran execve [arg] s (s.exec execve arg) where
  calls := ⟨[arg], rfl, List.prefix_refl _⟩
  going _ := rfl
  returned h := by simpa [Search.exec] using h arg (List.mem_singleton_self arg)

theorem append (h : Ran execve paths s s') (hs' : s'.replaced = false)
    (h' : Ran execve paths' s' s'') : Ran execve (paths ++ paths') s s'' where
  calls := by
    obtain ⟨calls, hcalls, hprefix⟩ := h'.calls
    refine ⟨paths ++ calls, ?_, (List.prefix_append_right_inj paths).2 hprefix⟩
    rw [hcalls, h.going hs', List.append_assoc]
  going hs'' := by rw [h'.going hs'', h.going hs', List.append_assoc]
  returned hsome := h'.returned fun arg harg => hsome arg (List.mem_append_right _ harg)

theorem stop (h : Ran execve paths s s') (hs' : s'.replaced = true) (paths' : List Bytes) :
    Ran execve (paths ++ paths') s s' where
  calls := by
    obtain ⟨calls, hcalls, hprefix⟩ := h.calls
    exact ⟨calls, hcalls, hprefix.trans (List.prefix_append _ _)⟩
  going hgoing := by
    rw [hs'] at hgoing
    cases hgoing
  returned hsome := h.returned fun arg harg => hsome arg (List.mem_append_left _ harg)

end Ran

/-- The paths of a file in directories, as far as they fit the array. -/
def fitting (file : Bytes) (dirs : List Bytes) : List Bytes :=
  (dirs.filter fun dir => dir.length + 1 + file.length + 1 ≤ 512).map fun dir => dir ++ 47 :: file

theorem fitting_cons (file dir : Bytes) (dirs : List Bytes) :
    fitting file (dir :: dirs) = fitting file [dir] ++ fitting file dirs := by
  rw [fitting, fitting, fitting, ← List.map_append, ← List.filter_append, List.singleton_append]

theorem fitting_of_fits {file : Bytes} {dirs : List Bytes}
    (h : ∀ dir ∈ dirs, dir.length + 1 + file.length + 1 ≤ 512) :
    fitting file dirs = dirs.map fun dir => dir ++ 47 :: file := by
  rw [fitting, List.filter_eq_self.2 fun dir hdir => decide_eq_true (h dir hdir)]

theorem exists_ran_tryDir {dir file : Bytes} (hdir : (0 : UInt8) ∉ dir) (hfile : (0 : UInt8) ∉ file)
    (rest m : Bytes) {s : Search} (hs : s.replaced = false) :
    ∃ s', tryDir execve (file ++ 0 :: m) file.length (dir ++ rest) dir.length s = some s' ∧
      Ran execve (fitting file [dir]) s s' := by
  by_cases hfits : dir.length + 1 + file.length + 1 ≤ 512
  · obtain ⟨full, hfull⟩ := exists_tryDir execve hdir hfile rest m s hfits
    have hran : Ran execve [dir ++ 47 :: file] { s with full := full }
      ({ s with full := full }.exec execve (dir ++ 47 :: file)) := .single _ _
    refine ⟨_, hfull, ?_⟩
    rw [fitting_of_fits (List.forall_mem_singleton.2 hfits)]
    exact ⟨hran.calls, hran.going, hran.returned⟩
  · refine ⟨s, if_neg hfits, ?_⟩
    have hpaths : fitting file [dir] = [] := by
      rw [fitting, List.map_eq_nil_iff, List.filter_eq_nil_iff, List.forall_mem_singleton]
      exact mt of_decide_eq_true hfits
    rw [hpaths]
    exact .nil hs

/-- **The loop over the directories** stays inside the array and ends. -/
theorem exists_searchDirs {file : Bytes} (hfile : (0 : UInt8) ∉ file) (m m' : Bytes) (fuel : ℕ)
    {path : Bytes} (hpath : (0 : UInt8) ∉ path) (hfuel : path.length < fuel) {s : Search}
    (hs : s.replaced = false) :
    ∃ s', searchDirs execve (file ++ 0 :: m) file.length fuel (path ++ 0 :: m') s = some s' ∧
      Ran execve (fitting file (visited path)) s s' := by
  induction fuel generalizing path s with
  | zero => exact absurd hfuel (Nat.not_lt_zero _)
  | succ fuel ih =>
    rw [searchDirs, myStrchr_append 58 hpath]
    by_cases hcolon : (58 : UInt8) ∈ path
    · obtain ⟨dir, rest, rfl, hdir⟩ := List.eq_append_cons_of_mem hcolon
      have hnul : (0 : UInt8) ∉ dir ∧ (0 : UInt8) ∉ rest := by simpa using hpath
      have hhead : ∃ c, (dir ++ 58 :: rest ++ 0 :: m').head? = some c ∧ c ≠ 0 := by
        cases dir with
        | nil => exact ⟨58, rfl, by decide⟩
        | cons c dir => exact ⟨c, rfl, fun h => hnul.1 (h ▸ List.mem_cons_self)⟩
      obtain ⟨c, hc, hc0⟩ := hhead
      have hdrop : (dir ++ 58 :: rest ++ 0 :: m').drop (dir.length + 1) = rest ++ 0 :: m' := by
        simp
      rw [visited_cons hdir, fitting_cons, idxOf?_append_cons hdir, hc]
      simp only [Option.bind_eq_bind, Option.bind_some, if_neg hc0, Option.elim_some, hdrop]
      obtain ⟨s₁, htry, hran⟩ := exists_ran_tryDir execve hnul.1 hfile (58 :: rest ++ 0 :: m') m hs
      rw [List.append_assoc, htry, Option.bind_some]
      cases hs₁ : s₁.replaced with
      | true => exact ⟨s₁, rfl, hran.stop hs₁ _⟩
      | false =>
        have hlt : rest.length < fuel := by
          rw [List.length_append, List.length_cons] at hfuel
          omega
        obtain ⟨s', hs', hran'⟩ := ih hnul.2 hlt hs₁
        exact ⟨s', hs', hran.append hs₁ hran'⟩
    · rw [visited_last hcolon, List.idxOf?_eq_none_iff.2 hcolon]
      cases path with
      | nil => exact ⟨s, rfl, .nil hs⟩
      | cons c path =>
        have hc0 : c ≠ 0 := fun h => hpath (h ▸ List.mem_cons_self)
        obtain ⟨s₁, htry, hran⟩ := exists_ran_tryDir execve hpath hfile (0 :: m') m hs
        refine ⟨s₁, ?_, hran⟩
        rw [List.cons_append, List.head?_cons, ← List.cons_append, myStrlen_append, strlen_eq hpath]
        simp only [Option.bind_eq_bind, Option.bind_some, if_neg hc0, Option.elim_none, htry,
          ite_self]

end Loop

/-! ### The whole search -/

theorem mem_of_getenv {name : Bytes} {env : List Bytes} {path : Bytes}
    (h : getenv name env = some path) : ∃ e ∈ env, path = e.drop (name.length + 1) := by
  obtain ⟨e, he, rfl⟩ := Option.map_eq_some_iff.1 h
  exact ⟨e, List.mem_of_find?_eq_some he, rfl⟩

/-- The paths the loop comes to are those of libc only if no element is empty. -/
theorem notMem_elements_of_prefix {path file : Bytes}
    (h : candidates path file <+: fitting file (visited path)) : [] ∉ elements path := by
  have hvisited := visited_prefix path
  have hfilter := List.length_filter_le
    (fun dir : Bytes => decide (dir.length + 1 + file.length + 1 ≤ 512)) (visited path)
  have hle := h.length_le
  rw [candidates, fitting, List.length_map, List.length_map] at hle
  have heq : visited path = elements path :=
    hvisited.eq_of_length (le_antisymm hvisited.length_le (hle.trans hfilter))
  have hall : ∀ dir ∈ elements path, dir.length + 1 + file.length + 1 ≤ 512 := by
    rw [← heq] at hle ⊢
    intro dir hdir
    exact of_decide_eq_true (List.length_filter_eq_length_iff.1 (le_antisymm hfilter hle) dir hdir)
  rw [heq, fitting_of_fits hall] at h
  have hmap := h.eq_of_length (by rw [candidates, List.length_map, List.length_map])
  intro hempty
  have hroot := List.map_inj_left.1 hmap [] hempty
  exact absurd (congrArg List.length hroot) (by simp [candidate])

/-- **`my_execvp` tries what `execvp` tries, and returns, exactly when `PATH` has no empty
element.** -/
theorem myExecvp_iff (execve : Bytes → Option ℕ) (file m : Bytes) (env : List (Bytes × Bytes))
    (path : Bytes) (full : Vector UInt8 512) (hnul : (0 : UInt8) ∉ file)
    (hslash : (47 : UInt8) ∉ file) (henv : ∀ e ∈ env, (0 : UInt8) ∉ e.1)
    (hpath : getenv (lit "PATH") (env.map Prod.fst) = some path)
    (hfits : ∀ arg ∈ candidates path file, arg.length + 1 ≤ 512)
    (hfail : ∀ arg ∈ candidates path file, execve arg = some ENOENT) :
    ∃ s, myExecvp execve (file ++ 0 :: m) (memory env) full = some s ∧
      (s.tried = candidates path file ∧ s.replaced = false ↔ [] ∉ elements path) := by
  have hpathnul : (0 : UInt8) ∉ path := by
    obtain ⟨e, he, rfl⟩ := mem_of_getenv hpath
    obtain ⟨var, hvar, rfl⟩ := List.mem_map.1 he
    intro h
    exact henv var hvar (List.mem_of_mem_drop h)
  obtain ⟨m', hgetenv⟩ := myGetenv_memory (by decide) hpath
  obtain ⟨s, hs, hran⟩ := exists_searchDirs execve hnul m m' (path ++ 0 :: m').length
    hpathnul (by simp) (s := ⟨full, [], false⟩) rfl
  refine ⟨s, ?_, ?_⟩
  · rw [myExecvp, myStrchr_append 47 hnul, List.idxOf?_eq_none_iff.2 hslash, hgetenv,
      myStrlen_append, strlen_eq hnul]
    exact hs
  · constructor
    · rintro ⟨htried, -⟩
      obtain ⟨calls, hcalls, hprefix⟩ := hran.calls
      rw [List.nil_append] at hcalls
      rw [← hcalls, htried] at hprefix
      exact notMem_elements_of_prefix hprefix
    · intro hempty
      have hne : ∀ dir ∈ elements path, dir ≠ [] := fun dir hdir h => hempty (h ▸ hdir)
      have hcand : candidates path file = (elements path).map fun dir => dir ++ 47 :: file :=
        List.map_congr_left fun dir hdir => if_neg (hne dir hdir)
      have hpaths : fitting file (visited path) = candidates path file := by
        rw [visited_eq_elements hempty, hcand, fitting_of_fits]
        intro dir hdir
        have := hfits (dir ++ 47 :: file) (hcand ▸ List.mem_map_of_mem hdir)
        rw [List.length_append, List.length_cons] at this
        omega
      rw [hpaths] at hran
      have hreturned := hran.returned fun arg harg => by rw [hfail arg harg]; rfl
      exact ⟨hran.going hreturned, hreturned⟩

theorem myExecvp_iff_bin :
    ∃ s, myExecvp (fun _ => some ENOENT) (lit "sh" ++ [0])
        (memory [(lit "HOME=/root", []), (lit "PATH=/bin:/usr/bin", [65])])
        (Vector.replicate 512 66) = some s ∧
      s.tried = [lit "/bin/sh", lit "/usr/bin/sh"] ∧ s.replaced = false := by
  obtain ⟨s, hs, hiff⟩ := myExecvp_iff (fun _ => some ENOENT) (lit "sh") []
    [(lit "HOME=/root", []), (lit "PATH=/bin:/usr/bin", [65])] (lit "/bin:/usr/bin")
    (Vector.replicate 512 66) (by decide) (by decide) (by decide +kernel) (by decide +kernel)
    (by decide +kernel) (fun _ _ => rfl)
  obtain ⟨htried, hreplaced⟩ := hiff.2 (by decide +kernel)
  exact ⟨s, hs, htried.trans (by decide +kernel), hreplaced⟩

/-- **An empty element of `PATH` sends the search to the root directory**, where the current
directory was due; an empty element at the end is not tried at all. -/
theorem emptyElement_root :
    (myExecvp (fun _ => some ENOENT) (lit "sh" ++ [0]) (memory [(lit "PATH=:/bin:", [])])
        (Vector.replicate 512 66)).map Search.tried = some [lit "/sh", lit "/bin/sh"] ∧
      candidates (lit ":/bin:") (lit "sh") = [lit "sh", lit "/bin/sh", lit "sh"] := by
  decide +kernel

end Reaper

end TuxDock
