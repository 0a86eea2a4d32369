import Mathlib.Data.Nat.Digits.Lemmas
import TuxDock.Reaper.Freestanding

/-!
# The scans, down to the buffers

`tuxreaperdasm.c` reads `/proc` with `getdents64`, steps through packed records and builds paths by
hand, while `tuxreaperdgnu.c` leaves this to libc.  Here the first is modelled on its buffers, with
whatever they held before, and compared with the second.

* `Answer` : the records one call of `getdents64` stores;
* `forEachRecord_spec` : the loops over the answers and over the records in one of them visit the
  names in their order, however they are spread over the answers;
* `scans_agree` : **both builds make the same calls of `kill` and the same count**.
-/

namespace TuxDock

namespace Reaper

open Text

/-! ### What `getdents64` stores -/

/-- `struct linux_dirent64`; the name has a NUL behind it, and the record may be padded. -/
structure Dirent64 where
  dIno : Vector UInt8 8
  dOff : Vector UInt8 8
  dType : UInt8
  dName : Bytes
  pad : Bytes
  deriving DecidableEq

namespace Dirent64

variable (de : Dirent64)

/-- The value of `d_reclen`. -/
def reclen : ℕ := 19 + (de.dName.length + (1 + de.pad.length))

/-- The bytes of the record. -/
def encode : Bytes :=
  de.dIno.toList ++ (de.dOff.toList ++ (UInt8.ofNat de.reclen :: UInt8.ofNat (de.reclen / 256) ::
    de.dType :: (de.dName ++ 0 :: de.pad)))

@[simp] theorem length_encode : de.encode.length = de.reclen := by
  simp only [encode, reclen, List.length_append, List.length_cons, Vector.length_toList]
  omega

theorem reclen_le_length {des : List Dirent64} {de : Dirent64} (h : de ∈ des) :
    de.reclen ≤ (des.flatMap encode).length := by
  rw [← length_encode, List.flatMap_def]
  exact (List.sublist_flatten_of_mem (List.mem_map_of_mem h)).length_le

/-- There are no more records than bytes. -/
theorem length_le_length (des : List Dirent64) :
    des.length ≤ (des.flatMap encode).length := by
  induction des with
  | nil => rfl
  | cons de des ih =>
    rw [List.flatMap_cons, List.length_append, List.length_cons, length_encode,
      reclen]
    omega

end Dirent64

/-- The records a call of `getdents64` stores in the buffer. -/
structure Answer where
  records : List Dirent64
  records_ne : records ≠ []
  fits : (records.flatMap Dirent64.encode).length ≤ 4096

/-- The bytes that are put into the buffer. -/
def Answer.bytes (a : Answer) : Bytes := a.records.flatMap Dirent64.encode

/-- The entries of a directory, in order. -/
def names (answers : List Answer) : List Bytes :=
  answers.flatMap fun a => a.records.map Dirent64.dName

/-! ### The scans over libc -/

/-- The turn of the loop for one name, as in `scanEntry`. -/
def scanName (impl : Impl) (readlink : Bytes → Option Bytes) (inSig : ℕ) (rules : List SigRule)
    (name : Bytes) : Option (ℤ × ℕ) :=
  match pidOf impl name with
  | none => none
  | some pid =>
    match readlink (exePath impl name pid) with
    | none => none
    | some [] => none
    | some (c :: link) => some (pid, sentSig inSig rules (c :: link))

theorem scanEntry_eq (impl : Impl) (v : ProcView) (inSig : ℕ) (rules : List SigRule)
    (name : Bytes) :
    scanEntry impl v inSig rules name = scanName impl v.readlink inSig rules name :=
  rfl

/-- What `readlink` stores of the path a link points to, `none` for an error. -/
def storedLink (link : Bytes → Option Bytes) (path : Bytes) : Option Bytes :=
  (link path).map (·.take 255)

namespace Gnu

/-- `proc_remap_signal` on the names `readdir` returns, `none` if `opendir` fails. -/
def procRemapSignal (readlink : Bytes → Option Bytes) (inSig : ℕ) (rules : List SigRule)
    (dir : Option (List Bytes)) : List (ℤ × ℕ) :=
  match dir with
  | none => []
  | some names => names.filterMap (scanName .gnu readlink inSig rules)

/-- `count_descendants` of the one build. -/
def countDescendants (dir : Option (List Bytes)) : ℕ :=
  match dir with
  | none => 0
  | some names => (names.filter fun name => (pidOf .gnu name).isSome).length

end Gnu

/-! ### The scans without libc -/

namespace Asm

/-- `de->d_reclen`, two bytes with the low one first. -/
def dReclen (de : Bytes) : Option ℕ :=
  match de.drop 16 with
  | low :: high :: _ => some (low.toNat + 256 * high.toNat)
  | _ => none

/-- The loop over the records in the first `n` bytes of the buffer, from `pos` on; `body` is given
the memory from a name on.  The first argument bounds the number of turns. -/
def records {β : Type} (body : Bytes → β → Option β) (dirbuf : Bytes) (n : ℕ) :
    ℕ → ℕ → β → Option β
  | 0, pos, b => if pos < n then none else some b
  | fuel + 1, pos, b =>
    if pos < n then do
      let reclen ← dReclen (dirbuf.drop pos)
      let b ← body (dirbuf.drop (pos + 19)) b
      records body dirbuf n fuel (pos + reclen) b
    else some b

/-- The loop over the answers of `getdents64`, which is zero after the last.  In an answer of `n`
bytes there are at most `n` records. -/
def forEachRecord {β : Type} (body : Bytes → β → Option β) :
    List Answer → Vector UInt8 4096 → β → Option β
  | [], _, b => some b
  | a :: answers, dirbuf, b => do
    let dirbuf ← Buffer.write dirbuf 0 a.bytes
    let b ← records body dirbuf.toList a.bytes.length a.bytes.length 0 b
    forEachRecord body answers dirbuf b

/-- `parse_pid` on memory. -/
def parsePidAt (pid : ℤ) : Bytes → Option ℤ
  | [] => none
  | c :: s =>
    if c = 0 then some pid
    else if isDigit 10 c then parsePidAt (pid * 10 + digitVal c) s
    else some (-1)

/-- `/proc/`, the name and `/exe` in the array `path`. -/
def buildPath (path : Vector UInt8 32) (name : Bytes) : Option (Vector UInt8 32) := do
  let (path, p) ← copyString path 0 (lit "/proc/" ++ [0])
  let (path, p) ← copyString path p name
  let (path, p) ← copyString path p (lit "/exe" ++ [0])
  Buffer.set? path p 0

/-- A target against the stored path, which has a NUL behind it. -/
def matchesTarget (linkbuf : Bytes) (linklen : ℕ) (prefixMatch : Bool) (target : Bytes) :
    Option Bool := do
  let targetLen ← myStrlen (target ++ [0])
  if prefixMatch then
    if targetLen ≤ linklen then (myStrncmp linkbuf (target ++ [0]) targetLen).map (· == 0)
    else some false
  else if linklen = targetLen then (myStrcmp linkbuf (target ++ [0])).map (· == 0)
  else some false

/-- The loop over the targets of a rule. -/
def matched (linkbuf : Bytes) (linklen : ℕ) (prefixMatch : Bool) : List Bytes → Option Bool
  | [] => some false
  | target :: targets => do
    let hit ← matchesTarget linkbuf linklen prefixMatch target
    if hit then some true else matched linkbuf linklen prefixMatch targets

/-- The loop over the rules. -/
def selectSig (inSig : ℕ) (linkbuf : Bytes) (linklen : ℕ) : List SigRule → Option ℕ
  | [] => some inSig
  | rule :: rules => do
    let hit ← matched linkbuf linklen rule.prefixMatch rule.targetExes
    if hit then some rule.outSig else selectSig inSig linkbuf linklen rules

/-- The arrays of a turn of the loop, and the calls of `kill` so far. -/
structure Locals where
  path : Vector UInt8 32
  linkbuf : Vector UInt8 256
  kills : List (ℤ × ℕ)

/-- A process whose link has been read. -/
def remapLink (inSig : ℕ) (rules : List SigRule) (pid : ℤ) (stored : Bytes) (f : Locals) :
    Option Locals := do
  let linkbuf ← Buffer.write f.linkbuf 0 stored
  if stored.length = 0 then some { f with linkbuf := linkbuf }
  else do
    let linkbuf ← Buffer.set? linkbuf stored.length 0
    let sig ← selectSig inSig linkbuf.toList stored.length rules
    some { f with linkbuf := linkbuf, kills := f.kills ++ [(pid, sig)] }

/-- A process. -/
def remapPid (readlink : Bytes → Option Bytes) (inSig : ℕ) (rules : List SigRule) (pid : ℤ)
    (name : Bytes) (f : Locals) : Option Locals := do
  let path ← buildPath f.path name
  let arg ← cstring path.toList
  match readlink arg with
  | none => some { f with path := path }
  | some stored => remapLink inSig rules pid stored { f with path := path }

/-- The body of the loop over the records. -/
def remapName (readlink : Bytes → Option Bytes) (inSig : ℕ) (rules : List SigRule) (name : Bytes)
    (f : Locals) : Option Locals := do
  let c ← name.head?
  if c = 46 then some f
  else do
    let pid ← parsePidAt 0 name
    if pid ≤ 1 then some f else remapPid readlink inSig rules pid name f

/-- `proc_remap_signal`, with what its arrays hold at the start. -/
def procRemapSignal (readlink : Bytes → Option Bytes) (inSig : ℕ) (rules : List SigRule)
    (dirbuf : Vector UInt8 4096) (path : Vector UInt8 32) (linkbuf : Vector UInt8 256)
    (dir : Option (List Answer)) : Option (List (ℤ × ℕ)) :=
  match dir with
  | none => some []
  | some answers =>
    (forEachRecord (remapName readlink inSig rules) answers dirbuf ⟨path, linkbuf, []⟩).map
      Locals.kills

/-- The body of the loop in `count_descendants`. -/
def countName (name : Bytes) (count : ℕ) : Option ℕ := do
  let c ← name.head?
  if c = 46 then some count
  else do
    let pid ← parsePidAt 0 name
    if pid ≤ 1 then some count else some (count + 1)

/-- `count_descendants` of the freestanding build; `none` when it reads beyond a buffer. -/
def countDescendants (dirbuf : Vector UInt8 4096) (dir : Option (List Answer)) : Option ℕ :=
  match dir with
  | none => some 0
  | some answers => forEachRecord countName answers dirbuf 0

/-! ### Names and links -/

theorem matchesTarget_append (link m : Bytes) (prefixMatch : Bool) (target : Bytes) :
    matchesTarget (link ++ 0 :: m) link.length prefixMatch target =
      some (if prefixMatch then
        strlen target ≤ link.length && strncmp link target (strlen target) == 0
      else link.length == strlen target && strcmp link target == 0) := by
  rw [matchesTarget, myStrlen_append]
  simp only [Option.bind_eq_bind, Option.bind_some, myStrncmp_append, myStrcmp_append,
    Option.map_some]
  by_cases hp : prefixMatch = true
  · by_cases hlen : strlen target ≤ link.length <;> simp [hp, hlen]
  · by_cases hlen : link.length = strlen target <;> simp [hp, hlen]

/-- The loop over the targets is that of the other build. -/
theorem matched_append (link m : Bytes) (rule : SigRule) :
    matched (link ++ 0 :: m) link.length rule.prefixMatch rule.targetExes =
      some (ruleMatches link rule) := by
  obtain ⟨targets, outSig, prefixMatch⟩ := rule
  simp only [ruleMatches]
  induction targets with
  | nil => rfl
  | cons target targets ih =>
    rw [matched, ih, List.any_cons, matchesTarget_append, Option.bind_eq_bind, Option.bind_some]
    cases (if prefixMatch then
        decide (strlen target ≤ link.length) && strncmp link target (strlen target) == 0
      else link.length == strlen target && strcmp link target == 0) <;> rfl

/-- **Both builds select the same signal.** -/
theorem selectSig_append (inSig : ℕ) (link m : Bytes) (rules : List SigRule) :
    selectSig inSig (link ++ 0 :: m) link.length rules = some (sentSig inSig rules link) := by
  induction rules with
  | nil => rfl
  | cons rule rules ih =>
    rw [selectSig, ih, matched_append]
    cases hrule : ruleMatches link rule <;> simp [sentSig, hrule]

theorem head?_append_nul (name m : Bytes) : (name ++ 0 :: m).head? = some (name.headD 0) := by
  cases name <;> rfl

theorem headD_eq_dot_iff {name : Bytes} : name.headD 0 = 46 ↔ name.head? = some 46 := by
  cases name <;> simp

theorem parsePidAt_append {name : Bytes} (hname : (0 : UInt8) ∉ name) (m : Bytes) (pid : ℤ) :
    parsePidAt pid (name ++ 0 :: m) = some (parsePidFrom pid name) := by
  induction name generalizing pid with
  | nil => rfl
  | cons c s ih =>
    rw [List.mem_cons, not_or] at hname
    rw [List.cons_append, parsePidAt, if_neg (Ne.symm hname.1), parsePidFrom, ih hname.2]
    split_ifs <;> rfl

/-- The three loops write the path one after the other. -/
theorem buildPath_append (path : Vector UInt8 32) {name : Bytes} (hname : (0 : UInt8) ∉ name)
    (m : Bytes) :
    buildPath path (name ++ 0 :: m) =
      Buffer.write path 0 (lit "/proc/" ++ (name ++ (lit "/exe" ++ [0]))) := by
  have hproc : (0 : UInt8) ∉ lit "/proc/" := by decide
  have hexe : (0 : UInt8) ∉ lit "/exe" := by decide
  simp only [buildPath, copyString_append, hproc, hexe, hname, Buffer.write_append, Buffer.write,
    not_false_eq_true, Option.bind_eq_bind, Option.bind_map, Function.comp_def,
    Option.bind_fun_some]

/-! ### Turns of the loops -/

variable (link : Bytes → Option Bytes) (inSig : ℕ) (rules : List SigRule)

theorem exists_remapLink (pid : ℤ) {stored : Bytes} (hlen : stored.length ≤ 255) (f : Locals) :
    ∃ f', remapLink inSig rules pid stored f = some f' ∧
      f'.kills = f.kills ++ if stored = [] then [] else [(pid, sentSig inSig rules stored)] := by
  obtain ⟨linkbuf, hlink, -⟩ := Buffer.exists_write_zero f.linkbuf stored (by omega)
  obtain ⟨linkbuf', hnul, hcells⟩ := Buffer.exists_write_zero f.linkbuf (stored ++ [0])
    (by rw [List.length_append, List.length_singleton]; omega)
  rw [Buffer.write_append, hlink, Option.bind_some, Nat.zero_add, Buffer.write] at hnul
  simp only [Buffer.write, Option.bind_fun_some] at hnul
  rw [List.append_assoc, List.singleton_append] at hcells
  simp only [remapLink, hlink, hnul, hcells, selectSig_append, Option.bind_eq_bind,
    Option.bind_some, List.length_eq_zero_iff]
  split_ifs with hstored
  · exact ⟨_, rfl, (List.append_nil _).symm⟩
  · exact ⟨_, rfl, rfl⟩

/-- **One turn of the loop** makes the call of `kill` that the model over names makes. -/
theorem exists_remapName {name : Bytes} (hname : (0 : UInt8) ∉ name)
    (hlong : 1 < parsePid name → name.length ≤ 21) (m : Bytes) (f : Locals) :
    ∃ f', remapName (storedLink link) inSig rules (name ++ 0 :: m) f = some f' ∧
      f'.kills = f.kills ++ (scanName .asm (storedLink link) inSig rules name).toList := by
  have hpid : parsePidAt 0 (name ++ 0 :: m) = some (parsePid name) := parsePidAt_append hname m 0
  simp only [remapName, head?_append_nul, hpid, headD_eq_dot_iff, scanName, pidOf,
    Option.bind_eq_bind, Option.bind_some]
  by_cases hskip : name.head? = some 46
  · exact ⟨f, by simp [hskip]⟩
  by_cases hinit : parsePid name ≤ 1
  · exact ⟨f, by simp [hskip, hinit]⟩
  rw [not_le] at hinit
  have hfits : (lit "/proc/" ++ (name ++ (lit "/exe" ++ [0]))).length ≤ 32 := by
    have := hlong hinit
    simp [lit]
    omega
  obtain ⟨path, hwrite, hcells⟩ := Buffer.exists_write_zero f.path _ hfits
  obtain ⟨stale, hcells⟩ : ∃ stale,
      path.toList = lit "/proc/" ++ (name ++ (lit "/exe" ++ [0])) ++ stale := ⟨_, hcells⟩
  have hnul : (0 : UInt8) ∉ exePath .asm name (parsePid name) := by
    simp [exePath, hname, lit]
  have harg : cstring path.toList = some (exePath .asm name (parsePid name)) := by
    rw [hcells, ← cstring_append hnul stale, exePath]
    simp only [List.append_assoc, List.singleton_append]
  simp only [hskip, not_le.2 hinit, remapPid, buildPath_append f.path hname m, hwrite, harg,
    ↓reduceIte, Option.bind_eq_bind, Option.bind_some]
  cases hstored : storedLink link (exePath .asm name (parsePid name)) with
  | none => exact ⟨_, rfl, (List.append_nil _).symm⟩
  | some stored =>
    have hlen : stored.length ≤ 255 := by
      obtain ⟨target, -, rfl⟩ := Option.map_eq_some_iff.1 hstored
      exact List.length_take_le _ _
    obtain ⟨f', hf', hkills⟩ :=
      exists_remapLink inSig rules (parsePid name) hlen { f with path := path }
    refine ⟨f', hf', hkills.trans ?_⟩
    cases stored <;> rfl

theorem countName_append {name : Bytes} (hname : (0 : UInt8) ∉ name) (m : Bytes) (count : ℕ) :
    countName (name ++ 0 :: m) count =
      some (count + if (pidOf .asm name).isSome then 1 else 0) := by
  have hpid : parsePidAt 0 (name ++ 0 :: m) = some (parsePid name) := parsePidAt_append hname m 0
  simp only [countName, head?_append_nul, hpid, headD_eq_dot_iff, pidOf, Option.bind_eq_bind,
    Option.bind_some]
  by_cases hskip : name.head? = some 46
  · simp [hskip]
  · by_cases hinit : parsePid name ≤ 1 <;> simp [hskip, hinit]

/-! ### Records -/

theorem drop_encode_reclen (de : Dirent64) (m : Bytes) :
    (de.encode ++ m).drop 16 = UInt8.ofNat de.reclen :: UInt8.ofNat (de.reclen / 256) ::
      de.dType :: (de.dName ++ 0 :: (de.pad ++ m)) := by
  rw [Dirent64.encode, ← List.append_assoc, List.append_assoc, List.drop_left' (by simp)]
  simp

theorem dReclen_encode {de : Dirent64} (h : de.reclen < 2 ^ 16) (m : Bytes) :
    dReclen (de.encode ++ m) = some de.reclen := by
  simp only [dReclen, drop_encode_reclen, UInt8.toNat_ofNat']
  congr 1
  omega

theorem drop_encode_name (de : Dirent64) (m : Bytes) :
    (de.encode ++ m).drop 19 = de.dName ++ 0 :: (de.pad ++ m) := by
  rw [show 19 = 16 + 3 from rfl, ← List.drop_drop, drop_encode_reclen]
  rfl

section Loops

variable {β γ : Type} (body : Bytes → β → Option β) (R : β → γ → Prop) (next : γ → Bytes → γ)

/-- **The loop over the records visits their names in order.** -/
theorem exists_records (des : List Dirent64) (hreclen : ∀ de ∈ des, de.reclen < 2 ^ 16)
    (hbody : ∀ de ∈ des, ∀ m b c, R b c →
      ∃ b', body (de.dName ++ 0 :: m) b = some b' ∧ R b' (next c de.dName))
    {dirbuf stale : Bytes} {n fuel pos : ℕ} {b : β} {c : γ}
    (hmem : dirbuf.drop pos = des.flatMap Dirent64.encode ++ stale)
    (hn : pos + (des.flatMap Dirent64.encode).length = n) (hfuel : des.length ≤ fuel)
    (hb : R b c) :
    ∃ b', records body dirbuf n fuel pos b = some b' ∧
      R b' ((des.map Dirent64.dName).foldl next c) := by
  induction des generalizing fuel pos b c with
  | nil =>
    have hend : ¬ pos < n := by simpa using hn.ge
    refine ⟨b, ?_, hb⟩
    cases fuel <;> rw [records, if_neg hend]
  | cons de des ih =>
    rw [List.forall_mem_cons] at hreclen hbody
    rw [List.flatMap_cons, List.append_assoc] at hmem
    rw [List.flatMap_cons, List.length_append, Dirent64.length_encode] at hn
    obtain ⟨fuel, rfl⟩ : ∃ k, fuel = k + 1 := ⟨fuel - 1, by simp at hfuel; omega⟩
    have hpos : pos < n := by
      have : 0 < de.reclen := by rw [Dirent64.reclen]; omega
      omega
    have hname : dirbuf.drop (pos + 19) =
        de.dName ++ 0 :: (de.pad ++ (des.flatMap Dirent64.encode ++ stale)) := by
      rw [← List.drop_drop, hmem, drop_encode_name]
    have hnext : dirbuf.drop (pos + de.reclen) = des.flatMap Dirent64.encode ++ stale := by
      rw [← List.drop_drop, hmem, List.drop_left' de.length_encode]
    obtain ⟨b', hb', hR⟩ := hbody.1 (de.pad ++ (des.flatMap Dirent64.encode ++ stale)) b c hb
    obtain ⟨b'', hrest, hR'⟩ := ih hreclen.2 hbody.2 hnext (by omega)
      (Nat.le_of_succ_le_succ hfuel) hR
    refine ⟨b'', ?_, hR'⟩
    rw [records, if_pos hpos, hmem, dReclen_encode hreclen.1, hname]
    simp only [Option.bind_eq_bind, Option.bind_some, hb', hrest]

/-- **The loop over the answers visits the names in order**, however they are spread over the
answers and whatever the buffer held. -/
theorem forEachRecord_spec (answers : List Answer)
    (hbody : ∀ name ∈ names answers, ∀ m b c, R b c →
      ∃ b', body (name ++ 0 :: m) b = some b' ∧ R b' (next c name))
    (dirbuf : Vector UInt8 4096) {b : β} {c : γ} (hb : R b c) :
    ∃ b', forEachRecord body answers dirbuf b = some b' ∧ R b' ((names answers).foldl next c) := by
  induction answers generalizing dirbuf b c with
  | nil => exact ⟨b, rfl, hb⟩
  | cons a answers ih =>
    have hmem (name : Bytes) : name ∈ names (a :: answers) ↔
        name ∈ a.records.map Dirent64.dName ∨ name ∈ names answers := by
      rw [names, List.flatMap_cons, List.mem_append, names]
    obtain ⟨dirbuf', hwrite, hcells⟩ := Buffer.exists_write_zero dirbuf a.bytes a.fits
    have hreclen : ∀ de ∈ a.records, de.reclen < 2 ^ 16 := by
      intro de hde
      exact ((Dirent64.reclen_le_length hde).trans a.fits).trans_lt (by decide)
    obtain ⟨b', hb', hR⟩ := exists_records body R next a.records hreclen
      (fun de hde => hbody _ ((hmem _).2 (Or.inl (List.mem_map_of_mem hde))))
      (show dirbuf'.toList.drop 0 = _ from hcells) (Nat.zero_add _)
      (Dirent64.length_le_length a.records) hb
    obtain ⟨b'', hrest, hR'⟩ := ih (fun name hname => hbody name ((hmem name).2 (Or.inr hname)))
      dirbuf' hR
    refine ⟨b'', ?_, ?_⟩
    · simp only [forEachRecord, hwrite, Option.bind_eq_bind, Option.bind_some]
      rw [show records body dirbuf'.toList a.bytes.length a.bytes.length 0 b = some b' from hb']
      exact hrest
    · rw [names, List.flatMap_cons, List.foldl_append]
      exact hR'

end Loops

end Asm

/-! ### Names -/

/-- `n` in decimal, without leading zeros. -/
def canonical (n : ℕ) : Bytes := if n = 0 then lit "0" else decimal n

/-- A name in `/proc`: a canonical numeral below `2^31`, or one that does not start like a
number. -/
def ProcName (name : Bytes) : Prop :=
  (0 : UInt8) ∉ name ∧ ((∃ n < 2 ^ 31, name = canonical n) ∨
    ∀ c ∈ name.head?, isspace c = false ∧ c ≠ 43 ∧ c ≠ 45 ∧ isDigit 10 c = false)

theorem canonical_of_pos {n : ℕ} (hn : 0 < n) (hlt : n < 2 ^ 31) :
    canonical n = (ProcEntry.process n hn hlt).name := if_neg hn.ne'

theorem procName_decimal {n : ℕ} (hn : 0 < n) (hlt : n < 2 ^ 31) : ProcName (decimal n) := by
  refine ⟨?_, Or.inl ⟨n, hlt, (if_neg hn.ne').symm⟩⟩
  intro hmem
  exact absurd ((decimal_digitsThen hn).digits 0 hmem) (by decide)

namespace ProcName

variable {name : Bytes} (h : ProcName name)

include h

/-- The names a scan does not skip are those of processes. -/
theorem cases_pidOf : (∀ impl, pidOf impl name = none) ∨
    ∃ e : ProcEntry, name = e.name ∧ e.pid?.isSome := by
  obtain ⟨-, ⟨n, hn, rfl⟩ | hplain⟩ := h
  · rcases Nat.eq_zero_or_pos n with rfl | hpos
    · left
      intro impl
      cases impl <;> decide +kernel
    · exact Or.inr ⟨.process n hpos hn, canonical_of_pos hpos hn, rfl⟩
  · exact Or.inl fun impl => pidOf_plain impl hplain

/-- **Both builds read the same pid off a name.** -/
theorem pidOf_eq : pidOf .asm name = pidOf .gnu name := by
  rcases h.cases_pidOf with hnone | ⟨e, rfl, -⟩
  · rw [hnone, hnone]
  · rw [pidOf_name, pidOf_name]

/-- The path of a process fits its array. -/
theorem length_le (hpid : 1 < parsePid name) : name.length ≤ 21 := by
  obtain ⟨-, ⟨n, hn, rfl⟩ | hplain⟩ := h
  · rcases Nat.eq_zero_or_pos n with rfl | hpos
    · decide
    · rw [canonical, if_neg hpos.ne', decimal, List.length_map, List.length_reverse]
      have : (Nat.digits 10 n).length ≤ 10 :=
        (Nat.digits_length_le_iff (by omega) n).2 (hn.trans (by decide))
      omega
  · cases name with
    | nil => exact Nat.zero_le _
    | cons c s =>
      obtain ⟨-, -, -, hdigit⟩ := hplain c rfl
      rw [parsePid, parsePidFrom, hdigit] at hpid
      cases hpid

/-- **Both builds make the same call of `kill` for a name.** -/
theorem scanName_eq (readlink : Bytes → Option Bytes) (inSig : ℕ) (rules : List SigRule) :
    scanName .asm readlink inSig rules name = scanName .gnu readlink inSig rules name := by
  rw [scanName, scanName, h.pidOf_eq]
  rcases h.cases_pidOf with hnone | ⟨e, rfl, hsome⟩
  · rw [hnone]
  · cases e with
    | other name plain => cases hsome
    | process pid pos lt =>
      rw [pidOf_name]
      by_cases h1 : 1 < pid
      · simp only [ProcEntry.pid?, Option.filter_some, h1, decide_true, ↓reduceIte,
          Option.map_some, exePath_name]
      · simp [ProcEntry.pid?, Option.filter, h1]

end ProcName

/-! ### Both builds -/

theorem foldl_toList {α β : Type} (f : α → Option β) (l : List α) (bs : List β) :
    l.foldl (fun bs a => bs ++ (f a).toList) bs = bs ++ l.filterMap f := by
  induction l generalizing bs with
  | nil => exact (List.append_nil bs).symm
  | cons a l ih => cases h : f a <;> simp [ih, h]

theorem foldl_count {α : Type} (p : α → Bool) (l : List α) (n : ℕ) :
    l.foldl (fun n a => n + if p a then 1 else 0) n = n + (l.filter p).length := by
  induction l generalizing n with
  | nil => rfl
  | cons a l ih => cases h : p a <;> simp [ih, h, Nat.add_assoc, Nat.add_comm 1]

section Agreement

variable (link : Bytes → Option Bytes) (inSig : ℕ) (rules : List SigRule)

/-- The loops on the buffers visit the names. -/
theorem Asm.procRemapSignal_eq (dirbuf : Vector UInt8 4096) (path : Vector UInt8 32)
    (linkbuf : Vector UInt8 256) {answers : List Answer}
    (hnames : ∀ name ∈ names answers, ProcName name) :
    Asm.procRemapSignal (storedLink link) inSig rules dirbuf path linkbuf (some answers) =
      some ((names answers).filterMap (scanName .asm (storedLink link) inSig rules)) := by
  obtain ⟨f, hf, hkills⟩ := Asm.forEachRecord_spec
    (Asm.remapName (storedLink link) inSig rules) (fun f kills => f.kills = kills)
    (fun kills name => kills ++ (scanName .asm (storedLink link) inSig rules name).toList)
    answers
    (fun name hname m f kills hkills => by
      obtain ⟨f', hf', hadd⟩ := Asm.exists_remapName link inSig rules (hnames name hname).1
        (hnames name hname).length_le m f
      exact ⟨f', hf', hkills ▸ hadd⟩)
    dirbuf (b := ⟨path, linkbuf, []⟩) (c := []) rfl
  rw [Asm.procRemapSignal, hf, Option.map_some, hkills, foldl_toList, List.nil_append]

theorem Asm.countDescendants_eq (dirbuf : Vector UInt8 4096) {answers : List Answer}
    (hnames : ∀ name ∈ names answers, ProcName name) :
    Asm.countDescendants dirbuf (some answers) =
      some ((names answers).filter fun name => (pidOf .asm name).isSome).length := by
  obtain ⟨count, hcount, heq⟩ := Asm.forEachRecord_spec Asm.countName Eq
    (fun count name => count + if (pidOf .asm name).isSome then 1 else 0) answers
    (fun name hname m count _ heq =>
      ⟨_, Asm.countName_append (hnames name hname).1 m count, heq ▸ rfl⟩)
    dirbuf (b := 0) (c := 0) rfl
  rw [Asm.countDescendants, hcount, heq, foldl_count, Nat.zero_add]

/-- **The model over entries is the scan on the buffers**, for what is sent. -/
theorem Asm.procRemapSignal_entries (v : ProcView) {l : Listing} (hl : v.listing = some l)
    (dirbuf : Vector UInt8 4096) (path : Vector UInt8 32) (linkbuf : Vector UInt8 256)
    {answers : List Answer} (hentries : names answers = l.entries.map ProcEntry.name)
    (hnames : ∀ name ∈ names answers, ProcName name) :
    Asm.procRemapSignal (storedLink v.link) inSig rules dirbuf path linkbuf (some answers) =
      some (Reaper.procRemapSignal .asm v inSig rules) := by
  rw [Asm.procRemapSignal_eq v.link inSig rules dirbuf path linkbuf hnames, hentries,
    List.filterMap_map, Reaper.procRemapSignal, hl]
  simp only [readEntries_eq, scanEntry_eq]
  rfl

/-- The same for what is counted. -/
theorem Asm.countDescendants_entries (v : ProcView) {l : Listing} (hl : v.listing = some l)
    (dirbuf : Vector UInt8 4096) {answers : List Answer}
    (hentries : names answers = l.entries.map ProcEntry.name)
    (hnames : ∀ name ∈ names answers, ProcName name) :
    Asm.countDescendants dirbuf (some answers) = some (Reaper.countDescendants .asm v) := by
  rw [Asm.countDescendants_eq dirbuf hnames, hentries, List.filter_map, List.length_map,
    Reaper.countDescendants, hl]
  simp only [readEntries_eq]
  rfl

/-- **The two scans agree.** -/
theorem scans_agree (dir : Option (List Answer)) (dirbuf dirbuf' : Vector UInt8 4096)
    (path : Vector UInt8 32) (linkbuf : Vector UInt8 256)
    (hnames : ∀ answers ∈ dir, ∀ name ∈ names answers, ProcName name) :
    Asm.procRemapSignal (storedLink link) inSig rules dirbuf path linkbuf dir =
        some (Gnu.procRemapSignal (storedLink link) inSig rules (dir.map names)) ∧
      Asm.countDescendants dirbuf' dir = some (Gnu.countDescendants (dir.map names)) := by
  cases dir with
  | none => exact ⟨rfl, rfl⟩
  | some answers =>
    have hnames := hnames answers rfl
    constructor
    · rw [Asm.procRemapSignal_eq link inSig rules dirbuf path linkbuf hnames]
      exact congrArg some (List.filterMap_congr fun name hname =>
        (hnames name hname).scanName_eq (storedLink link) inSig rules)
    · rw [Asm.countDescendants_eq dirbuf' hnames]
      refine congrArg (fun l => some (List.length l)) (List.filter_congr ?_)
      intro name hname
      rw [(hnames name hname).pidOf_eq]

end Agreement

/-- A record for a name, padded to a multiple of eight bytes. -/
def record (name : Bytes) : Dirent64 where
  dIno := Vector.replicate 8 1
  dOff := Vector.replicate 8 2
  dType := 4
  dName := name
  pad := List.replicate ((12 - name.length) % 8) 0

/-- Two answers with four names, one of them a worker. -/
def workerAnswers : List Answer :=
  [⟨[record (lit "."), record (lit "1")], by simp, by decide +kernel⟩,
    ⟨[record (lit "7"), record (lit "self")], by simp, by decide +kernel⟩]

theorem procName_workerAnswers : ∀ name ∈ names workerAnswers, ProcName name := by
  have h : names workerAnswers = [lit ".", canonical 1, canonical 7, lit "self"] := by
    decide +kernel
  simp only [h, List.forall_mem_cons]
  refine ⟨⟨by decide +kernel, Or.inr (by decide +kernel)⟩,
    ⟨by decide +kernel, Or.inl ⟨1, by decide, rfl⟩⟩,
    ⟨by decide +kernel, Or.inl ⟨7, by decide, rfl⟩⟩,
    ⟨by decide +kernel, Or.inr (by decide +kernel)⟩, by simp⟩

theorem scans_agree_worker :
    Asm.procRemapSignal (storedLink fun _ => some (lit "/usr/sbin/php-fpm8.4")) SIGTERM
        (rulesFor SIGTERM) (Vector.replicate 4096 65) (Vector.replicate 32 66)
        (Vector.replicate 256 67) (some workerAnswers) = some [(7, SIGQUIT)] ∧
      Asm.countDescendants (Vector.replicate 4096 65) (some workerAnswers) = some 1 := by
  obtain ⟨hkills, hcount⟩ := scans_agree (fun _ => some (lit "/usr/sbin/php-fpm8.4")) SIGTERM
    (rulesFor SIGTERM) (some workerAnswers) (Vector.replicate 4096 65) (Vector.replicate 4096 65)
    (Vector.replicate 32 66) (Vector.replicate 256 67)
    (by rintro answers ⟨⟩; exact procName_workerAnswers)
  exact ⟨hkills.trans (by decide +kernel), hcount.trans (by decide +kernel)⟩

end Reaper

end TuxDock
