import Mathlib.Data.List.Find
import TuxDock.Text.Bytes

/-!
# Scanning `/proc`

`proc_remap_signal` and `count_descendants` of the two builds of the reaper: `tuxreaperdgnu.c`
over libc and the freestanding `tuxreaperdasm.c`.  Both walk the entries of `/proc`, read where
`/proc/<pid>/exe` points and send each process one signal, translated by the first rule that
matches its executable.  They differ in how they read the directory and parse a name.

* `pidOf_name` : both builds read the same pid off an entry;
* `sentSig_take` : the 255 bytes `readlink` stores are enough to match the rules exactly;
* `broadcast_total_iff` : **a scan signals every process as the rules say exactly when every
  executable can be read**.  A process whose link is not readable is skipped.
-/

namespace TuxDock

namespace Reaper

open Text

/-- The two builds of the reaper. -/
inductive Impl where
  | gnu
  | asm
  deriving Repr, DecidableEq

/-! ### Signals and rules -/

/-- The terminal has hung up. -/
def SIGHUP : ℕ := 1

/-- An interrupt from the keyboard. -/
def SIGINT : ℕ := 2

/-- The request to quit, at which nginx and PHP-FPM finish what they do. -/
def SIGQUIT : ℕ := 3

/-- The first signal without a meaning. -/
def SIGUSR1 : ℕ := 10

/-- The second one. -/
def SIGUSR2 : ℕ := 12

/-- The request to end. -/
def SIGTERM : ℕ := 15

/-- A child has exited. -/
def SIGCHLD : ℕ := 17

/-- Another size of the window, at which Apache finishes what it does. -/
def SIGWINCH : ℕ := 28

/-- `struct sig_rule`. -/
structure SigRule where
  targetExes : List Bytes
  outSig : ℕ
  prefixMatch : Bool
  deriving Repr, DecidableEq

/-- The executables of Apache. -/
def apacheExes : List Bytes :=
  [lit "/usr/sbin/apache2", lit "/usr/sbin/httpd", lit "/usr/local/apache2/bin/httpd"]

/-- The executables of nginx. -/
def nginxExes : List Bytes := [lit "/usr/sbin/nginx", lit "/usr/local/nginx/sbin/nginx"]

/-- The executables of PHP-FPM. -/
def phpfpmExes : List Bytes := [lit "/usr/sbin/php-fpm", lit "/usr/local/sbin/php-fpm"]

/-- The rule table `handle_pending_signals` builds for a signal.  The three `IN_SIG` constants are
all `SIGTERM`. -/
def rulesFor (sig : ℕ) : List SigRule :=
  (if sig = SIGTERM then [⟨apacheExes, SIGWINCH, false⟩] else []) ++
  (if sig = SIGTERM then [⟨nginxExes, SIGQUIT, false⟩] else []) ++
  (if sig = SIGTERM then [⟨phpfpmExes, SIGQUIT, true⟩] else [])

/-! ### Strings of C -/

/-- `strcmp`, and `my_strcmp` of the freestanding build, on two buffers with a NUL after each. -/
def strcmp : Bytes → Bytes → ℤ
  | [], [] => 0
  | [], b :: _ => -(b.toNat : ℤ)
  | a :: _, [] => a.toNat
  | a :: s, b :: t => if a ≠ 0 ∧ a = b then strcmp s t else (a.toNat : ℤ) - b.toNat

/-- `strncmp`, and `my_strncmp` of the freestanding build. -/
def strncmp (s t : Bytes) : ℕ → ℤ
  | 0 => 0
  | n + 1 =>
    if s.headD 0 ≠ t.headD 0 then ((s.headD 0).toNat : ℤ) - (t.headD 0).toNat
    else if s.headD 0 = 0 then 0
    else strncmp s.tail t.tail n

/-- `strlen` of a buffer with a NUL after it. -/
def strlen (s : Bytes) : ℕ := (s.takeWhile (· ≠ 0)).length

/-- `strtol(s, &endptr, 10)`: the value and what `endptr` points to. -/
def strtol (s : Bytes) : ℤ × Bytes :=
  let (negative, t) := sign (s.dropWhile isspace)
  let v : ℤ := numeral 10 (t.takeWhile (isDigit 10))
  if t.takeWhile (isDigit 10) = [] then (0, s)
  else (if negative then max (-v) (-2 ^ 63) else min v (2 ^ 63 - 1), t.dropWhile (isDigit 10))

/-- The loop of `parse_pid`; a `long` holds every pid. -/
def parsePidFrom (pid : ℤ) : Bytes → ℤ
  | [] => pid
  | c :: s => if isDigit 10 c then parsePidFrom (pid * 10 + digitVal c) s else -1

/-- `parse_pid`. -/
def parsePid (s : Bytes) : ℤ := parsePidFrom 0 s

/-- A positive number as `%ld` prints it. -/
def decimal (n : ℕ) : Bytes := (Nat.digits 10 n).reverse.map fun d => UInt8.ofNat (48 + d)

/-! ### The directory -/

/-- An entry of `/proc`: a process, or a name that does not start like a number. -/
inductive ProcEntry where
  | process (pid : ℕ) (pos : 0 < pid) (lt : pid < 2 ^ 31)
  | other (name : Bytes)
      (plain : ∀ c ∈ name.head?, isspace c = false ∧ c ≠ 43 ∧ c ≠ 45 ∧ isDigit 10 c = false)

/-- The name of the entry. -/
def ProcEntry.name : ProcEntry → Bytes
  | process pid _ _ => decimal pid
  | other name _ => name

/-- The process of an entry. -/
def ProcEntry.pid? : ProcEntry → Option ℕ
  | process pid _ _ => some pid
  | other _ _ => none

/-- The entries of `/proc` in the buffers `getdents64` fills; an empty one is the end. -/
structure Listing where
  batches : List (List ProcEntry)
  batches_ne : ∀ b ∈ batches, b ≠ []

/-- The entries in the order they are read. -/
def Listing.entries (l : Listing) : List ProcEntry := l.batches.flatten

/-- What a scan finds: the directory if it can be opened, and where a link points if it can be
read. -/
structure ProcView where
  listing : Option Listing
  link : Bytes → Option Bytes
  link_nul : ∀ p t, link p = some t → (0 : UInt8) ∉ t

/-- `readlink(path, linkbuf, 255)`; `none` for an error. -/
def ProcView.readlink (v : ProcView) (path : Bytes) : Option Bytes := (v.link path).map (·.take 255)

/-! ### The scan -/

/-- The pid of an entry the scans do not skip. -/
def pidOf : Impl → Bytes → Option ℤ
  | .gnu, name =>
    if name.head? = some 46 then none
    else if (strtol name).2 ≠ [] ∨ (strtol name).1 ≤ 1 then none
    else some (strtol name).1
  | .asm, name =>
    if name.head? = some 46 then none
    else if parsePid name ≤ 1 then none
    else some (parsePid name)

/-- The path of the link to an executable: printed from the pid, or spliced from the name. -/
def exePath : Impl → Bytes → ℤ → Bytes
  | .gnu, _, pid => lit "/proc/" ++ decimal pid.toNat ++ lit "/exe"
  | .asm, name, _ => lit "/proc/" ++ name ++ lit "/exe"

/-- The loop over the targets of a rule. -/
def ruleMatches (linkbuf : Bytes) (rule : SigRule) : Bool :=
  rule.targetExes.any fun target =>
    if rule.prefixMatch then
      strlen target ≤ linkbuf.length && strncmp linkbuf target (strlen target) == 0
    else linkbuf.length == strlen target && strcmp linkbuf target == 0

/-- The loop over the rules. -/
def sentSig (inSig : ℕ) (rules : List SigRule) (linkbuf : Bytes) : ℕ :=
  ((rules.find? (ruleMatches linkbuf)).map SigRule.outSig).getD inSig

/-- The `kill` for one entry, if there is one. -/
def scanEntry (impl : Impl) (v : ProcView) (inSig : ℕ) (rules : List SigRule) (name : Bytes) :
    Option (ℤ × ℕ) :=
  match pidOf impl name with
  | none => none
  | some pid =>
    match v.readlink (exePath impl name pid) with
    -- `continue`: the process gets no signal
    | none => none
    | some [] => none
    | some (c :: link) => some (pid, sentSig inSig rules (c :: link))

/-- The entries in the order a build reads them: one by one, or buffer by buffer up to an empty
one. -/
def readEntries : Impl → Listing → List ProcEntry
  | .gnu, l => l.batches.flatten
  -- `getdents64` answers no bytes at the end
  | .asm, l => (l.batches.takeWhile (! ·.isEmpty)).flatten

/-- `proc_remap_signal`: the calls of `kill`, in order. -/
def procRemapSignal (impl : Impl) (v : ProcView) (inSig : ℕ) (rules : List SigRule) :
    List (ℤ × ℕ) :=
  match v.listing with
  | none => []
  | some l => (readEntries impl l).filterMap fun e => scanEntry impl v inSig rules e.name

/-- `count_descendants`. -/
def countDescendants (impl : Impl) (v : ProcView) : ℕ :=
  match v.listing with
  | none => 0
  | some l => ((readEntries impl l).filter fun e => (pidOf impl e.name).isSome).length

/-! ### Names and pids -/

theorem isDigit_digit {d : ℕ} (hd : d < 10) :
    isDigit 10 (UInt8.ofNat (48 + d)) = true ∧ digitVal (UInt8.ofNat (48 + d)) = d := by
  have hn : (UInt8.ofNat (48 + d)).toNat = 48 + d := by
    rw [UInt8.toNat_ofNat']
    exact Nat.mod_eq_of_lt (by omega)
  have hv : digitVal (UInt8.ofNat (48 + d)) = d := by
    rw [digitVal, hn, if_pos (by omega)]
    omega
  exact ⟨by rw [isDigit, hv, decide_eq_true_eq]; exact hd, hv⟩

theorem decimal_digitsThen {n : ℕ} (hn : 0 < n) : DigitsThen 10 (decimal n) [] := by
  refine ⟨?_, ?_, by simp⟩
  · intro c hc
    obtain ⟨d, hd, rfl⟩ := List.mem_map.1 hc
    exact (isDigit_digit (Nat.digits_lt_base (by omega) (List.mem_reverse.1 hd))).1
  · have := Nat.digits_ne_nil_iff_ne_zero (b := 10) |>.2 hn.ne'
    simpa [decimal] using this

theorem numeral_decimal (n : ℕ) : numeral 10 (decimal n) = n := by
  have hmap : (decimal n).map digitVal = (Nat.digits 10 n).reverse := by
    rw [decimal, List.map_map]
    refine (List.map_congr_left fun d hd => ?_).trans (List.map_id _)
    exact (isDigit_digit (Nat.digits_lt_base (by omega) (List.mem_reverse.1 hd))).2
  rw [numeral, hmap, List.reverse_reverse, Nat.ofDigits_digits]

theorem strtol_decimal {n : ℕ} (hn : 0 < n) (hlt : n < 2 ^ 31) :
    strtol (decimal n) = ((n : ℤ), []) := by
  have h := decimal_digitsThen hn
  have hb : 10 ≤ 36 := by omega
  have hblank := h.dropWhile_isspace hb
  have hsign := h.sign_eq hb
  have htake := h.takeWhile_eq hb
  rw [List.append_nil] at hblank hsign htake
  have hdrop : (decimal n).dropWhile (isDigit 10) = [] := List.dropWhile_eq_nil_iff.2 h.digits
  simp only [strtol, hblank, hsign, htake, h.ne_nil, hdrop, numeral_decimal, ↓reduceIte,
    Bool.false_eq_true, Prod.mk.injEq, and_true]
  omega

theorem parsePidFrom_digits {s : Bytes} (h : ∀ c ∈ s, isDigit 10 c = true) (pid : ℕ) :
    parsePidFrom pid s = (s.map digitVal).foldl (fun n d => n * 10 + d) pid := by
  induction s generalizing pid with
  | nil => rfl
  | cons c s ih =>
    rw [List.forall_mem_cons] at h
    rw [parsePidFrom, if_pos h.1, List.map_cons, List.foldl_cons]
    exact_mod_cast ih h.2 (pid * 10 + digitVal c)

theorem parsePid_decimal {n : ℕ} (hn : 0 < n) : parsePid (decimal n) = n := by
  have hfold : numeral 10 (decimal n) =
      ((decimal n).map digitVal).foldl (fun n d => n * 10 + d) 0 := by
    rw [numeral, Nat.ofDigits_eq_foldr, List.foldr_reverse]
    congr 1
    funext a d
    simp only [Nat.cast_id]
    omega
  have h := parsePidFrom_digits (decimal_digitsThen hn).digits 0
  rw [← hfold, numeral_decimal] at h
  exact h

/-- A name that does not start like a number is no pid to either build. -/
theorem pidOf_plain (impl : Impl) {name : Bytes}
    (h : ∀ c ∈ name.head?, isspace c = false ∧ c ≠ 43 ∧ c ≠ 45 ∧ isDigit 10 c = false) :
    pidOf impl name = none := by
  cases name with
  | nil => cases impl <;> decide
  | cons c s =>
    obtain ⟨hspace, hplus, hminus, hdigit⟩ := h c (by simp)
    cases impl with
    | gnu =>
      have hstr : strtol (c :: s) = (0, c :: s) := by
        simp [strtol, hspace, sign, hplus, hminus, hdigit]
      simp [pidOf, hstr]
    | asm => simp [pidOf, parsePid, parsePidFrom, hdigit]

/-- **Both builds read the same pid off an entry**, and skip pid 1. -/
theorem pidOf_name (impl : Impl) (e : ProcEntry) :
    pidOf impl e.name = (e.pid?.filter (1 < ·)).map (fun n : ℕ => (n : ℤ)) := by
  cases e with
  | other name plain => exact pidOf_plain impl plain
  | process pid pos lt =>
    have hdot : (decimal pid).head? ≠ some 46 := by
      intro hhead
      have hmem : (46 : UInt8) ∈ decimal pid := List.mem_of_mem_head? hhead
      exact absurd ((decimal_digitsThen pos).digits 46 hmem) (by decide)
    cases impl with
    | gnu =>
      simp only [ProcEntry.name, ProcEntry.pid?, pidOf, hdot, strtol_decimal pos lt, Option.filter,
        ↓reduceIte, ne_eq, not_true_eq_false, false_or, decide_eq_true_eq]
      split_ifs <;> first | omega | rfl
    | asm =>
      simp only [ProcEntry.name, ProcEntry.pid?, pidOf, hdot, parsePid_decimal pos, Option.filter,
        ↓reduceIte, decide_eq_true_eq]
      split_ifs <;> first | omega | rfl

theorem readEntries_eq (impl : Impl) (l : Listing) : readEntries impl l = l.entries := by
  cases impl with
  | gnu => rfl
  | asm =>
    have hall : l.batches.takeWhile (! ·.isEmpty) = l.batches :=
      List.takeWhile_eq_self_iff.2 fun b hb => by simp [l.batches_ne b hb]
    rw [readEntries, hall, Listing.entries]

/-! ### Matching -/

theorem strlen_eq {s : Bytes} (h : (0 : UInt8) ∉ s) : strlen s = s.length := by
  rw [strlen, List.takeWhile_eq_self_iff.2 fun c hc => ?_]
  exact decide_eq_true fun h0 => h (h0 ▸ hc)

theorem strcmp_eq_zero {s t : Bytes} (hs : (0 : UInt8) ∉ s) (ht : (0 : UInt8) ∉ t) :
    strcmp s t = 0 ↔ s = t := by
  induction s generalizing t with
  | nil =>
    cases t with
    | nil => simp [strcmp]
    | cons b t =>
      have hb : b ≠ 0 := fun h => ht (by simp [h])
      simpa [strcmp, UInt8.toNat_inj, ← UInt8.toNat_inj] using hb
  | cons a s ih =>
    rw [List.mem_cons, not_or] at hs
    cases t with
    | nil =>
      have ha : a ≠ 0 := fun h => hs.1 h.symm
      simpa [strcmp, ← UInt8.toNat_inj] using ha
    | cons b t =>
      rw [List.mem_cons, not_or] at ht
      rw [strcmp]
      split_ifs with h
      · rw [ih hs.2 ht.2, h.2, List.cons_inj_right]
      · have hab : a ≠ b := fun hab => h ⟨fun h0 => hs.1 h0.symm, hab⟩
        have hne : a.toNat ≠ b.toNat := fun h => hab (UInt8.toNat_inj.1 h)
        simp only [List.cons.injEq, hab, false_and, iff_false]
        omega

theorem strncmp_eq_zero {s t : Bytes} (ht : (0 : UInt8) ∉ t) :
    strncmp s t t.length = 0 ↔ t <+: s := by
  induction t generalizing s with
  | nil => simp [strncmp]
  | cons b t ih =>
    rw [List.mem_cons, not_or] at ht
    have hb : b ≠ 0 := fun h => ht.1 h.symm
    cases s with
    | nil =>
      have hne : b.toNat ≠ 0 := fun h => hb (UInt8.toNat_inj.1 h)
      simp [strncmp, hb.symm, hne]
    | cons a s =>
      rw [List.length_cons, strncmp, List.cons_prefix_cons]
      by_cases hab : a = b
      · subst hab
        simpa [hb] using ih ht.2
      · have hne : a.toNat ≠ b.toNat := fun h => hab (UInt8.toNat_inj.1 h)
        simp only [List.headD_cons, ne_eq, hab, not_false_eq_true, ↓reduceIte, Ne.symm hab,
          false_and, iff_false]
        omega

/-- What a rule says about an executable: one of its targets is the path, or begins it. -/
def SigRule.Matches (rule : SigRule) (path : Bytes) : Prop :=
  ∃ target ∈ rule.targetExes, if rule.prefixMatch then target <+: path else target = path

instance (rule : SigRule) (path : Bytes) : Decidable (rule.Matches path) :=
  inferInstanceAs (Decidable (∃ target ∈ rule.targetExes, _))

/-- The signal the rules give an executable, the original one if no rule matches. -/
def expectedSig (inSig : ℕ) (rules : List SigRule) (path : Bytes) : ℕ :=
  ((rules.find? fun rule => rule.Matches path).map SigRule.outSig).getD inSig

/-- The targets of the rules are paths that fit the buffer of `readlink`. -/
def ShortTargets (rules : List SigRule) : Prop :=
  ∀ rule ∈ rules, ∀ target ∈ rule.targetExes, (0 : UInt8) ∉ target ∧ target.length < 255

theorem shortTargets_rulesFor (sig : ℕ) : ShortTargets (rulesFor sig) := by
  by_cases h : sig = SIGTERM
  · subst h
    unfold ShortTargets
    decide
  · simp [rulesFor, h, ShortTargets]

theorem ruleMatches_take {rule : SigRule}
    (hshort : ∀ target ∈ rule.targetExes, (0 : UInt8) ∉ target ∧ target.length < 255)
    {path : Bytes} (hpath : (0 : UInt8) ∉ path) :
    ruleMatches (path.take 255) rule = true ↔ rule.Matches path := by
  have htake : (0 : UInt8) ∉ path.take 255 := fun h => hpath (List.mem_of_mem_take h)
  rw [ruleMatches, List.any_eq_true, SigRule.Matches]
  refine exists_congr fun target => and_congr_right ?_
  intro htarget
  obtain ⟨hnul, hlen⟩ := hshort target htarget
  rw [strlen_eq hnul]
  split_ifs with hprefix
  · rw [Bool.and_eq_true, decide_eq_true_eq, beq_iff_eq, strncmp_eq_zero hnul]
    constructor
    · intro h
      exact h.2.trans (List.take_prefix _ _)
    · intro h
      have hcut : target <+: path.take 255 := List.prefix_take_iff.2 ⟨h, by omega⟩
      exact ⟨hcut.length_le, hcut⟩
  · rw [Bool.and_eq_true, beq_iff_eq, beq_iff_eq, strcmp_eq_zero htake hnul]
    constructor
    · rintro ⟨hlength, heq⟩
      -- a stored path shorter than the buffer is the whole path
      rw [List.length_take] at hlength
      rw [← heq, List.take_of_length_le (by omega)]
    · rintro rfl
      rw [List.take_of_length_le (by omega)]
      exact ⟨rfl, rfl⟩

/-- **The stored bytes are enough**: the loop over the rules finds the first that matches the
path. -/
theorem sentSig_take (inSig : ℕ) {rules : List SigRule} (hshort : ShortTargets rules)
    {path : Bytes} (hpath : (0 : UInt8) ∉ path) :
    sentSig inSig rules (path.take 255) = expectedSig inSig rules path := by
  have hfind : rules.find? (ruleMatches (path.take 255)) =
      rules.find? fun rule => rule.Matches path :=
    List.find?_congr fun rule hr => by
      rw [Bool.eq_iff_iff, decide_eq_true_eq, ruleMatches_take (hshort rule hr) hpath]
  rw [sentSig, expectedSig, hfind]

/-! ### What a scan sends -/

/-- The processes a scan is for: all that are listed but pid 1. -/
def Listing.targets (l : Listing) : List ℕ := l.entries.filterMap fun e => e.pid?.filter (1 < ·)

/-- The executable of a process, if it can be read. -/
def ProcView.exe (v : ProcView) (pid : ℕ) : Option Bytes :=
  v.link (lit "/proc/" ++ decimal pid ++ lit "/exe")

/-- What a process should be sent: the original signal also when its executable is unknown. -/
def ProcView.signalFor (v : ProcView) (inSig : ℕ) (rules : List SigRule) (pid : ℕ) : ℕ :=
  match v.exe pid with
  | none => inSig
  | some path => expectedSig inSig rules path

/-- `readlink` stores at least one byte of the path of the executable. -/
def ProcView.ExeReadable (v : ProcView) (pid : ℕ) : Prop :=
  ∃ path, v.exe pid = some path ∧ path ≠ []

/-- The scan of one process: a signal if its executable is readable, and nothing if not. -/
def ProcView.killFor (v : ProcView) (inSig : ℕ) (rules : List SigRule) (pid : ℕ) :
    Option (ℤ × ℕ) :=
  ((v.exe pid).filter (· ≠ [])).map fun _ => (pid, v.signalFor inSig rules pid)

theorem ProcView.killFor_eq_some_iff {v : ProcView} {inSig : ℕ} {rules : List SigRule} {pid : ℕ} :
    v.killFor inSig rules pid = some ((pid : ℤ), v.signalFor inSig rules pid) ↔
      v.ExeReadable pid := by
  rw [killFor, ExeReadable]
  cases v.exe pid <;> simp [Option.filter]

theorem exePath_name (impl : Impl) {pid : ℕ} (pos : 0 < pid) (lt : pid < 2 ^ 31) :
    exePath impl (ProcEntry.process pid pos lt).name pid =
      lit "/proc/" ++ decimal pid ++ lit "/exe" := by
  cases impl <;> rfl

theorem scanEntry_name (impl : Impl) (v : ProcView) (inSig : ℕ) {rules : List SigRule}
    (hshort : ShortTargets rules) (e : ProcEntry) :
    scanEntry impl v inSig rules e.name =
      (e.pid?.filter (1 < ·)).bind (v.killFor inSig rules) := by
  rw [scanEntry, pidOf_name]
  cases e with
  | other name plain => rfl
  | process pid pos lt =>
    by_cases h1 : 1 < pid
    · simp only [ProcEntry.pid?, Option.filter_some, h1, decide_true, ↓reduceIte, Option.map_some,
        Option.bind_some, exePath_name, ProcView.readlink, ProcView.killFor, ProcView.signalFor,
        ProcView.exe]
      cases hexe : v.link (lit "/proc/" ++ decimal pid ++ lit "/exe") with
      | none => rfl
      | some path =>
        rcases path with _ | ⟨c, path⟩
        · rfl
        · have hsig := sentSig_take inSig hshort (v.link_nul _ _ hexe)
          simpa using hsig.symm
    · simp [ProcEntry.pid?, Option.filter, h1]

/-- **A scan goes over the processes listed**, in their order. -/
theorem procRemapSignal_eq (impl : Impl) {v : ProcView} {l : Listing} (hl : v.listing = some l)
    (inSig : ℕ) {rules : List SigRule} (hshort : ShortTargets rules) :
    procRemapSignal impl v inSig rules = l.targets.filterMap (v.killFor inSig rules) := by
  simp only [procRemapSignal, hl, readEntries_eq, scanEntry_name impl v inSig hshort,
    Listing.targets, List.filterMap_filterMap]

/-- **Broadcast totality.**  A scan sends each listed process but pid 1 one signal, the one the
rules give its executable, if and only if all these executables are readable. -/
theorem broadcast_total_iff (impl : Impl) (v : ProcView) (l : Listing) (hl : v.listing = some l)
    (sig : ℕ) :
    procRemapSignal impl v sig (rulesFor sig) =
        l.targets.map (fun pid : ℕ => ((pid : ℤ), v.signalFor sig (rulesFor sig) pid)) ↔
      ∀ pid ∈ l.targets, v.ExeReadable pid := by
  rw [procRemapSignal_eq impl hl sig (shortTargets_rulesFor sig),
    List.filterMap_eq_map_iff_forall_eq_some]
  exact forall₂_congr fun pid _ => ProcView.killFor_eq_some_iff

/-- A `/proc` that lists pid 1 and pid 7. -/
def workerListing : Listing where
  batches := [[.process 1 (by decide) (by decide), .process 7 (by decide) (by decide)]]
  batches_ne := by simp

/-- The worker runs `/usr/sbin/php-fpm8.4`. -/
def fpmView : ProcView where
  listing := some workerListing
  link := fun _ => some (lit "/usr/sbin/php-fpm8.4")
  link_nul := by
    rintro p t ⟨⟩
    decide

/-- The worker runs as another user, and its executable cannot be read. -/
def deniedView : ProcView where
  listing := some workerListing
  link := fun _ => none
  link_nul := by simp

/-- Only the reaper itself is listed. -/
def initView : ProcView where
  listing := some ⟨[[.process 1 (by decide) (by decide)]], by simp⟩
  link := fun _ => none
  link_nul := by simp

theorem broadcast_total_fpm :
    procRemapSignal .asm fpmView SIGTERM (rulesFor SIGTERM) = [(7, SIGQUIT)] := by
  refine ((broadcast_total_iff .asm fpmView workerListing rfl SIGTERM).2 ?_).trans
    (by decide +kernel)
  exact fun pid _ => ⟨lit "/usr/sbin/php-fpm8.4", rfl, by decide⟩

/-- **A worker with an unreadable executable is sent nothing**, where `SIGTERM` was due. -/
theorem broadcast_skips_worker :
    procRemapSignal .gnu deniedView SIGTERM (rulesFor SIGTERM) = [] ∧
      procRemapSignal .asm deniedView SIGTERM (rulesFor SIGTERM) = [] ∧
      workerListing.targets.map
          (fun pid : ℕ => ((pid : ℤ), deniedView.signalFor SIGTERM (rulesFor SIGTERM) pid)) =
        [(7, SIGTERM)] := by
  decide +kernel

end Reaper

end TuxDock
