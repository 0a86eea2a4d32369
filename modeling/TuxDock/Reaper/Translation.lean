import TuxDock.Reaper.Getdents
import TuxDock.Reaper.Supervisor

/-!
# Which signal a process is sent

The rules of `handle_pending_signals` against the path of an executable.  `readlink` stores 255
bytes of it, the targets are shorter, and no path matches two rules that send different signals.

* `expectedSig_perm` : rules that do not contradict each other select the same signal in every
  order;
* `translation_exact` : **`SIGTERM` becomes `SIGWINCH` for Apache and `SIGQUIT` for nginx and
  PHP-FPM, by the full path**, in both builds and for every order of the rules.
-/

namespace TuxDock

namespace Reaper

open Text

/-- The calls of `kill` in the turn of the loop for a name.  `f` and `stale` are what the arrays of
the freestanding build and the memory behind the name hold. -/
def turn (impl : Impl) (readlink : Bytes → Option Bytes) (f : Asm.Locals) (stale : Bytes)
    (inSig : ℕ) (rules : List SigRule) (name : Bytes) : Option (List (ℤ × ℕ)) :=
  match impl with
  | .gnu => some (scanName .gnu readlink inSig rules name).toList
  | .asm =>
    (Asm.remapName readlink inSig rules (name ++ 0 :: stale) { f with kills := [] }).map
      Asm.Locals.kills

/-! ### Rules -/

/-- Rules that match one path send it one signal. -/
def Consistent (rules : List SigRule) (path : Bytes) : Prop :=
  ∀ rule ∈ rules, ∀ rule' ∈ rules, rule.Matches path → rule'.Matches path →
    rule.outSig = rule'.outSig

theorem expectedSig_of_matches {rules : List SigRule} {path : Bytes} (hc : Consistent rules path)
    (inSig : ℕ) {rule : SigRule} (hrule : rule ∈ rules) (hmatches : rule.Matches path) :
    expectedSig inSig rules path = rule.outSig := by
  rw [expectedSig]
  cases hfind : rules.find? fun rule => rule.Matches path with
  | none =>
    have hno := List.find?_eq_none.1 hfind rule hrule
    exact absurd (decide_eq_true hmatches) hno
  | some rule' =>
    have hmem := List.mem_of_find?_eq_some hfind
    have hmatches' : rule'.Matches path := by simpa using List.find?_some hfind
    exact hc rule' hmem rule hrule hmatches' hmatches

theorem expectedSig_of_not_matches {rules : List SigRule} {path : Bytes} (inSig : ℕ)
    (h : ∀ rule ∈ rules, ¬ rule.Matches path) : expectedSig inSig rules path = inSig := by
  have hfind : (rules.find? fun rule => rule.Matches path) = none := by
    refine List.find?_eq_none.2 ?_
    intro rule hrule
    simpa using h rule hrule
  rw [expectedSig, hfind]
  rfl

/-- **Consistent rules select the same signal in every order.** -/
theorem expectedSig_perm {rules rules' : List SigRule} {path : Bytes} (hperm : rules.Perm rules')
    (hc : Consistent rules path) (inSig : ℕ) :
    expectedSig inSig rules' path = expectedSig inSig rules path := by
  have hc' : Consistent rules' path := by
    simpa only [Consistent, hperm.mem_iff] using hc
  by_cases h : ∃ rule ∈ rules, rule.Matches path
  · obtain ⟨rule, hrule, hmatches⟩ := h
    rw [expectedSig_of_matches hc inSig hrule hmatches,
      expectedSig_of_matches hc' inSig (hperm.mem_iff.1 hrule) hmatches]
  · have hno : ∀ rule ∈ rules, ¬ rule.Matches path := by simpa using h
    rw [expectedSig_of_not_matches inSig hno,
      expectedSig_of_not_matches inSig fun rule hrule => hno rule (hperm.mem_iff.2 hrule)]

/-! ### The rules for `SIGTERM` -/

/-- A path of nginx or PHP-FPM. -/
def QuitPath (path : Bytes) : Prop := path ∈ nginxExes ∨ ∃ target ∈ phpfpmExes, target <+: path

theorem not_quitPath_of_apache : ∀ path ∈ apacheExes, ¬ QuitPath path := by
  unfold QuitPath
  decide +kernel

theorem rulesFor_term : rulesFor SIGTERM =
    [⟨apacheExes, SIGWINCH, false⟩, ⟨nginxExes, SIGQUIT, false⟩, ⟨phpfpmExes, SIGQUIT, true⟩] :=
  rfl

theorem apache_mem : ⟨apacheExes, SIGWINCH, false⟩ ∈ rulesFor SIGTERM := by simp [rulesFor_term]

theorem nginx_mem : ⟨nginxExes, SIGQUIT, false⟩ ∈ rulesFor SIGTERM := by simp [rulesFor_term]

theorem phpfpm_mem : ⟨phpfpmExes, SIGQUIT, true⟩ ∈ rulesFor SIGTERM := by simp [rulesFor_term]

theorem matches_exact {targets : List Bytes} {outSig : ℕ} {path : Bytes} :
    SigRule.Matches ⟨targets, outSig, false⟩ path ↔ path ∈ targets := by
  simp [SigRule.Matches]

theorem matches_begins {targets : List Bytes} {outSig : ℕ} {path : Bytes} :
    SigRule.Matches ⟨targets, outSig, true⟩ path ↔ ∃ target ∈ targets, target <+: path := by
  simp [SigRule.Matches]

/-- What a rule for `SIGTERM` does. -/
theorem term_cases {rule : SigRule} {path : Bytes} (hrule : rule ∈ rulesFor SIGTERM)
    (hmatches : rule.Matches path) :
    path ∈ apacheExes ∧ rule.outSig = SIGWINCH ∨ QuitPath path ∧ rule.outSig = SIGQUIT := by
  rw [rulesFor_term, List.mem_cons, List.mem_cons, List.mem_singleton] at hrule
  rcases hrule with rfl | rfl | rfl
  · exact Or.inl ⟨matches_exact.1 hmatches, rfl⟩
  · exact Or.inr ⟨Or.inl (matches_exact.1 hmatches), rfl⟩
  · exact Or.inr ⟨Or.inr (matches_begins.1 hmatches), rfl⟩

/-- **No path is of Apache and of nginx or PHP-FPM.** -/
theorem consistent_term (path : Bytes) : Consistent (rulesFor SIGTERM) path := by
  intro rule hrule rule' hrule' hmatches hmatches'
  rcases term_cases hrule hmatches with ⟨h, hsig⟩ | ⟨h, hsig⟩ <;>
    rcases term_cases hrule' hmatches' with ⟨h', hsig'⟩ | ⟨h', hsig'⟩
  · exact hsig.trans hsig'.symm
  · exact absurd h' (not_quitPath_of_apache path h)
  · exact absurd h (not_quitPath_of_apache path h')
  · exact hsig.trans hsig'.symm

theorem expectedSig_apache {path : Bytes} (h : path ∈ apacheExes) :
    expectedSig SIGTERM (rulesFor SIGTERM) path = SIGWINCH :=
  expectedSig_of_matches (consistent_term path) SIGTERM apache_mem (matches_exact.2 h)

theorem expectedSig_quitPath {path : Bytes} (h : QuitPath path) :
    expectedSig SIGTERM (rulesFor SIGTERM) path = SIGQUIT := by
  rcases h with h | h
  · exact expectedSig_of_matches (consistent_term path) SIGTERM nginx_mem (matches_exact.2 h)
  · exact expectedSig_of_matches (consistent_term path) SIGTERM phpfpm_mem (matches_begins.2 h)

theorem expectedSig_other {path : Bytes} (hapache : path ∉ apacheExes) (hquit : ¬ QuitPath path) :
    expectedSig SIGTERM (rulesFor SIGTERM) path = SIGTERM := by
  refine expectedSig_of_not_matches SIGTERM ?_
  intro rule hrule hmatches
  rcases term_cases hrule hmatches with ⟨h, -⟩ | ⟨h, -⟩
  · exact hapache h
  · exact hquit h

/-- **The signal a scan for `SIGTERM` selects**, by the full path. -/
theorem expectedSig_term (path : Bytes) :
    (expectedSig SIGTERM (rulesFor SIGTERM) path = SIGWINCH ↔ path ∈ apacheExes) ∧
      (expectedSig SIGTERM (rulesFor SIGTERM) path = SIGQUIT ↔ QuitPath path) ∧
      (expectedSig SIGTERM (rulesFor SIGTERM) path = SIGTERM ↔
        path ∉ apacheExes ∧ ¬ QuitPath path) := by
  by_cases hapache : path ∈ apacheExes
  · have hquit := not_quitPath_of_apache path hapache
    rw [expectedSig_apache hapache]
    simp [hapache, hquit, SIGWINCH, SIGQUIT, SIGTERM]
  by_cases hquit : QuitPath path
  · rw [expectedSig_quitPath hquit]
    simp [hapache, hquit, SIGWINCH, SIGQUIT, SIGTERM]
  · rw [expectedSig_other hapache hquit]
    simp [hapache, hquit, SIGWINCH, SIGQUIT, SIGTERM]

/-! ### The turn of the loop -/

/-- The turn of the freestanding build on memory is its turn on names. -/
theorem turn_eq (impl : Impl) (link : Bytes → Option Bytes) (f : Asm.Locals) (stale : Bytes)
    (inSig : ℕ) (rules : List SigRule) {name : Bytes} (hname : ProcName name) :
    turn impl (storedLink link) f stale inSig rules name =
      some (scanName impl (storedLink link) inSig rules name).toList := by
  cases impl with
  | gnu => rfl
  | asm =>
    obtain ⟨f', hf', hkills⟩ := Asm.exists_remapName link inSig rules hname.1 hname.length_le stale
      { f with kills := [] }
    rw [turn, hf', Option.map_some, hkills, List.nil_append]

/-- A process with a readable executable is sent the signal the rules give its path. -/
theorem scanName_process (impl : Impl) {link : Bytes → Option Bytes} (inSig : ℕ)
    {rules : List SigRule} (hshort : ShortTargets rules) {pid : ℕ} (hpid : 1 < pid)
    (hlt : pid < 2 ^ 31) {path : Bytes}
    (hlink : link (lit "/proc/" ++ decimal pid ++ lit "/exe") = some path)
    (hnul : (0 : UInt8) ∉ path) (hne : path ≠ []) :
    scanName impl (storedLink link) inSig rules (decimal pid) =
      some ((pid : ℤ), expectedSig inSig rules path) := by
  have hpos : 0 < pid := by omega
  rw [← sentSig_take inSig hshort hnul]
  have hname : decimal pid = (ProcEntry.process pid hpos hlt).name := rfl
  have hstored : path.take 255 ≠ [] := by simpa using hne
  rw [hname, scanName, pidOf_name]
  simp only [ProcEntry.pid?, Option.filter_some, hpid, decide_true, ↓reduceIte, Option.map_some,
    exePath_name, storedLink, hlink]
  cases hcut : path.take 255 with
  | nil => exact absurd hcut hstored
  | cons c s => rfl

/-- **Signal translation is exact.**  In either build and with any order of the rules, a process is
sent for `SIGTERM` what the full path of its executable says, and for another signal that signal. -/
theorem translation_exact (impl : Impl) (link : Bytes → Option Bytes) (f : Asm.Locals)
    (stale : Bytes) (pid : ℕ) (hpid : 1 < pid) (hlt : pid < 2 ^ 31) (path : Bytes)
    (hlink : link (lit "/proc/" ++ decimal pid ++ lit "/exe") = some path)
    (hnul : (0 : UInt8) ∉ path) (hne : path ≠ []) :
    (∃ sig : ℕ,
      (∀ rules : List SigRule, rules.Perm (rulesFor SIGTERM) →
        turn impl (storedLink link) f stale SIGTERM rules (decimal pid) = some [((pid : ℤ), sig)]) ∧
      (sig = SIGWINCH ↔ path ∈ apacheExes) ∧
      (sig = SIGQUIT ↔ path ∈ nginxExes ∨ ∃ target ∈ phpfpmExes, target <+: path) ∧
      (sig = SIGTERM ↔ path ∉ apacheExes ∧
        ¬ (path ∈ nginxExes ∨ ∃ target ∈ phpfpmExes, target <+: path))) ∧
    ∀ sig ∈ forwarded, sig ≠ SIGTERM →
      turn impl (storedLink link) f stale sig (rulesFor sig) (decimal pid) =
        some [((pid : ℤ), sig)] := by
  have hname : ProcName (decimal pid) := procName_decimal (by omega) hlt
  constructor
  · refine ⟨expectedSig SIGTERM (rulesFor SIGTERM) path, ?_, expectedSig_term path⟩
    intro rules hperm
    have hshort : ShortTargets rules :=
      fun rule hrule => shortTargets_rulesFor SIGTERM rule (hperm.mem_iff.1 hrule)
    rw [turn_eq impl link f stale SIGTERM rules hname,
      scanName_process impl SIGTERM hshort hpid hlt hlink hnul hne,
      expectedSig_perm hperm.symm (consistent_term path)]
    rfl
  · intro sig _ hsig
    have hnone : rulesFor sig = [] := by simp [rulesFor, hsig]
    rw [turn_eq impl link f stale sig _ hname,
      scanName_process impl sig (shortTargets_rulesFor sig) hpid hlt hlink hnul hne, hnone]
    rfl

/-- The path of a worker has a version behind the target. -/
theorem translation_exact_fpm :
    turn .asm (storedLink fun _ => some (lit "/usr/sbin/php-fpm8.4"))
        ⟨Vector.replicate 32 66, Vector.replicate 256 67, []⟩ [65, 65] SIGTERM
        (rulesFor SIGTERM).reverse (decimal 7) = some [(7, SIGQUIT)] := by
  obtain ⟨⟨sig, hturn, -, hquit, -⟩, -⟩ := translation_exact .asm
    (fun _ => some (lit "/usr/sbin/php-fpm8.4"))
    ⟨Vector.replicate 32 66, Vector.replicate 256 67, []⟩ [65, 65] 7 (by decide) (by decide)
    (lit "/usr/sbin/php-fpm8.4") rfl (by decide +kernel) (by decide +kernel)
  rw [hturn _ (List.reverse_perm _), hquit.2 (Or.inr (by decide +kernel))]
  rfl

end Reaper

end TuxDock
