/-
  Cdht/ConfigFile.lean
  ====================
  **From the configuration file to the configuration** (`process_args` of
  `src/core/args.c`).

  The parser of `ini.c` with the handler of `args.c` in it: what a file makes of the
  configuration depends on its settings only, the last one of each kind decides, and
  no file makes the program leave a buffer or an array (`processArgs_total`).  A file
  that was written for a port and a list of seeds gives that port and those seeds
  (`processArgs_serverFile`).
-/
import Cdht.IniRoundTrip

namespace Cdht.ConfigFile

open Cdht.Memory Cdht.Machine Cdht.Format Cdht.Strings Cdht.Tokens Cdht.Settings Cdht.Ini
open Cdht.IniGrammar Cdht.IniRefinement Cdht.IniDocument Cdht.IniRoundTrip

section Atoi

variable (atoi : Bytes → Int32)

/-- `process_args`, where `file` is `none` if `argv[1]` cannot be opened.  The result is
    `global_config`, or `none` if the program exits. -/
def processArgs (argc : Nat) (file : Option Bytes) : Exec (Option Config) :=
  if argc = 1 then .ok none else
    match file with
    | none => .ok none
    | some file => do
        let (_, cfg) ← iniParseFile (handler atoi) file defaultConfig
        return some cfg

/-! ### The settings decide -/

theorem perform_handler (error : Nat) (cfg : Config) (list : List (Nat × Event)) {codes : List Int}
    {final : Config}
    (h : run (configStep atoi) cfg (list.filterMap Prod.snd) = .ok (codes, final)) :
    ∃ error', perform (handler atoi) error cfg list = .ok (error', final) := by
  induction list generalizing error cfg codes with
  | nil =>
    cases h
    exact ⟨error, rfl⟩
  | cons event list ih =>
    obtain ⟨line, _ | call⟩ := event
    · exact ih (flagged error line) cfg h
    · obtain ⟨⟨code, next⟩, hstep, h⟩ := bind_eq_ok h
      obtain ⟨⟨codes', final'⟩, hrun, h⟩ := bind_eq_ok h
      cases h
      obtain ⟨error', hperform⟩ := ih (if code = 0 then flagged error line else error) next hrun
      refine ⟨error', ?_⟩
      have hcall : handler atoi cfg call.sectionName call.name call.value = .ok (code, next) := hstep
      rw [perform, performEvent, hcall]
      exact hperform

/-- The values for `SERVER`/`PORT`, in order. -/
def portValues (calls : List Setting) : List Bytes :=
  (calls.filter fun setting => setting.Names "SERVER" "PORT").map fun setting =>
    setting.value.chars

theorem configStep_port {cfg cfg' : Config} {setting : Setting} {code : Int}
    (h : configStep atoi cfg setting = .ok (code, cfg')) :
    cfg'.port = if setting.Names "SERVER" "PORT" then atoi setting.value.chars else cfg.port := by
  by_cases hseeds : setting.Names "SERVER" "SEEDS"
  · have hport : ¬ setting.Names "SERVER" "PORT" := by
      rintro ⟨-, hname⟩
      rw [hseeds.2] at hname
      exact absurd hname (by decide)
    rw [configStep_seeds atoi hseeds] at h
    cases h
    rw [if_neg hport]
  · have hmatch := matchesSetting_iff setting noNul_server noNul_port
    have hother : ¬ matchesSetting setting.sectionName setting.name "SERVER" "SEEDS" = true := by
      rw [matchesSetting_iff setting noNul_server noNul_seeds]
      exact hseeds
    rw [configStep, handler, if_neg hother] at h
    by_cases hport : setting.Names "SERVER" "PORT"
    · rw [if_pos (hmatch.mpr hport)] at h
      cases h
      rw [if_pos hport]
    · rw [if_neg (mt hmatch.mp hport)] at h
      cases h
      rw [if_neg hport]

theorem run_port {calls : List Setting} {cfg final : Config} {codes : List Int}
    (h : run (configStep atoi) cfg calls = .ok (codes, final)) :
    final.port = ((portValues calls).map atoi).getLastD cfg.port := by
  induction calls generalizing cfg codes with
  | nil =>
    cases h
    rfl
  | cons setting calls ih =>
    obtain ⟨⟨code, next⟩, hstep, h⟩ := bind_eq_ok h
    obtain ⟨⟨codes', final'⟩, hrun, h⟩ := bind_eq_ok h
    cases h
    rw [ih hrun, configStep_port atoi hstep]
    by_cases hport : setting.Names "SERVER" "PORT"
    · rw [if_pos hport, portValues, portValues, List.filter_cons, if_pos (decide_eq_true hport),
        List.map_cons, List.map_cons, List.getLastD_cons]
    · rw [if_neg hport, portValues, portValues, List.filter_cons, if_neg (by simpa using hport)]

/-- What `process_args` makes of a file: the port and the seeds of its last settings. -/
theorem processArgs_settings (more : Nat) (file : Bytes) :
    ∃ cfg, processArgs atoi (2 + more) (some file) = .ok (some cfg) ∧
      cfg.port = ((portValues (settings file)).map atoi).getLastD 1998 ∧
      HasSeeds cfg (((seedValues (settings file)).map (seedsOf atoi)).getLastD []) := by
  obtain ⟨codes, final, hrun, hseeds⟩ :=
    @run_configStep atoi (settings file) defaultConfig [] ⟨rfl, rfl⟩
  obtain ⟨error, hperform⟩ := perform_handler atoi 0 defaultConfig (events file) hrun
  refine ⟨final, ?_, run_port atoi hrun, hseeds⟩
  rw [processArgs, if_neg (by omega), iniParseFile,
    iniParseStream_performs _ fileReader_readsAs rfl, hperform]
  rfl

theorem length_seedsOf_le_of_tidy {value : Bytes} (h : value.length ≤ 198) :
    (seedsOf atoi value).length ≤ 99 := by
  have hruns := @two_mul_length_runs_le UInt8 separates value
  have hseeds : (seedsOf atoi value).length ≤ (runs separates value).length :=
    List.length_filterMap_le _ _
  omega

/-- **Every file gives a configuration.**  Whatever the bytes of the file are and however
    many arguments follow its name, the parser and the handler never leave a buffer or
    the array of the seeds; the port is that of the last setting for it, or 1998, the
    seeds are those of the last setting for them alone, and there are at most 99 of
    them. -/
theorem processArgs_total (more : Nat) (file : Bytes) :
    ∃ cfg, processArgs atoi (2 + more) (some file) = .ok (some cfg) ∧
      cfg.port = ((portValues (settings file)).map atoi).getLastD 1998 ∧
      HasSeeds cfg (((seedValues (settings file)).map (seedsOf atoi)).getLastD []) ∧
      cfg.seedNodesCount ≤ 99 := by
  obtain ⟨cfg, hargs, hport, hseeds⟩ := processArgs_settings atoi more file
  refine ⟨cfg, hargs, hport, hseeds, ?_⟩
  rw [hseeds.1]
  rcases List.eq_nil_or_concat' (seedValues (settings file)) with hnone | ⟨values, value, hlast⟩
  · rw [hnone]
    exact Nat.zero_le 99
  · rw [hlast, List.map_append, List.map_singleton, List.getLastD_concat]
    apply length_seedsOf_le_of_tidy
    have hmem : value ∈ seedValues (settings file) := by
      rw [hlast]
      exact List.mem_append_right values List.mem_cons_self
    obtain ⟨call, hcall, rfl⟩ := List.mem_map.mp hmem
    obtain ⟨⟨line, _⟩, hevent, rfl⟩ := List.mem_filterMap.mp (List.mem_of_mem_filter hcall)
    exact (events_tidy hevent).valueLength

/-! ### A file written for a configuration -/

/-- A host and a port. -/
structure Seed where
  host : Bytes
  port : Nat

structure Seed.Plain (seed : Seed) : Prop where
  noNul : (0 : UInt8) ∉ seed.host
  noSpace : ∀ char ∈ seed.host, isspace char = false
  noColon : colon ∉ seed.host
  noSemicolon : 59 ∉ seed.host
  length : seed.host.length ≤ 63
  port : seed.port < 2 ^ 31

def seedText (seed : Seed) : Bytes := seed.host ++ colon :: decimal seed.port

def seedsText (seeds : List Seed) : Bytes := [32].intercalate (seeds.map seedText)

/-- A heading for the section, and a line for each of the two settings. -/
def serverFile (port : Nat) (seeds : List Seed) : Bytes :=
  render [⟨ascii "SERVER", [⟨ascii "PORT", decimal port⟩, ⟨ascii "SEEDS", seedsText seeds⟩]⟩]

theorem seedsText_singleton (seed : Seed) : seedsText [seed] = seedText seed := by
  rw [seedsText, List.map_singleton, List.intercalate_singleton]

theorem seedsText_cons_cons (seed next : Seed) (seeds : List Seed) :
    seedsText (seed :: next :: seeds) = seedText seed ++ 32 :: seedsText (next :: seeds) := by
  rw [seedsText, List.map_cons, List.map_cons, List.intercalate_cons_cons, List.append_assoc,
    List.singleton_append]
  rfl

theorem seedText_ne_nil (seed : Seed) : seedText seed ≠ [] := by simp [seedText]

/-- The digits and the colon follow each other in ASCII. -/
theorem mem_seedText {seed : Seed} {char : UInt8} (h : char ∈ seedText seed) :
    char ∈ seed.host ∨ 48 ≤ char.toNat ∧ char.toNat ≤ 58 := by
  rcases List.mem_append.mp h with hhost | hport
  · exact Or.inl hhost
  · rcases List.mem_cons.mp hport with rfl | hport
    · exact Or.inr (by decide)
    · obtain ⟨hlow, hhigh⟩ := decimal_digits hport
      rw [UInt8.le_iff_toNat_le] at hlow hhigh
      exact Or.inr ⟨hlow, Nat.le_succ_of_le hhigh⟩

theorem isspace_of_le {char : UInt8} (h : 48 ≤ char.toNat) : isspace char = false := by
  have hnot : ¬ (char = 32 ∨ 9 ≤ char ∧ char ≤ 13) := by
    rintro (rfl | ⟨-, hhigh⟩)
    · exact absurd h (by decide)
    · rw [UInt8.le_iff_toNat_le] at hhigh
      have hbound : char.toNat ≤ 13 := hhigh
      omega
  simpa [isspace] using hnot

theorem isspace_seedText {seed : Seed} (h : seed.Plain) {char : UInt8} (hmem : char ∈ seedText seed) :
    isspace char = false := by
  rcases mem_seedText hmem with hhost | hrange
  · exact h.noSpace char hhost
  · exact isspace_of_le hrange.1

theorem mem_seedsText {seeds : List Seed} {char : UInt8} (h : char ∈ seedsText seeds) :
    char = 32 ∨ ∃ seed ∈ seeds, char ∈ seedText seed := by
  induction seeds with
  | nil => cases h
  | cons seed seeds ih =>
    cases seeds with
    | nil =>
      rw [seedsText_singleton] at h
      exact Or.inr ⟨seed, List.mem_cons_self, h⟩
    | cons next seeds =>
      rw [seedsText_cons_cons, List.mem_append, List.mem_cons] at h
      rcases h with h | h | h
      · exact Or.inr ⟨seed, List.mem_cons_self, h⟩
      · exact Or.inl h
      · rcases ih h with hspace | ⟨other, hother, hchar⟩
        · exact Or.inl hspace
        · exact Or.inr ⟨other, List.mem_cons_of_mem seed hother, hchar⟩

/-- A list of seeds begins and ends with a seed. -/
theorem ends_seedsText {seeds : List Seed} (h : ∀ seed ∈ seeds, seed.Plain) :
    (∀ char ∈ (seedsText seeds).head?, isspace char = false) ∧
      (∀ char ∈ (seedsText seeds).getLast?, isspace char = false) ∧
      (seeds ≠ [] → seedsText seeds ≠ []) := by
  induction seeds with
  | nil => simp [seedsText]
  | cons seed seeds ih =>
    have hseed := h seed List.mem_cons_self
    cases seeds with
    | nil =>
      rw [seedsText_singleton]
      refine ⟨fun char hchar => ?_, fun char hchar => ?_, fun _ => seedText_ne_nil seed⟩
      · exact isspace_seedText hseed (List.mem_of_mem_head? hchar)
      · exact isspace_seedText hseed (List.mem_of_getLast? hchar)
    | cons next seeds =>
      obtain ⟨-, hlast, hnext⟩ := ih fun other hother => h other (List.mem_cons_of_mem seed hother)
      obtain ⟨first, rest, htext⟩ := List.exists_cons_of_ne_nil (seedText_ne_nil seed)
      rw [seedsText_cons_cons]
      refine ⟨fun char hchar => ?_, fun char hchar => ?_, fun _ => by simp⟩
      · rw [htext] at hchar
        obtain rfl : first = char := Option.some.inj hchar
        exact isspace_seedText hseed (htext ▸ List.mem_cons_self)
      · obtain ⟨other, others, hothers⟩ :=
          List.exists_cons_of_ne_nil (hnext (List.cons_ne_nil _ _))
        rw [List.getLast?_append_cons, hothers, List.getLast?_cons_cons, ← hothers] at hchar
        exact hlast char hchar

theorem printable_seedsText {seeds : List Seed} (h : ∀ seed ∈ seeds, seed.Plain) :
    Printable (seedsText seeds) := by
  have hnot : ∀ char ∈ seedsText seeds, char ≠ 0 ∧ char ≠ newline ∧ char ≠ 59 := by
    intro char hmem
    rcases mem_seedsText hmem with rfl | ⟨seed, hseed, hchar⟩
    · decide
    · refine ⟨?_, ?_, ?_⟩
      · rintro rfl
        rcases mem_seedText hchar with hhost | hrange
        · exact (h seed hseed).noNul hhost
        · exact absurd hrange (by decide)
      · rintro rfl
        exact absurd (isspace_seedText (h seed hseed) hchar) (by decide)
      · rintro rfl
        rcases mem_seedText hchar with hhost | hrange
        · exact (h seed hseed).noSemicolon hhost
        · exact absurd hrange (by decide)
  refine ⟨fun hmem => (hnot _ hmem).1 rfl, fun hmem => (hnot _ hmem).2.1 rfl, ?_⟩
  exact commentFree_of_not_mem fun hmem => (hnot _ hmem).2.2 rfl

theorem printable_decimal (n : Nat) : Printable (decimal n) := by
  have hrange : ∀ char ∈ decimal n, 48 ≤ char.toNat ∧ char.toNat ≤ 57 := by
    intro char hmem
    have hdigits := decimal_digits hmem
    rw [UInt8.le_iff_toNat_le, UInt8.le_iff_toNat_le] at hdigits
    exact hdigits
  refine ⟨fun hmem => ?_, fun hmem => ?_, commentFree_of_not_mem fun hmem => ?_⟩
  · exact absurd (hrange _ hmem) (by decide)
  · exact absurd (hrange _ hmem) (by decide)
  · exact absurd (hrange _ hmem) (by decide)

theorem trimmed_decimal (n : Nat) :
    trimStart (decimal n) = decimal n ∧ trimEnd (decimal n) = decimal n := by
  have hdigit : ∀ char ∈ decimal n, isspace char = false := by
    intro char hmem
    have hlow := (decimal_digits hmem).1
    rw [UInt8.le_iff_toNat_le] at hlow
    exact isspace_of_le hlow
  rw [trimStart_eq_self_iff, trimEnd_eq_self_iff]
  exact ⟨fun char hchar => hdigit char (List.mem_of_mem_head? hchar),
    fun char hchar => hdigit char (List.mem_of_getLast? hchar)⟩

/-- A name in capitals. -/
def Capitals (name : Bytes) : Prop := ∀ char ∈ name, 65 ≤ char.toNat ∧ char.toNat ≤ 90

instance (name : Bytes) : Decidable (Capitals name) :=
  List.decidableBAll (fun char : UInt8 => 65 ≤ char.toNat ∧ char.toNat ≤ 90) name

theorem Capitals.printable {name : Bytes} (h : Capitals name) : Printable name := by
  refine ⟨fun hmem => ?_, fun hmem => ?_, commentFree_of_not_mem fun hmem => ?_⟩
  · exact absurd (h _ hmem) (by decide)
  · exact absurd (h _ hmem) (by decide)
  · exact absurd (h _ hmem) (by decide)

theorem Capitals.writableEntry {name value : Bytes} (h : Capitals name) (hvalue : Printable value)
    (htrimmed : trimStart value = value ∧ trimEnd value = value)
    (hlength : name.length + value.length ≤ 197) : WritableEntry ⟨name, value⟩ := by
  have hspace : ∀ char ∈ name, isspace char = false := by
    intro char hmem
    have hlow := (h char hmem).1
    exact isspace_of_le (by omega)
  refine ⟨h.printable, hvalue, ⟨fun hmem => ?_, fun hmem => ?_⟩, ⟨?_, ?_⟩, fun char hchar => ?_,
    htrimmed, hlength⟩
  · exact absurd (h _ hmem) (by decide)
  · exact absurd (h _ hmem) (by decide)
  · exact trimStart_eq_self_iff.mpr fun char hchar => hspace char (List.mem_of_mem_head? hchar)
  · exact trimEnd_eq_self_iff.mpr fun char hchar => hspace char (List.mem_of_getLast? hchar)
  · intro hstart
    have hlimits := h char (List.mem_of_mem_head? hchar)
    have hmem : char ∈ [59, 35, 91] := hstart
    simp only [List.mem_cons, List.not_mem_nil, or_false] at hmem
    rcases hmem with rfl | rfl | rfl
    · exact absurd hlimits (by decide)
    · exact absurd hlimits (by decide)
    · exact absurd hlimits (by decide)

/-- The file is one that can be written. -/
theorem writable_serverFile {port : Nat} {seeds : List Seed} (hport : port < 2 ^ 31)
    (hseeds : ∀ seed ∈ seeds, seed.Plain) (hlength : (seedsText seeds).length ≤ 192) :
    WritablePart ⟨ascii "SERVER",
      [⟨ascii "PORT", decimal port⟩, ⟨ascii "SEEDS", seedsText seeds⟩]⟩ := by
  have hdigits : (decimal port).length ≤ 10 :=
    (length_decimal_le_iff (by decide)).mpr (Nat.lt_trans hport (by decide))
  have hserver : Capitals (ascii "SERVER") ∧ 93 ∉ ascii "SERVER" ∧ (ascii "SERVER").length ≤ 49 := by
    decide
  have hportName : Capitals (ascii "PORT") ∧ (ascii "PORT").length = 4 := by decide
  have hseedsName : Capitals (ascii "SEEDS") ∧ (ascii "SEEDS").length = 5 := by decide
  refine ⟨hserver.1.printable, hserver.2.1, hserver.2.2, fun entry hentry => ?_⟩
  rcases List.mem_pair.mp hentry with rfl | rfl
  · apply hportName.1.writableEntry (printable_decimal port) (trimmed_decimal port)
    omega
  · obtain ⟨hfirst, hlast, -⟩ := ends_seedsText hseeds
    apply hseedsName.1.writableEntry (printable_seedsText hseeds)
      ⟨trimStart_eq_self_iff.mpr hfirst, trimEnd_eq_self_iff.mpr hlast⟩
    omega

theorem settings_serverFile {port : Nat} {seeds : List Seed} (hport : port < 2 ^ 31)
    (hseeds : ∀ seed ∈ seeds, seed.Plain) (hlength : (seedsText seeds).length ≤ 192) :
    settings (serverFile port seeds) =
      [setting (ascii "SERVER") (ascii "PORT") (decimal port),
        setting (ascii "SERVER") (ascii "SEEDS") (seedsText seeds)] := by
  have hevents := eventsFrom_render (fun part hpart => by
    rw [List.mem_singleton.mp hpart]
    exact writable_serverFile hport hseeds hlength) ⟨[], []⟩ 0
  have hsettings : settings (serverFile port seeds) =
      ((events (serverFile port seeds)).map Prod.snd).filterMap id := by
    rw [settings, List.filterMap_map]
    rfl
  rw [hsettings]
  show List.filterMap id
    ((eventsFrom ⟨[], []⟩ 0 (rawLines (serverFile port seeds))).map Prod.snd) = _
  rw [serverFile, hevents]
  rfl

theorem seedTokens_seedsText {seeds : List Seed} (h : ∀ seed ∈ seeds, seed.Plain) :
    seedTokens (seedsText seeds) = seeds.map seedText := by
  have hruns : runs separates (seedsText seeds) = seeds.map seedText := by
    apply runs_intercalate (by decide)
    intro token htoken
    obtain ⟨seed, hseed, rfl⟩ := List.mem_map.mp htoken
    refine ⟨seedText_ne_nil seed, fun char hchar => ?_⟩
    rw [Bool.eq_false_iff]
    intro hseparates
    have hspace := isspace_of_separates hseparates
    rw [isspace_seedText (h seed hseed) hchar] at hspace
    cases hspace
  rw [seedTokens, hruns, List.filter_eq_self]
  intro token htoken
  obtain ⟨seed, -, rfl⟩ := List.mem_map.mp htoken
  rw [List.contains_iff_mem]
  exact List.mem_append_right _ List.mem_cons_self

theorem seedView_seedText {seed : Seed} (h : seed.Plain)
    (hatoi : ∀ n < 2 ^ 31, atoi (decimal n) = Int32.ofNat n) :
    seedView atoi (seedText seed) = (seed.host, Int32.ofNat seed.port) := by
  have hhost : ∀ char ∈ seed.host, decide (char ≠ colon) = true := by
    intro char hmem
    rw [decide_eq_true_eq]
    rintro rfl
    exact h.noColon hmem
  have htake : (seedText seed).takeWhile (· ≠ colon) = seed.host := by
    rw [seedText, List.takeWhile_append_of_pos hhost, List.takeWhile_cons_of_neg (by simp),
      List.append_nil]
  have hdrop : (seedText seed).dropWhile (· ≠ colon) = colon :: decimal seed.port := by
    rw [seedText, List.dropWhile_append_of_pos hhost, List.dropWhile_cons_of_neg (by simp)]
  rw [seedView, htake, hdrop, List.drop_one, List.tail_cons, hatoi seed.port h.port,
    List.take_of_length_le h.length]

/-- **A file written for a port and a list of seeds gives that port and those seeds.** -/
theorem processArgs_serverFile (hatoi : ∀ n < 2 ^ 31, atoi (decimal n) = Int32.ofNat n)
    {port : Nat} {seeds : List Seed} (hport : port < 2 ^ 31)
    (hseeds : ∀ seed ∈ seeds, seed.Plain) (hlength : (seedsText seeds).length ≤ 192) (more : Nat) :
    ∃ cfg nodes, processArgs atoi (2 + more) (some (serverFile port seeds)) = .ok (some cfg) ∧
      cfg.port = Int32.ofNat port ∧ HasSeeds cfg nodes ∧
      nodes.map NodeAddr.view = seeds.map fun seed => (seed.host, Int32.ofNat seed.port) := by
  obtain ⟨cfg, hargs, hcfgPort, hcfgSeeds⟩ := processArgs_settings atoi more (serverFile port seeds)
  have hcalls := settings_serverFile hport hseeds hlength
  have hports : portValues (settings (serverFile port seeds)) = [decimal port] := by
    have hvalue : cstr (decimal port) = decimal port := cstr_eq_self (printable_decimal port).noNul
    rw [hcalls]
    exact congrArg (fun value => [value]) hvalue
  have hvalues : seedValues (settings (serverFile port seeds)) = [seedsText seeds] := by
    have hvalue : cstr (seedsText seeds) = seedsText seeds :=
      cstr_eq_self (printable_seedsText hseeds).noNul
    rw [hcalls]
    exact congrArg (fun value => [value]) hvalue
  rw [hports] at hcfgPort
  rw [hvalues] at hcfgSeeds
  refine ⟨cfg, seedsOf atoi (seedsText seeds), hargs, ?_, hcfgSeeds, ?_⟩
  · rw [hcfgPort]
    exact hatoi port hport
  · rw [view_seedsOf (printable_seedsText hseeds).noNul, seedTokens_seedsText hseeds, List.map_map]
    apply List.map_congr_left
    intro seed hseed
    exact seedView_seedText atoi (hseeds seed hseed) hatoi

end Atoi

theorem foldl_digits (digits : List Char) (n : Nat) (h : ∀ digit ∈ digits, digit.isDigit = true) :
    (digits.map fun char => UInt8.ofNat char.toNat).foldl
        (fun n char => 10 * n + (char.toNat - 48)) n =
      Nat.ofDigitChars 10 digits n := by
  induction digits generalizing n with
  | nil => rfl
  | cons digit digits ih =>
    have hdigit := Char.isDigit_iff_toNat.mp (h digit List.mem_cons_self)
    have hsmall : digit.toNat < 256 := Nat.lt_of_le_of_lt hdigit.2 (by decide)
    have hbyte : (UInt8.ofNat digit.toNat).toNat = digit.toNat := UInt8.toNat_ofNat_of_lt' hsmall
    rw [List.map_cons, List.foldl_cons, hbyte, Nat.ofDigitChars_cons]
    exact ih _ fun other hother => h other (List.mem_cons_of_mem digit hother)

theorem atoiDigits_decimal (n : Nat) : atoiDigits (decimal n) = Int32.ofNat n := by
  rw [atoiDigits, decimal, foldl_digits, Nat.ofDigitChars_toDigits (by decide) (by decide)]
  exact fun digit hdigit => Nat.isDigit_of_mem_toDigits (by decide) (by decide) hdigit

def twoSeeds : List Seed := [⟨ascii "10.0.0.1", 4000⟩, ⟨ascii "node.local", 4001⟩]

theorem plain_twoSeeds : ∀ seed ∈ twoSeeds, seed.Plain := by
  have hall : ∀ {host : Bytes}, host.any isspace = false → ∀ char ∈ host, isspace char = false :=
    fun h char hmem => Bool.eq_false_iff.mpr (List.any_eq_false.mp h char hmem)
  intro seed hseed
  rcases List.mem_pair.mp hseed with rfl | rfl
  · exact ⟨by decide, hall (by decide), by decide, by decide, by decide, by decide⟩
  · exact ⟨by decide, hall (by decide), by decide, by decide, by decide, by decide⟩

theorem processArgs_twoSeeds :
    ∃ cfg nodes, processArgs atoiDigits 2 (some (serverFile 1998 twoSeeds)) = .ok (some cfg) ∧
      cfg.port = 1998 ∧ HasSeeds cfg nodes ∧
      nodes.map NodeAddr.view = [(ascii "10.0.0.1", 4000), (ascii "node.local", 4001)] :=
  processArgs_serverFile atoiDigits (fun n _ => atoiDigits_decimal n) (by decide) plain_twoSeeds
    (by decide) 0

end Cdht.ConfigFile
