/-
  Cdht/Settings.lean
  ==================
  **The configuration and the seed list** (`src/core/args.c`,
  `include/core/config.h`).

  `handler` is called once for each setting of the configuration file.  For
  `SERVER`/`SEEDS` it allocates one element more than the value has white space,
  and fills the array from a `strtok` loop that knows fewer separators than `isspace`
  does and skips tokens without a colon.  The array is a list of elements that are
  unwritten (`none`) at first, so that a store outside it would be a fault.

  `atoi` is a given function on strings.  The counters are natural numbers: the parser
  cuts its lines at `INI_MAX_LINE`, 200 bytes, and the counts are at most one more than
  the length of a value.
-/
import Cdht.Format
import Cdht.Machine
import Cdht.Strings
import Cdht.Tokens

namespace Cdht.Settings

open Cdht.Memory Cdht.Machine Cdht.Format Cdht.Strings Cdht.Tokens

/-! ### The functions of the source -/

/-- `node_addr_t`. -/
structure NodeAddr where
  host : CharArray 64
  port : Int32
deriving DecidableEq

/-- `config_t`.  `seedNodes` is `none` for NULL; an element of the array is `none`
    until it is written. -/
structure Config where
  port : Int32
  seedNodes : Option (List (Option NodeAddr))
  seedNodesCount : Nat
deriving DecidableEq

/-- `isspace` in the C locale. -/
def isspace (char : UInt8) : Bool := char = 32 || (9 ≤ char && char ≤ 13)

/-- A character of `" \t\n\r"`. -/
def separates (char : UInt8) : Bool := (ascii " \t\n\r").contains char

def colon : UInt8 := 58

/-- The loop that counts the elements to allocate. -/
def countSeeds (count : Nat) : Bytes → Nat
  | [] => count
  | char :: rest => if isspace char then countSeeds (count + 1) rest else countSeeds count rest

theorem length_hostField (host : Bytes) : (strncpy host 63 ++ [0]).length = 64 := by
  rw [List.length_append, length_strncpy]
  rfl

def storeSeed (seedNodes : Option (List (Option NodeAddr))) (index : Nat) (seed : NodeAddr) :
    Exec (List (Option NodeAddr)) :=
  match seedNodes with
  | none => .error .nullPointer
  | some nodes => writeAt nodes index [some seed]

section Handler

variable (atoi : Bytes → Int32)

/-- The element for a token that is split at the index of its first colon. -/
def seedAt (token : Bytes) (index : Nat) : NodeAddr :=
  ⟨⟨strncpy (token.take index) 63 ++ [0], length_hostField _⟩, atoi (token.drop (index + 1))⟩

/-- The parsing loop from a call of `strtok` on. -/
def parseSeeds (count : Nat) (rest : Bytes) (cfg : Config) : Exec Config :=
  match _htoken : strtok separates rest with
  | none => .ok cfg
  | some (token, rest) =>
      if cfg.seedNodesCount < count then
        match strchr token colon with
        | some index => do
            let nodes ← storeSeed cfg.seedNodes cfg.seedNodesCount (seedAt atoi token index)
            parseSeeds count rest
              { cfg with seedNodes := some nodes, seedNodesCount := cfg.seedNodesCount + 1 }
        | none => parseSeeds count rest cfg
      else .ok cfg
termination_by rest.length
decreasing_by
  · exact length_rest_lt _htoken
  · exact length_rest_lt _htoken

/-- The macro `MATCH`, for the two names of the call. -/
def matchesSetting (sectionName name : CString) (wantedSection wantedName : String) : Bool :=
  strcmp sectionName.chars (ascii wantedSection) = 0 && strcmp name.chars (ascii wantedName) = 0

/-- `handler`: the returned code and the configuration afterwards. -/
def handler (cfg : Config) (sectionName name value : CString) : Exec (Int × Config) :=
  if matchesSetting sectionName name "SERVER" "PORT" then
    .ok (1, { cfg with port := atoi value.chars })
  else if matchesSetting sectionName name "SERVER" "SEEDS" then do
    let count := countSeeds 1 value.chars
    let cfg := { cfg with seedNodes := some (List.replicate count none), seedNodesCount := 0 }
    let cfg ← parseSeeds atoi count value.chars cfg
    return (1, cfg)
  else .ok (0, cfg)  -- unknown section/name, error

end Handler

/-- The values that `process_args` puts in before it parses the file. -/
def defaultConfig : Config := ⟨1998, none, 0⟩

/-! ### The seeds of a value -/

theorem countSeeds_eq (count : Nat) (value : Bytes) :
    countSeeds count value = count + value.countP isspace := by
  induction value generalizing count with
  | nil => rfl
  | cons char rest ih =>
    by_cases hspace : isspace char = true
    · rw [countSeeds, if_pos hspace, ih, List.countP_cons_of_pos hspace]
      omega
    · rw [countSeeds, if_neg hspace, ih, List.countP_cons_of_neg hspace]

theorem isspace_of_separates {char : UInt8} (h : separates char = true) : isspace char = true := by
  have hmem : char ∈ [32, 9, 10, 13] := List.contains_iff_mem.mp h
  simp only [List.mem_cons, List.not_mem_nil, or_false] at hmem
  rcases hmem with rfl | rfl | rfl | rfl
  · rfl
  · rfl
  · rfl
  · rfl

/-- The tokens that name a seed: the maximal runs of other characters than the
    separators that contain a colon. -/
def seedTokens (value : Bytes) : List Bytes :=
  (runs separates value).filter fun token => token.contains colon

/-- The text before the first colon of a token, cut to 63 bytes, and `atoi` of the text
    behind it. -/
def seedView (atoi : Bytes → Int32) (token : Bytes) : Bytes × Int32 :=
  ((token.takeWhile (· ≠ colon)).take 63, atoi ((token.dropWhile (· ≠ colon)).drop 1))

def NodeAddr.view (seed : NodeAddr) : Bytes × Int32 := (cstr seed.host.val, seed.port)

theorem view_seedAt (atoi : Bytes → Int32) {token : Bytes} {index : Nat} (hnul : (0 : UInt8) ∉ token)
    (h : strchr token colon = some index) : (seedAt atoi token index).view = seedView atoi token := by
  obtain ⟨-, hbefore, hafter⟩ := strchr_eq_some h
  have hhost : (0 : UInt8) ∉ token.take index := fun hmem => hnul (List.mem_of_mem_take hmem)
  have htext : cstr (strncpy (token.take index) 63 ++ [0]) =
      (token.takeWhile (· ≠ colon)).take 63 := by
    rw [cstr_strncpy_nul, cstr_eq_self hhost, hbefore]
  show (cstr (strncpy (token.take index) 63 ++ [0]), atoi (token.drop (index + 1))) = _
  rw [htext, hafter]
  rfl

/-- The elements that the handler makes of a value. -/
def seedsOf (atoi : Bytes → Int32) (value : Bytes) : List NodeAddr :=
  (runs separates value).filterMap fun token => (strchr token colon).map (seedAt atoi token)

section Seeds

variable {atoi : Bytes → Int32}

theorem seedsOf_of_strtok_eq_none {rest : Bytes} (h : strtok separates rest = none) :
    seedsOf atoi rest = [] := by
  rw [seedsOf, runs_of_strtok_eq_none h, List.filterMap_nil]

theorem seedsOf_of_strtok_eq_some {rest token rest' : Bytes}
    (h : strtok separates rest = some (token, rest')) :
    seedsOf atoi rest = ((strchr token colon).map (seedAt atoi token)).toList ++
      seedsOf atoi rest' := by
  rw [seedsOf, runs_of_strtok_eq_some h, List.filterMap_cons]
  rcases strchr token colon with _ | index
  · rfl
  · rfl

/-- **The elements, token by token.** -/
theorem view_seedsOf {value : Bytes} (hnul : (0 : UInt8) ∉ value) :
    (seedsOf atoi value).map NodeAddr.view = (seedTokens value).map (seedView atoi) := by
  have htokens : ∀ token ∈ runs separates value, (0 : UInt8) ∉ token := by
    intro token htoken hmem
    exact hnul (mem_flatten_runs_iff.mp (List.mem_flatten.mpr ⟨token, htoken, hmem⟩)).1
  rw [seedsOf, seedTokens]
  generalize runs separates value = tokens at htokens
  induction tokens with
  | nil => rfl
  | cons token tokens ih =>
    have ih := ih fun other hother => htokens other (List.mem_cons_of_mem token hother)
    rw [List.filterMap_cons, List.filter_cons]
    rcases hcolon : strchr token colon with _ | index
    · have hnone : ¬ token.contains colon = true := by
        rw [List.contains_iff_mem]
        exact strchr_eq_none hcolon
      rw [if_neg hnone]
      exact ih
    · have hsome : token.contains colon = true := by
        rw [List.contains_iff_mem]
        exact (strchr_eq_some hcolon).1
      rw [if_pos hsome]
      simp only [Option.map_some, List.map_cons, ih,
        view_seedAt atoi (htokens token List.mem_cons_self) hcolon]

/-- **There is room for every seed.** -/
theorem length_seedsOf_le (value : Bytes) :
    (seedsOf atoi value).length ≤ 1 + value.countP isspace := by
  calc (seedsOf atoi value).length
      ≤ (runs separates value).length := List.length_filterMap_le _ _
    _ ≤ 1 + value.countP separates := length_runs_le value
    _ ≤ 1 + value.countP isspace := by
        apply Nat.add_le_add_left
        exact List.countP_mono_left fun char _ => isspace_of_separates

/-! ### The parsing loop -/

/-- An array of which the first elements are written. -/
def filledSeeds (seeds : List NodeAddr) (room : Nat) : List (Option NodeAddr) :=
  seeds.map some ++ List.replicate room none

theorem storeSeed_filledSeeds (seeds : List NodeAddr) (room : Nat) (seed : NodeAddr) :
    storeSeed (some (filledSeeds seeds (room + 1))) seeds.length seed =
      .ok (filledSeeds (seeds ++ [seed]) room) := by
  have hwrite := writeAt_append (seeds.map some) [none] (List.replicate room none) [some seed] rfl
  rw [List.length_map] at hwrite
  rw [storeSeed, filledSeeds, List.replicate_succ, List.append_cons, hwrite, filledSeeds,
    List.map_append]
  rfl

/-- **The loop appends the seeds of the rest**, if there is room for them.  Where its
    bound ends it, no seeds are left. -/
theorem parseSeeds_eq (port : Int32) {count : Nat} : ∀ (rest : Bytes) (seeds : List NodeAddr)
    (room : Nat), seeds.length + room = count → (seedsOf atoi rest).length ≤ room →
    parseSeeds atoi count rest ⟨port, some (filledSeeds seeds room), seeds.length⟩ =
      .ok ⟨port, some (filledSeeds (seeds ++ seedsOf atoi rest)
        (room - (seedsOf atoi rest).length)), (seeds ++ seedsOf atoi rest).length⟩ := by
  intro rest
  induction hlength : rest.length using Nat.strong_induction_on generalizing rest with
  | _ length ih =>
    intro seeds room hcount hroom
    unfold parseSeeds
    split
    · rename_i hnone
      rw [seedsOf_of_strtok_eq_none hnone, List.append_nil, List.length_nil, Nat.sub_zero]
    · rename_i token rest' hsome
      have hshorter := length_rest_lt hsome
      have hseeds := @seedsOf_of_strtok_eq_some atoi rest token rest' hsome
      by_cases hbound : seeds.length < count
      · rw [if_pos hbound]
        rcases hcolon : strchr token colon with _ | index
        · rw [hcolon] at hseeds
          have hsame : seedsOf atoi rest = seedsOf atoi rest' := hseeds
          rw [hsame] at hroom ⊢
          exact ih rest'.length (hlength ▸ hshorter) rest' rfl seeds room hcount hroom
        · rw [hcolon] at hseeds
          have hmore : seedsOf atoi rest = seedAt atoi token index :: seedsOf atoi rest' := hseeds
          rw [hmore, List.length_cons] at hroom
          obtain ⟨room, rfl⟩ : ∃ room', room = room' + 1 :=
            Nat.exists_eq_succ_of_ne_zero (by omega)
          have hnext := ih rest'.length (hlength ▸ hshorter) rest' rfl
            (seeds ++ [seedAt atoi token index]) room
            (by rw [List.length_append, List.length_singleton]; omega) (by omega)
          simp only [storeSeed_filledSeeds, ok_bind]
          rw [List.length_append, List.length_singleton] at hnext
          rw [hnext, hmore, List.append_assoc, List.singleton_append, List.length_cons,
            Nat.add_sub_add_right]
      · have hnothing : seedsOf atoi rest = [] := by
          apply List.eq_nil_of_length_eq_zero
          omega
        rw [if_neg hbound, hnothing, List.append_nil, List.length_nil, Nat.sub_zero]

end Seeds

/-! ### One call of the handler -/

/-- One call, with the texts that the parser hands over. -/
structure Setting where
  sectionName : CString
  name : CString
  value : CString

def Setting.Names (setting : Setting) (sectionName name : String) : Prop :=
  setting.sectionName.chars = ascii sectionName ∧ setting.name.chars = ascii name

instance (setting : Setting) (sectionName name : String) :
    Decidable (setting.Names sectionName name) := inferInstanceAs (Decidable (_ ∧ _))

theorem noNul_server : (0 : UInt8) ∉ ascii "SERVER" := by decide

theorem noNul_port : (0 : UInt8) ∉ ascii "PORT" := by decide

theorem noNul_seeds : (0 : UInt8) ∉ ascii "SEEDS" := by decide

/-- The call for a value of the seed list. -/
def seedsSetting (value : CString) : Setting :=
  ⟨⟨ascii "SERVER", noNul_server⟩, ⟨ascii "SEEDS", noNul_seeds⟩, value⟩

def configStep (atoi : Bytes → Int32) : Step Config Setting Int
  | cfg, setting => handler atoi cfg setting.sectionName setting.name setting.value

section OneCall

variable (atoi : Bytes → Int32)

theorem matchesSetting_iff (setting : Setting) {sectionName name : String}
    (hsection : (0 : UInt8) ∉ ascii sectionName) (hname : (0 : UInt8) ∉ ascii name) :
    matchesSetting setting.sectionName setting.name sectionName name = true ↔
      setting.Names sectionName name := by
  rw [matchesSetting, Bool.and_eq_true, decide_eq_true_eq, decide_eq_true_eq, strcmp_eq_zero_iff,
    strcmp_eq_zero_iff, cstr_eq_self hsection, cstr_eq_self hname,
    cstr_eq_self setting.sectionName.noNul, cstr_eq_self setting.name.noNul]
  rfl

/-- **A call for the seeds** replaces the array by a new one with the seeds of the
    value in front. -/
theorem configStep_seeds {setting : Setting} (h : setting.Names "SERVER" "SEEDS") (cfg : Config) :
    configStep atoi cfg setting = .ok (1, { cfg with
      seedNodes := some (filledSeeds (seedsOf atoi setting.value.chars)
        (1 + setting.value.chars.countP isspace - (seedsOf atoi setting.value.chars).length))
      seedNodesCount := (seedsOf atoi setting.value.chars).length }) := by
  have hport : ¬ matchesSetting setting.sectionName setting.name "SERVER" "PORT" = true := by
    rw [matchesSetting_iff setting noNul_server noNul_port]
    rintro ⟨-, hname⟩
    rw [h.2] at hname
    exact absurd hname (by decide)
  have hseeds : matchesSetting setting.sectionName setting.name "SERVER" "SEEDS" = true := by
    rw [matchesSetting_iff setting noNul_server noNul_seeds]
    exact h
  have hparse := @parseSeeds_eq atoi cfg.port _ setting.value.chars []
    (1 + setting.value.chars.countP isspace) (Nat.zero_add _) (length_seedsOf_le _)
  rw [List.nil_append, List.length_nil] at hparse
  have hempty : filledSeeds [] (1 + setting.value.chars.countP isspace) =
      List.replicate (countSeeds 1 setting.value.chars) none := by
    rw [countSeeds_eq]
    rfl
  rw [hempty] at hparse
  rw [configStep, handler, if_neg hport, if_pos hseeds]
  simp only [countSeeds_eq] at hparse ⊢
  rw [hparse]
  rfl

/-- A call for another setting leaves the seeds as they are. -/
theorem configStep_other {setting : Setting} (h : ¬ setting.Names "SERVER" "SEEDS")
    (cfg : Config) :
    ∃ code cfg', configStep atoi cfg setting = .ok (code, cfg') ∧
      cfg'.seedNodes = cfg.seedNodes ∧ cfg'.seedNodesCount = cfg.seedNodesCount := by
  have hseeds : ¬ matchesSetting setting.sectionName setting.name "SERVER" "SEEDS" = true := by
    rw [matchesSetting_iff setting noNul_server noNul_seeds]
    exact h
  rw [configStep, handler]
  split
  · exact ⟨_, _, rfl, rfl, rfl⟩
  · exact ⟨_, _, rfl, rfl, rfl⟩

end OneCall

/-- **The seed list is parsed completely and in bounds.**  For every value of
    `SERVER`/`SEEDS` and every configuration before: the call returns 1 without a
    store outside the array, which has one element for each white-space character
    and one more; the elements in front are, in order, one for each maximal run of
    other characters than space, tab, newline and carriage return that contains a
    colon, with the text before the first colon, cut to 63 bytes, and `atoi` of the
    text behind it; the count is their number, and nothing else of the configuration
    changes. -/
theorem seeds_parsed_completely (atoi : Bytes → Int32) (cfg : Config) (value : CString) :
    ∃ (seeds : List NodeAddr) (nodes : List (Option NodeAddr)),
      configStep atoi cfg (seedsSetting value) =
        .ok (1, { cfg with seedNodes := some nodes, seedNodesCount := seeds.length }) ∧
      nodes.length = 1 + value.chars.countP isspace ∧ seeds.length ≤ nodes.length ∧
      nodes.take seeds.length = seeds.map some ∧
      seeds.map NodeAddr.view = (seedTokens value.chars).map (seedView atoi) ∧
      seeds.length = (seedTokens value.chars).length := by
  have hroom := @length_seedsOf_le atoi value.chars
  have hview := @view_seedsOf atoi value.chars value.noNul
  have hlength := congrArg List.length hview
  rw [List.length_map, List.length_map] at hlength
  have hnodes : (filledSeeds (seedsOf atoi value.chars)
      (1 + value.chars.countP isspace - (seedsOf atoi value.chars).length)).length =
      1 + value.chars.countP isspace := by
    rw [filledSeeds, List.length_append, List.length_map, List.length_replicate]
    omega
  refine ⟨seedsOf atoi value.chars, filledSeeds (seedsOf atoi value.chars)
    (1 + value.chars.countP isspace - (seedsOf atoi value.chars).length),
    configStep_seeds atoi ⟨rfl, rfl⟩ cfg, hnodes, ?_, ?_, hview, hlength⟩
  · rw [hnodes]
    exact hroom
  · rw [filledSeeds, List.take_left' (List.length_map _)]

/-! ### All calls of one parse -/

/-- The first `seed_nodes_count` elements of the array are `seeds`. -/
def HasSeeds (cfg : Config) (seeds : List NodeAddr) : Prop :=
  cfg.seedNodesCount = seeds.length ∧
    (cfg.seedNodes.getD []).take cfg.seedNodesCount = seeds.map some

theorem HasSeeds.unique {cfg : Config} {seeds seeds' : List NodeAddr} (h : HasSeeds cfg seeds)
    (h' : HasSeeds cfg seeds') : seeds = seeds' := by
  apply List.map_injective_iff.mpr fun _ _ => Option.some.inj
  exact h.2.symm.trans h'.2

/-- The values that the calls hand over for `SERVER`/`SEEDS`, in order. -/
def seedValues (calls : List Setting) : List Bytes :=
  (calls.filter fun setting => setting.Names "SERVER" "SEEDS").map fun setting =>
    setting.value.chars

section Parse

variable {atoi : Bytes → Int32}

theorem hasSeeds_of_seeds {setting : Setting} (h : setting.Names "SERVER" "SEEDS") (cfg : Config) :
    ∃ cfg', configStep atoi cfg setting = .ok (1, cfg') ∧
      HasSeeds cfg' (seedsOf atoi setting.value.chars) := by
  refine ⟨_, configStep_seeds atoi h cfg, rfl, ?_⟩
  exact List.take_left' (List.length_map _)

/-- **The last call for the seeds decides.** -/
theorem run_configStep (calls : List Setting) : ∀ (cfg : Config) (seeds : List NodeAddr),
    HasSeeds cfg seeds → ∃ codes final, run (configStep atoi) cfg calls = .ok (codes, final) ∧
      HasSeeds final (((seedValues calls).map (seedsOf atoi)).getLastD seeds) := by
  induction calls with
  | nil =>
    intro cfg seeds h
    exact ⟨[], cfg, rfl, h⟩
  | cons setting calls ih =>
    intro cfg seeds h
    by_cases hnames : setting.Names "SERVER" "SEEDS"
    · obtain ⟨cfg', hstep, hseeds⟩ := @hasSeeds_of_seeds atoi setting hnames cfg
      obtain ⟨codes, final, hrun, hfinal⟩ := ih cfg' _ hseeds
      refine ⟨1 :: codes, final, ?_, ?_⟩
      · simp only [run, hstep, hrun, ok_bind, pure_eq_ok]
      · have hvalues : seedValues (setting :: calls) =
            setting.value.chars :: seedValues calls := by
          rw [seedValues, List.filter_cons, if_pos (decide_eq_true hnames), List.map_cons]
          rfl
        rw [hvalues, List.map_cons, List.getLastD_cons]
        exact hfinal
    · obtain ⟨code, cfg', hstep, hnodes, hcount⟩ := configStep_other atoi hnames cfg
      have hsame : HasSeeds cfg' seeds := by
        unfold HasSeeds
        rw [hnodes, hcount]
        exact h
      obtain ⟨codes, final, hrun, hfinal⟩ := ih cfg' seeds hsame
      refine ⟨code :: codes, final, ?_, ?_⟩
      · simp only [run, hstep, hrun, ok_bind, pure_eq_ok]
      · have hvalues : seedValues (setting :: calls) = seedValues calls := by
          rw [seedValues, List.filter_cons, if_neg (by simpa using hnames)]
          rfl
        rw [hvalues]
        exact hfinal

theorem seedsOf_eq_nil_iff (value : Bytes) : seedsOf atoi value = [] ↔ colon ∉ value := by
  rw [seedsOf, List.filterMap_eq_nil_iff]
  constructor
  · intro hnone hmem
    have hrun : colon ∈ (runs separates value).flatten :=
      mem_flatten_runs_iff.mpr ⟨hmem, by decide⟩
    obtain ⟨token, htoken, hcolon⟩ := List.mem_flatten.mp hrun
    exact strchr_eq_none (Option.map_eq_none_iff.mp (hnone token htoken)) hcolon
  · intro hnot token htoken
    rcases hcolon : strchr token colon with _ | index
    · rfl
    · exfalso
      apply hnot
      have hmem := List.mem_flatten.mpr ⟨token, htoken, (strchr_eq_some hcolon).1⟩
      exact (mem_flatten_runs_iff.mp hmem).1

/-- The last of several lists is all of them together exactly if the others are empty. -/
theorem getLastD_eq_flatten_iff {α : Type} (lists : List (List α)) :
    lists.getLastD [] = lists.flatten ↔ ∀ list ∈ lists.dropLast, list = [] := by
  rcases List.eq_nil_or_concat' lists with rfl | ⟨front, last, rfl⟩
  · exact iff_of_true rfl fun list hlist => absurd hlist List.not_mem_nil
  · rw [List.getLastD_concat, List.dropLast_concat, List.flatten_append, List.flatten_singleton,
      List.self_eq_append_left]
    exact List.flatten_eq_nil_iff

end Parse

/-- **No seed is lost exactly if all seeds are in the last value.**  For every sequence
    of handler calls in one parse: no call faults; at the end the seed list is the
    concatenation of the seeds of all values handed over for `SERVER`/`SEEDS` if and
    only if none of these values but the last contains a colon; and a call for another
    setting leaves the list as it is. -/
theorem seeds_accumulate_iff (atoi : Bytes → Int32) (calls : List Setting) :
    (∃ codes final, run (configStep atoi) defaultConfig calls = .ok (codes, final) ∧
      (HasSeeds final ((seedValues calls).flatMap (seedsOf atoi)) ↔
        ∀ value ∈ (seedValues calls).dropLast, colon ∉ value)) ∧
    (∀ (cfg : Config) (setting : Setting), ¬ setting.Names "SERVER" "SEEDS" →
      ∃ code cfg', configStep atoi cfg setting = .ok (code, cfg') ∧
        cfg'.seedNodes = cfg.seedNodes ∧ cfg'.seedNodesCount = cfg.seedNodesCount) := by
  refine ⟨?_, fun cfg setting hother => configStep_other atoi hother cfg⟩
  obtain ⟨codes, final, hrun, hlast⟩ := @run_configStep atoi calls defaultConfig [] ⟨rfl, rfl⟩
  refine ⟨codes, final, hrun, ?_⟩
  have hlists := getLastD_eq_flatten_iff ((seedValues calls).map (seedsOf atoi))
  rw [← List.flatMap_def, ← List.map_dropLast] at hlists
  constructor
  · intro hall value hvalue
    have hempty := hlists.mp (hlast.unique hall) _ (List.mem_map_of_mem hvalue)
    exact (seedsOf_eq_nil_iff value).mp hempty
  · intro hnone
    rw [← hlists.mpr ?_]
    · exact hlast
    · intro seeds hseeds
      obtain ⟨value, hvalue, rfl⟩ := List.mem_map.mp hseeds
      exact (seedsOf_eq_nil_iff value).mpr (hnone value hvalue)

/-- `atoi` on a string of digits whose value is an `int`. -/
def atoiDigits (text : Bytes) : Int32 :=
  Int32.ofNat (text.foldl (fun n char => 10 * n + (char.toNat - 48)) 0)

theorem noNul_first : (0 : UInt8) ∉ ascii "a:1" := by decide

theorem noNul_second : (0 : UInt8) ∉ ascii "b:2" := by decide

/-- A seed on the line of the setting and a second one on a continuation line. -/
def continuedSeeds : List Setting :=
  [seedsSetting ⟨ascii "a:1", noNul_first⟩, seedsSetting ⟨ascii "b:2", noNul_second⟩]

theorem continuation_loses_seed :
    (seedValues continuedSeeds).flatMap (fun value => (seedsOf atoiDigits value).map NodeAddr.view) =
        [(ascii "a", 1), (ascii "b", 2)] ∧
      ∃ codes final, run (configStep atoiDigits) defaultConfig continuedSeeds = .ok (codes, final) ∧
        final.seedNodesCount = 1 ∧
        ¬ HasSeeds final ((seedValues continuedSeeds).flatMap (seedsOf atoiDigits)) := by
  refine ⟨by decide +kernel, ?_⟩
  obtain ⟨codes, final, hrun, hlast⟩ :=
    @run_configStep atoiDigits continuedSeeds defaultConfig [] ⟨rfl, rfl⟩
  have hcount : final.seedNodesCount = 1 := hlast.1
  refine ⟨codes, final, hrun, hcount, ?_⟩
  rintro ⟨htwo, -⟩
  rw [hcount] at htwo
  exact absurd htwo (by decide +kernel)

end Cdht.Settings
