/-
  Cdht/IniDocument.lean
  =====================
  **What the handler of a configuration file can rely on.**

  From the description of a file by its events follow the promises of `ini.h`.  The texts
  that reach the handler are short, trimmed and free of comments, whatever the file
  contains (`events_tidy`).  The parser does not stop at a mistake, and returns the
  number of the first line with one (`iniParseFile_returns`).  Line numbers are natural
  numbers here and of type `int` in the source; they are the same as long as the file has
  fewer than 2^31 lines, as no line number exceeds the number of lines.
-/
import Cdht.IniRefinement

namespace Cdht.IniDocument

open Cdht.Memory Cdht.Format Cdht.Strings Cdht.TextBuffer Cdht.Ini Cdht.IniGrammar
open Cdht.IniRefinement
open Cdht.Settings (isspace Setting)

/-! ### Texts without newlines and comments -/

/-- A newline can only be the last character. -/
def OneLine (text : Bytes) : Prop := ∀ front back, text = front ++ newline :: back → back = []

/-- No `;` stands behind white space. -/
def CommentFree (text : Bytes) : Prop :=
  ∀ front space back, text = front ++ space :: 59 :: back → isspace space = false

theorem OneLine.of_front {text part : Bytes} (h : OneLine text) (hpart : part <+: text) :
    OneLine part := by
  obtain ⟨rest, rfl⟩ := hpart
  intro front back heq
  have hnil := h front (back ++ rest) (by rw [heq, List.append_assoc, List.cons_append])
  exact (List.append_eq_nil_iff.mp hnil).1

theorem OneLine.of_suffix {text part : Bytes} (h : OneLine text) (hpart : part <:+ text) :
    OneLine part := by
  obtain ⟨rest, rfl⟩ := hpart
  intro front back heq
  exact h (rest ++ front) back (by rw [heq, List.append_assoc])

theorem CommentFree.of_front {text part : Bytes} (h : CommentFree text) (hpart : part <+: text) :
    CommentFree part := by
  obtain ⟨rest, rfl⟩ := hpart
  intro front space back heq
  exact h front space (back ++ rest) (by rw [heq, List.append_assoc]; rfl)

theorem CommentFree.of_suffix {text part : Bytes} (h : CommentFree text) (hpart : part <:+ text) :
    CommentFree part := by
  obtain ⟨rest, rfl⟩ := hpart
  intro front space back heq
  exact h (rest ++ front) space back (by rw [heq, List.append_assoc])

theorem commentFree_of_not_mem {text : Bytes} (h : 59 ∉ text) : CommentFree text := by
  rintro front space back rfl
  exact absurd (List.mem_append_right front (List.mem_cons_of_mem space List.mem_cons_self)) h

theorem oneLine_fgetsChunk (n : Nat) (file : Bytes) : OneLine (fgetsChunk n file).1 := by
  induction n generalizing file with
  | zero =>
    intro front back heq
    exact absurd heq.symm (by simp [fgetsChunk])
  | succ n ih =>
    cases file with
    | nil =>
      intro front back heq
      exact absurd heq.symm (by simp [fgetsChunk])
    | cons char file =>
      intro front back heq
      rw [fgetsChunk] at heq
      by_cases hnewline : char = newline
      · rw [if_pos hnewline] at heq
        have hlength := congrArg List.length heq
        rw [List.length_singleton, List.length_append, List.length_cons] at hlength
        exact List.eq_nil_of_length_eq_zero (by omega)
      · rw [if_neg hnewline] at heq
        cases front with
        | nil => exact absurd (List.cons.inj heq).1 hnewline
        | cons first front => exact ih file front back (List.cons.inj heq).2

/-- Trimming takes the newline away. -/
theorem OneLine.newline_not_mem {text : Bytes} (h : OneLine text) : newline ∉ trimEnd text := by
  intro hmem
  obtain ⟨front, back, hsplit⟩ := List.append_of_mem hmem
  obtain rfl := h.of_front (List.rdropWhile_prefix isspace text) front back hsplit
  have hne : text.rdropWhile isspace ≠ [] := by
    rw [trimEnd] at hsplit
    rw [hsplit]
    simp
  have hlast := List.rdropWhile_last_not isspace text hne
  have hspace : (text.rdropWhile isspace).getLast hne = newline := by
    rw [List.getLast_eq_iff_getLast?_eq_some]
    rw [trimEnd] at hsplit
    rw [hsplit, List.getLast?_append_cons]
    rfl
  rw [hspace] at hlast
  exact hlast rfl

theorem not_mem_upTo {chars text : Bytes} {char : UInt8} (h : char ∈ chars) :
    char ∉ upTo chars text := by
  have hscan : ∀ wasSpace, char ∉ scanned (findStep chars) wasSpace text := by
    induction text with
    | nil => exact fun _ => List.not_mem_nil
    | cons first text ih =>
      intro wasSpace
      rw [scanned]
      rcases hstep : findStep chars wasSpace first with _ | next
      · exact List.not_mem_nil
      · have hfirst : first ∉ chars := by
          intro hmem
          rw [findStep, List.contains_iff_mem.mpr hmem, Bool.true_or, if_pos rfl] at hstep
          cases hstep
        rw [List.mem_cons, not_or]
        exact ⟨fun heq => hfirst (heq ▸ h), ih next⟩
  exact hscan false

theorem commentFree_upTo (chars text : Bytes) : CommentFree (upTo chars text) := by
  -- a scan that begins behind white space does not pass over a `;`
  have hscan : ∀ wasSpace, CommentFree (scanned (findStep chars) wasSpace text) ∧
      (wasSpace = true → ∀ back, scanned (findStep chars) wasSpace text ≠ 59 :: back) := by
    induction text with
    | nil =>
      intro wasSpace
      refine ⟨fun front space back heq => ?_, fun _ back heq => ?_⟩
      · exact absurd heq.symm (by simp [scanned])
      · cases heq
    | cons first text ih =>
      intro wasSpace
      rw [scanned]
      rcases hstep : findStep chars wasSpace first with _ | next
      · refine ⟨fun front space back heq => ?_, fun _ back heq => ?_⟩
        · exact absurd heq.symm (by simp)
        · cases heq
      · have hnext : next = isspace first := by
          rw [findStep] at hstep
          split at hstep
          · cases hstep
          · exact (Option.some.inj hstep).symm
        obtain ⟨hfree, hhead⟩ := ih next
        constructor
        · intro front space back heq
          cases front with
          | nil =>
            obtain ⟨rfl, hrest⟩ := List.cons.inj heq
            by_contra hspace
            exact hhead (hnext.trans (eq_true_of_ne_false hspace)) back hrest
          | cons other front => exact hfree front space back (List.cons.inj heq).2
        · intro hwas back heq
          obtain ⟨rfl, -⟩ := List.cons.inj heq
          rw [findStep, hwas] at hstep
          simp [ascii] at hstep
  exact (hscan false).1

theorem trimStart_eq_self_iff {text : Bytes} :
    trimStart text = text ↔ ∀ char ∈ text.head?, isspace char = false := by
  cases text with
  | nil => simp [trimStart]
  | cons first text =>
    by_cases hspace : isspace first = true
    · have hle := List.length_dropWhile_le isspace text
      refine iff_of_false (fun heq => ?_) (fun hall => ?_)
      · have hlength := congrArg List.length heq
        rw [trimStart, List.dropWhile_cons_of_pos hspace, List.length_cons] at hlength
        omega
      · rw [hall first rfl] at hspace
        cases hspace
    · refine iff_of_true (List.dropWhile_cons_of_neg hspace) (fun char hchar => ?_)
      obtain rfl : first = char := Option.some.inj hchar
      exact eq_false_of_ne_true hspace

theorem trimEnd_eq_self_iff {text : Bytes} :
    trimEnd text = text ↔ ∀ char ∈ text.getLast?, isspace char = false := by
  rw [trimEnd, List.rdropWhile_eq_self_iff]
  constructor
  · intro hlast char hchar
    obtain ⟨hne, rfl⟩ := List.mem_getLast?_eq_getLast hchar
    exact eq_false_of_ne_true (hlast hne)
  · intro hall hne hspace
    rw [hall _ (List.getLast?_eq_some_getLast hne)] at hspace
    cases hspace

theorem trimStart_of_front {text part : Bytes} (h : trimStart text = text)
    (hpart : part <+: text) : trimStart part = part := by
  obtain ⟨rest, rfl⟩ := hpart
  rw [trimStart_eq_self_iff] at h ⊢
  intro char hchar
  apply h
  cases part with
  | nil => cases hchar
  | cons first part => exact hchar

theorem trimEnd_trimEnd (text : Bytes) : trimEnd (trimEnd text) = trimEnd text :=
  List.rdropWhile_idempotent isspace text

theorem trimStart_trimStart (text : Bytes) : trimStart (trimStart text) = trimStart text :=
  List.dropWhile_idempotent isspace text

theorem trimEnd_front (text : Bytes) : trimEnd text <+: text := List.rdropWhile_prefix isspace text

theorem trimStart_suffix (text : Bytes) : trimStart text <:+ text := List.dropWhile_suffix isspace

theorem upTo_front (chars text : Bytes) : upTo chars text <+: text := scanned_front _ _ _

/-! ### The texts that reach the handler -/

/-- What can be said about every call of the handler. -/
structure Tidy (call : Setting) : Prop where
  sectionLength : call.sectionName.chars.length ≤ 49
  sectionClosed : 93 ∉ call.sectionName.chars
  nameLength : call.name.chars.length ≤ 198
  nameSplit : 61 ∉ call.name.chars ∧ 58 ∉ call.name.chars
  valueLength : call.value.chars.length ≤ 198
  valueTrimmed : trimStart call.value.chars = call.value.chars ∧
    trimEnd call.value.chars = call.value.chars
  valueComment : CommentFree call.value.chars
  oneLine : newline ∉ call.sectionName.chars ∧ newline ∉ call.name.chars ∧
    newline ∉ call.value.chars

/-- The names that are remembered between the lines. -/
structure TidyReading (reading : Reading) : Prop where
  sectionLength : reading.sectionName.length ≤ 49
  sectionClosed : 93 ∉ reading.sectionName
  sectionChars : (0 : UInt8) ∉ reading.sectionName ∧ newline ∉ reading.sectionName
  prevLength : reading.prevName.length ≤ 49
  prevSplit : 61 ∉ reading.prevName ∧ 58 ∉ reading.prevName
  prevChars : (0 : UInt8) ∉ reading.prevName ∧ newline ∉ reading.prevName

/-- A text between its white space. -/
structure Body (body : Bytes) : Prop where
  noNul : (0 : UInt8) ∉ body
  noNewline : newline ∉ body
  trimmed : trimStart body = body

theorem TidyReading.call {reading : Reading} (h : TidyReading reading) {name value : Bytes}
    (hname : name.length ≤ 198) (hsplit : 61 ∉ name ∧ 58 ∉ name)
    (hnameChars : (0 : UInt8) ∉ name ∧ newline ∉ name) (hvalue : value.length ≤ 198)
    (htrimmed : trimStart value = value ∧ trimEnd value = value) (hfree : CommentFree value)
    (hvalueChars : (0 : UInt8) ∉ value ∧ newline ∉ value) :
    Tidy (setting reading.sectionName name value) := by
  have hsectionName : (setting reading.sectionName name value).sectionName.chars =
      reading.sectionName := cstr_eq_self h.sectionChars.1
  have hnameText : (setting reading.sectionName name value).name.chars = name :=
    cstr_eq_self hnameChars.1
  have hvalueText : (setting reading.sectionName name value).value.chars = value :=
    cstr_eq_self hvalueChars.1
  constructor
  · rw [hsectionName]; exact h.sectionLength
  · rw [hsectionName]; exact h.sectionClosed
  · rw [hnameText]; exact hname
  · rw [hnameText]; exact hsplit
  · rw [hvalueText]; exact hvalue
  · rw [hvalueText]; exact htrimmed
  · rw [hvalueText]; exact hfree
  · rw [hsectionName, hnameText, hvalueText]
    exact ⟨h.sectionChars.2, hnameChars.2, hvalueChars.2⟩

/-- The reading stays tidy, and so is the call of the line. -/
def TidyResult (result : Reading × List Event) : Prop :=
  TidyReading result.1 ∧ ∀ call : Setting, some call ∈ result.2 → Tidy call

theorem tidy_continuation {reading : Reading} (h : TidyReading reading) {body : Bytes}
    (hbody : Body body) (hlength : body.length ≤ 198) :
    TidyResult (readKind reading (.continuation (trimEnd (upTo [] body)))) := by
  have hfront : trimEnd (upTo [] body) <+: body := (trimEnd_front _).trans (upTo_front _ _)
  refine ⟨h, fun call hcall => ?_⟩
  obtain rfl : call = setting reading.sectionName reading.prevName (trimEnd (upTo [] body)) := by
    simpa [readKind] using hcall
  have hprev := h.prevLength
  refine h.call (by omega) h.prevSplit h.prevChars ?_ ⟨?_, ?_⟩ ?_ ⟨?_, ?_⟩
  · exact Nat.le_trans hfront.length_le hlength
  · exact trimStart_of_front hbody.trimmed hfront
  · exact trimEnd_trimEnd _
  · exact (commentFree_upTo [] body).of_front (trimEnd_front _)
  · exact fun hmem => hbody.noNul (hfront.subset hmem)
  · exact fun hmem => hbody.noNewline (hfront.subset hmem)

theorem tidy_heading {reading : Reading} (h : TidyReading reading) {rest : Bytes}
    (hnul : (0 : UInt8) ∉ rest) (hnewline : newline ∉ rest) :
    TidyResult (readKind reading (headingOf rest)) := by
  have hsub : ∀ char ∈ (upTo (ascii "]") rest).take 49, char ∈ upTo (ascii "]") rest :=
    fun char hmem => List.mem_of_mem_take hmem
  rw [headingOf]
  split
  · refine ⟨⟨?_, ?_, ⟨?_, ?_⟩, Nat.zero_le _, ?_, ?_⟩, fun call hcall => ?_⟩
    · exact (List.length_take_le _ _)
    · exact fun hmem => not_mem_upTo (by decide) (hsub _ hmem)
    · exact fun hmem => hnul ((upTo_front _ _).subset (hsub _ hmem))
    · exact fun hmem => hnewline ((upTo_front _ _).subset (hsub _ hmem))
    · exact ⟨List.not_mem_nil, List.not_mem_nil⟩
    · exact ⟨List.not_mem_nil, List.not_mem_nil⟩
    · simp [readKind] at hcall
  · exact ⟨h, fun call hcall => by simp [readKind] at hcall⟩

theorem tidy_setting {reading : Reading} (h : TidyReading reading) {body : Bytes}
    (hbody : Body body) (hlength : body.length ≤ 199) :
    TidyResult (readKind reading (settingOf body)) := by
  have hname : trimEnd (upTo (ascii "=:") body) <+: body :=
    (trimEnd_front _).trans (upTo_front _ _)
  have hsplit := upTo_append_drop (ascii "=:") body
  rw [settingOf]
  rcases hstop : body.drop (upTo (ascii "=:") body).length with _ | ⟨stop, back⟩
  · exact ⟨h, fun call hcall => by simp [readKind] at hcall⟩
  simp only
  split
  · rw [hstop] at hsplit
    have hlengths := congrArg List.length hsplit
    rw [List.length_append, List.length_cons] at hlengths
    have hnameLength := (trimEnd_front (upTo (ascii "=:") body)).length_le
    have hvalue : ∀ char ∈ trimEnd (trimStart (upTo [] back)), char ∈ body := by
      intro char hmem
      rw [← hsplit]
      apply List.mem_append_right
      apply List.mem_cons_of_mem
      exact (upTo_front [] back).subset ((trimStart_suffix _).subset
        ((trimEnd_front _).subset hmem))
    have hvalueLength : (trimEnd (trimStart (upTo [] back))).length ≤ back.length :=
      Nat.le_trans (trimEnd_front _).length_le
        (Nat.le_trans (trimStart_suffix _).length_le (upTo_front [] back).length_le)
    have hsplits : 61 ∉ trimEnd (upTo (ascii "=:") body) ∧
        58 ∉ trimEnd (upTo (ascii "=:") body) :=
      ⟨fun hmem => not_mem_upTo (by decide) ((trimEnd_front _).subset hmem),
        fun hmem => not_mem_upTo (by decide) ((trimEnd_front _).subset hmem)⟩
    have hchars : (0 : UInt8) ∉ trimEnd (upTo (ascii "=:") body) ∧
        newline ∉ trimEnd (upTo (ascii "=:") body) :=
      ⟨fun hmem => hbody.noNul (hname.subset hmem), fun hmem => hbody.noNewline (hname.subset hmem)⟩
    refine ⟨⟨h.sectionLength, h.sectionClosed, h.sectionChars, List.length_take_le _ _,
      ⟨fun hmem => hsplits.1 (List.mem_of_mem_take hmem),
        fun hmem => hsplits.2 (List.mem_of_mem_take hmem)⟩,
      ⟨fun hmem => hchars.1 (List.mem_of_mem_take hmem),
        fun hmem => hchars.2 (List.mem_of_mem_take hmem)⟩⟩, fun call hcall => ?_⟩
    obtain rfl : call = setting reading.sectionName (trimEnd (upTo (ascii "=:") body))
        (trimEnd (trimStart (upTo [] back))) := by
      simpa [readKind] using hcall
    refine h.call (by omega) hsplits hchars (by omega) ⟨?_, trimEnd_trimEnd _⟩ ?_ ⟨?_, ?_⟩
    · exact trimStart_of_front (trimStart_trimStart _) (trimEnd_front _)
    · exact ((commentFree_upTo [] back).of_suffix (trimStart_suffix _)).of_front (trimEnd_front _)
    · exact fun hmem => hbody.noNul (hvalue _ hmem)
    · exact fun hmem => hbody.noNewline (hvalue _ hmem)
  · exact ⟨h, fun call hcall => by simp [readKind] at hcall⟩

/-- The text of a raw line. -/
structure LineText (text : Bytes) : Prop where
  length : text.length ≤ 199
  noNul : (0 : UInt8) ∉ text
  oneLine : OneLine text

theorem tidy_line {reading : Reading} (h : TidyReading reading) (first : Bool) {text : Bytes}
    (htext : LineText text) : TidyResult (readKind reading (kindOf reading first text)) := by
  have hsuffix : trimStart (text.drop (bomLength first text)) <:+ text :=
    (trimStart_suffix _).trans (List.drop_suffix _ _)
  have hfront := trimEnd_front (trimStart (text.drop (bomLength first text)))
  have hbody : Body (trimEnd (trimStart (text.drop (bomLength first text)))) :=
    ⟨fun hmem => htext.noNul (hsuffix.subset (hfront.subset hmem)),
      (htext.oneLine.of_suffix hsuffix).newline_not_mem,
      trimStart_of_front (trimStart_trimStart _) hfront⟩
  have hindent : indent first text + (trimStart (text.drop (bomLength first text))).length =
      text.length := by
    have hbom := bomLength_le first text
    rw [indent, trimStart, Nat.add_assoc, ← List.length_append, List.takeWhile_append_dropWhile,
      List.length_drop]
    omega
  have hlength := htext.length
  have hshorter := hfront.length_le
  rw [kindOf]
  generalize trimEnd (trimStart (text.drop (bomLength first text))) = body at hbody hshorter
  cases body with
  | nil => exact ⟨h, fun call hcall => by simp [classify, readKind] at hcall⟩
  | cons char rest =>
    rw [classify]
    split
    · exact ⟨h, fun call hcall => by simp [readKind] at hcall⟩
    split
    · rename_i hcontinues
      rw [Bool.and_eq_true, decide_eq_true_eq, decide_eq_true_eq] at hcontinues
      exact tidy_continuation h hbody (by omega)
    split
    · exact tidy_heading h (fun hmem => hbody.noNul (List.mem_cons_of_mem char hmem))
        (fun hmem => hbody.noNewline (List.mem_cons_of_mem char hmem))
    · exact tidy_setting h hbody (by omega)

theorem lineText_cstr (file : Bytes) : LineText (cstr (fgetsChunk 199 file).1) := by
  have hfront : cstr (fgetsChunk 199 file).1 <+: (fgetsChunk 199 file).1 :=
    List.takeWhile_prefix _
  exact ⟨Nat.le_trans hfront.length_le (length_fgetsChunk_le 199 file), nul_not_mem_cstr _,
    (oneLine_fgetsChunk 199 file).of_front hfront⟩

theorem lineText_of_mem_rawLines {file : Bytes} {raw : RawLine} (h : raw ∈ rawLines file) :
    LineText raw.text := by
  rw [rawLines] at h
  split at h
  · exact absurd h List.not_mem_nil
  · rename_i hfile
    have hless := length_rest_of_line hfile
    have hafter := length_afterLong_le (fgetsChunk 199 file).2
    split at h
    · rcases List.mem_cons.mp h with rfl | hlater
      · exact lineText_cstr file
      · exact lineText_of_mem_rawLines hlater
    · rcases List.mem_cons.mp h with rfl | hlater
      · exact lineText_cstr file
      · exact lineText_of_mem_rawLines hlater
termination_by file.length

theorem eventsFrom_tidy {reading : Reading} (h : TidyReading reading) (lineno : Nat)
    {raws : List RawLine} (hraws : ∀ raw ∈ raws, LineText raw.text) {line : Nat} {call : Setting}
    (hcall : (line, some call) ∈ eventsFrom reading lineno raws) : Tidy call := by
  induction raws generalizing reading lineno with
  | nil => exact absurd hcall List.not_mem_nil
  | cons raw raws ih =>
    obtain ⟨hnext, hcalls⟩ := tidy_line h (lineno + 1 = 1) (hraws raw List.mem_cons_self)
    rw [eventsFrom, List.mem_append, List.mem_map] at hcall
    rcases hcall with ⟨event, hevent, heq⟩ | hlater
    · obtain rfl : event = some call := (Prod.mk.inj heq).2
      rcases List.mem_append.mp hevent with hlong | hline
      · split at hlong
        · simp at hlong
        · simp at hlong
      · exact hcalls call hline
    · exact ih hnext (lineno + 1) (fun other hother => hraws other (List.mem_cons_of_mem raw hother))
        hlater

theorem tidyReading_start : TidyReading ⟨[], []⟩ :=
  ⟨Nat.zero_le _, List.not_mem_nil, ⟨List.not_mem_nil, List.not_mem_nil⟩, Nat.zero_le _,
    ⟨List.not_mem_nil, List.not_mem_nil⟩, ⟨List.not_mem_nil, List.not_mem_nil⟩⟩

theorem events_tidy {file : Bytes} {line : Nat} {call : Setting}
    (h : (line, some call) ∈ events file) : Tidy call :=
  eventsFrom_tidy tidyReading_start 0 (fun _ hraw => lineText_of_mem_rawLines hraw) h

/-! ### Every call of the handler -/

/-- A handler that writes its calls down. -/
def recorder : IniHandler (List Setting) := fun calls sectionName name value =>
  .ok (1, calls ++ [⟨sectionName, name, value⟩])

/-- The settings of a file. -/
def settings (file : Bytes) : List Setting := (events file).filterMap Prod.snd

theorem perform_recorder (error : Nat) (calls : List Setting) (list : List (Nat × Event)) :
    ∃ error', perform recorder error calls list = .ok (error', calls ++ list.filterMap Prod.snd) := by
  induction list generalizing error calls with
  | nil => exact ⟨error, by rw [List.filterMap_nil, List.append_nil]; rfl⟩
  | cons event list ih =>
    obtain ⟨line, _ | call⟩ := event
    · exact ih (flagged error line) calls
    · obtain ⟨error', hrest⟩ := ih error (calls ++ [call])
      refine ⟨error', ?_⟩
      rw [List.append_assoc, List.singleton_append] at hrest
      exact hrest

/-- **What reaches the handler is tidy**, for every file: at most 49 bytes of section and
    198 of name and value, the value trimmed and without comment, the name without `=`
    and `:`, no newline anywhere. -/
theorem iniParseFile_calls_tidy (file : Bytes) :
    ∃ error calls, iniParseFile recorder file [] = .ok (error, calls) ∧ ∀ call ∈ calls, Tidy call := by
  obtain ⟨error, hrun⟩ := perform_recorder 0 [] (events file)
  refine ⟨error, settings file, ?_, ?_⟩
  · rw [iniParseFile, iniParseStream_performs recorder fileReader_readsAs rfl, hrun]
    rfl
  · intro call hcall
    obtain ⟨⟨line, event⟩, hevent, heq⟩ := List.mem_filterMap.mp hcall
    obtain rfl : event = some call := heq
    exact events_tidy hevent

/-! ### The returned line -/

section Returns

variable {υ : Type} (accept : υ → Setting → Int × υ)

/-- A handler that always returns. -/
def handlerOf : IniHandler υ := fun user sectionName name value =>
  .ok (accept user ⟨sectionName, name, value⟩)

/-- The lines with a mistake or with a setting that the handler refuses. -/
def failures (user : υ) : List (Nat × Event) → List Nat
  | [] => []
  | (line, none) :: list => line :: failures user list
  | (line, some call) :: list =>
      if (accept user call).1 = 0 then line :: failures (accept user call).2 list
      else failures (accept user call).2 list

/-- The user's data after all the settings. -/
def accepted (user : υ) (calls : List Setting) : υ :=
  calls.foldl (fun user call => (accept user call).2) user

theorem perform_handlerOf (error : Nat) (user : υ) {list : List (Nat × Event)}
    (hpos : ∀ event ∈ list, 0 < event.1) :
    perform (handlerOf accept) error user list =
      .ok (if error = 0 then (failures accept user list).headD 0 else error,
        accepted accept user (list.filterMap Prod.snd)) := by
  induction list generalizing error user with
  | nil =>
    by_cases herror : error = 0
    · rw [if_pos herror, herror]
      rfl
    · rw [if_neg herror]
      rfl
  | cons event list ih =>
    have hline : 0 < event.1 := hpos event List.mem_cons_self
    have hrest : ∀ event ∈ list, 0 < event.1 := fun other hother =>
      hpos other (List.mem_cons_of_mem event hother)
    -- once a line is flagged, it stays
    have hflagged : ∀ user' : υ, perform (handlerOf accept) (flagged error event.1) user' list =
        .ok (if error = 0 then event.1 else error,
          accepted accept user' (list.filterMap Prod.snd)) := by
      intro user'
      rw [ih _ _ hrest]
      by_cases herror : error = 0
      · simp only [flagged, if_pos herror, if_neg (Nat.ne_of_gt hline)]
      · simp only [flagged, if_neg herror]
    obtain ⟨line, _ | call⟩ := event
    · exact hflagged user
    · rw [perform, performEvent, handlerOf, ok_bind]
      by_cases hcode : (accept user call).1 = 0
      · simp only [failures, hcode, if_true, ok_bind, pure_eq_ok]
        exact hflagged _
      · simp only [failures, hcode, if_false, ok_bind, pure_eq_ok]
        exact ih error _ hrest

theorem eventsFrom_lines (reading : Reading) (lineno : Nat) (raws : List RawLine) :
    (∀ event ∈ eventsFrom reading lineno raws, lineno < event.1 ∧ event.1 ≤ lineno + raws.length) ∧
      ((eventsFrom reading lineno raws).map Prod.fst).Pairwise (· ≤ ·) := by
  induction raws generalizing reading lineno with
  | nil => exact ⟨fun event hevent => absurd hevent List.not_mem_nil, List.Pairwise.nil⟩
  | cons raw raws ih =>
    obtain ⟨hlater, hsorted⟩ := ih
      (readKind reading (kindOf reading (lineno + 1 = 1) raw.text)).1 (lineno + 1)
    constructor
    · intro event hevent
      rw [eventsFrom, List.mem_append, List.mem_map] at hevent
      rw [List.length_cons]
      rcases hevent with ⟨kind, -, rfl⟩ | hrest
      · exact ⟨Nat.lt_succ_self lineno, by omega⟩
      · have hbounds := hlater event hrest
        omega
    · rw [eventsFrom, List.map_append, List.pairwise_append]
      refine ⟨?_, hsorted, ?_⟩
      · rw [List.map_map]
        exact List.pairwise_map.mpr (List.pairwise_of_forall fun _ _ => Nat.le_refl _)
      · intro left hleft right hright
        obtain ⟨event, hevent, rfl⟩ := List.mem_map.mp hleft
        obtain ⟨kind, -, rfl⟩ := List.mem_map.mp hevent
        obtain ⟨other, hother, rfl⟩ := List.mem_map.mp hright
        exact Nat.le_of_lt (hlater other hother).1

theorem failures_sublist (user : υ) (list : List (Nat × Event)) :
    List.Sublist (failures accept user list) (list.map Prod.fst) := by
  induction list generalizing user with
  | nil => exact List.Sublist.slnil
  | cons event list ih =>
    obtain ⟨line, _ | call⟩ := event
    · exact (ih user).cons_cons line
    · rw [failures]
      split
      · exact (ih _).cons_cons line
      · exact (ih _).cons line

/-- **The returned number is that of the first line with a mistake**, or 0 if there is
    none; the parser does not stop at a mistake, so every setting of the file reaches the
    handler.  It is at most the number of lines of the file, and `ini_parse` returns it
    too, once it has opened the file. -/
theorem iniParseFile_returns (file : Bytes) (user : υ) :
    ∃ error, iniParseFile (handlerOf accept) file user =
        .ok (error, accepted accept user (settings file)) ∧
      (error = 0 ↔ failures accept user (events file) = []) ∧
      (error ≠ 0 → error ∈ failures accept user (events file) ∧
        ∀ line ∈ failures accept user (events file), error ≤ line) ∧
      error ≤ (rawLines file).length ∧
      iniParse (handlerOf accept) (some file) user =
        .ok ((error : Int), accepted accept user (settings file)) := by
  obtain ⟨hlines, hsorted⟩ :
      (∀ event ∈ events file, 0 < event.1 ∧ event.1 ≤ 0 + (rawLines file).length) ∧
      ((events file).map Prod.fst).Pairwise (· ≤ ·) := eventsFrom_lines ⟨[], []⟩ 0 (rawLines file)
  have hpos : ∀ event ∈ events file, 0 < event.1 := fun event hevent => (hlines event hevent).1
  have hsublist := failures_sublist accept user (events file)
  have hperform : perform (handlerOf accept) 0 user (events file) =
      .ok ((failures accept user (events file)).headD 0, accepted accept user (settings file)) := by
    rw [perform_handlerOf accept 0 user hpos, if_pos rfl]
    rfl
  refine ⟨(failures accept user (events file)).headD 0, ?_, ?_⟩
  · rw [iniParseFile, iniParseStream_performs _ fileReader_readsAs rfl, hperform]
  have hopened : iniParse (handlerOf accept) (some file) user =
      .ok (((failures accept user (events file)).headD 0 : Nat),
        accepted accept user (settings file)) := by
    simp only [iniParse_performs, hperform, ok_bind, pure_eq_ok]
  have hordered := hsorted.sublist hsublist
  rcases hfailures : failures accept user (events file) with _ | ⟨first, rest⟩
  · refine ⟨iff_of_true rfl rfl, fun h => absurd rfl h, Nat.zero_le _, ?_⟩
    rw [hopened, hfailures]
  · have hfirst : 0 < first ∧ first ≤ (rawLines file).length := by
      have hmem : first ∈ (events file).map Prod.fst :=
        hsublist.subset (hfailures ▸ List.mem_cons_self)
      obtain ⟨event, hevent, rfl⟩ := List.mem_map.mp hmem
      have hbounds := hlines event hevent
      omega
    rw [hfailures] at hordered
    refine ⟨iff_of_false (Nat.ne_of_gt hfirst.1) (List.cons_ne_nil _ _), fun _ => ?_, hfirst.2, ?_⟩
    · refine ⟨List.mem_cons_self, fun line hline => ?_⟩
      rcases List.mem_cons.mp hline with rfl | hrest
      · exact Nat.le_refl _
      · exact (List.pairwise_cons.mp hordered).1 line hrest
    · rw [hopened, hfailures]

end Returns

end Cdht.IniDocument
