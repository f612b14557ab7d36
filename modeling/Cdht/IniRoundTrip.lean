/-
  Cdht/IniRoundTrip.lean
  ======================
  **A document that is written down is read back.**

  A document is a list of sections with their settings.  `render` writes a heading line
  for each section and a line `name=value` for each setting.  Under the conditions of
  `Writable`, which keep to the limits and the special characters of the parser, the
  events of the rendered file are exactly the settings of the document, in order and
  without a mistake (`events_render`), so a handler sees the document and nothing else.
-/
import Cdht.IniDocument

namespace Cdht.IniRoundTrip

open Cdht.Memory Cdht.Format Cdht.Strings Cdht.TextBuffer Cdht.Ini Cdht.IniGrammar
open Cdht.IniRefinement Cdht.IniDocument
open Cdht.Settings (isspace Setting)

/-! ### Writing -/

structure Entry where
  name : Bytes
  value : Bytes

structure Part where
  sectionName : Bytes
  entries : List Entry

def entryLine (entry : Entry) : Bytes := entry.name ++ 61 :: entry.value

def headingLine (sectionName : Bytes) : Bytes := 91 :: (sectionName ++ [93])

def renderEntries : List Entry → Bytes
  | [] => []
  | entry :: entries => entryLine entry ++ newline :: renderEntries entries

def render : List Part → Bytes
  | [] => []
  | part :: parts =>
      headingLine part.sectionName ++ newline :: (renderEntries part.entries ++ render parts)

/-! ### What can be written -/

/-- A text that fits a line. -/
structure Printable (text : Bytes) : Prop where
  noNul : (0 : UInt8) ∉ text
  noNewline : newline ∉ text
  commentFree : CommentFree text

structure WritableEntry (entry : Entry) : Prop where
  name : Printable entry.name
  value : Printable entry.value
  nameSplit : 61 ∉ entry.name ∧ 58 ∉ entry.name
  nameTrimmed : trimStart entry.name = entry.name ∧ trimEnd entry.name = entry.name
  nameStart : ∀ char ∈ entry.name.head?, char ∉ ascii ";#["
  valueTrimmed : trimStart entry.value = entry.value ∧ trimEnd entry.value = entry.value
  length : entry.name.length + entry.value.length ≤ 197

structure WritablePart (part : Part) : Prop where
  sectionName : Printable part.sectionName
  closed : 93 ∉ part.sectionName
  length : part.sectionName.length ≤ 49
  entries : ∀ entry ∈ part.entries, WritableEntry entry

/-! ### Lines -/

theorem fgetsChunk_line {line rest : Bytes} {n : Nat} (hnewline : newline ∉ line)
    (hlength : line.length < n) :
    fgetsChunk n (line ++ newline :: rest) = (line ++ [newline], rest) := by
  induction line generalizing n with
  | nil =>
    obtain ⟨n, rfl⟩ := Nat.exists_eq_succ_of_ne_zero (Nat.ne_of_gt hlength)
    rw [List.nil_append, fgetsChunk, if_pos rfl]
    rfl
  | cons char line ih =>
    rw [List.mem_cons, not_or] at hnewline
    rw [List.length_cons] at hlength
    obtain ⟨n, rfl⟩ := Nat.exists_eq_succ_of_ne_zero (by omega : n ≠ 0)
    rw [List.cons_append, fgetsChunk, if_neg (Ne.symm hnewline.1),
      ih hnewline.2 (Nat.lt_of_succ_lt_succ hlength)]
    rfl

theorem rawLines_line {line rest : Bytes} (hnul : (0 : UInt8) ∉ line) (hnewline : newline ∉ line)
    (hlength : line.length ≤ 198) :
    rawLines (line ++ newline :: rest) = ⟨line ++ [newline], false⟩ :: rawLines rest := by
  have hchunk := @fgetsChunk_line line rest 199 hnewline (by omega)
  have hstring : cstr (line ++ [newline]) = line ++ [newline] := by
    apply cstr_eq_self
    rw [List.mem_append, not_or]
    exact ⟨hnul, by decide⟩
  have hends : fills (line ++ [newline]) = false := by
    rw [fills, List.getLast?_append]
    simp
  rw [rawLines_eq (by simp), hchunk]
  simp only [hstring, hends, Bool.false_eq_true, if_false]

/-- The text of a line that neither begins nor ends with white space. -/
theorem kindOf_line {reading : Reading} {first : Bool} {line : Bytes}
    (hstart : trimStart line = line) (hend : trimEnd line = line) (hline : line ≠ [])
    (hbom : bomLength first (line ++ [newline]) = 0) :
    kindOf reading first (line ++ [newline]) = classify (reading.prevName ≠ []) false line := by
  have hkept : trimStart (line ++ [newline]) = line ++ [newline] := by
    obtain ⟨char, rest, rfl⟩ := List.exists_cons_of_ne_nil hline
    have hfirst := trimStart_eq_self_iff.mp hstart
    exact trimStart_eq_self_iff.mpr hfirst
  have hindent : indent first (line ++ [newline]) = 0 := by
    have hlength := congrArg List.length hkept
    have hsplit := congrArg List.length
      (@List.takeWhile_append_dropWhile _ isspace (line ++ [newline]))
    rw [List.length_append] at hsplit
    rw [trimStart] at hlength
    rw [indent, hbom, List.drop_zero]
    omega
  have htrimmed : trimEnd (line ++ [newline]) = line := by
    rw [trimEnd, List.rdropWhile_concat_pos _ _ _ (by decide)]
    exact hend
  rw [kindOf, hindent, hbom, List.drop_zero, hkept, htrimmed]
  rfl

/-! ### Stops -/

theorem scanned_append {chars rest : Bytes} (hrest : ∀ char ∈ rest.head?, char ∈ chars)
    (text : Bytes) : ∀ wasSpace, (∀ char ∈ text, char ∉ chars) → CommentFree text →
      (wasSpace = true → ∀ back, text ≠ 59 :: back) →
      scanned (findStep chars) wasSpace (text ++ rest) = text := by
  induction text with
  | nil =>
    intro wasSpace _ _ _
    cases rest with
    | nil => rfl
    | cons stop rest =>
      have hstop : chars.contains stop = true := List.contains_iff_mem.mpr (hrest stop rfl)
      have hstep : findStep chars wasSpace stop = none := by
        rw [findStep, hstop, Bool.true_or, if_pos rfl]
      simp only [List.nil_append, scanned, hstep]
  | cons char text ih =>
    intro wasSpace hchars hfree hhead
    have hchar : chars.contains char = false := by
      rw [Bool.eq_false_iff, ne_eq, List.contains_iff_mem]
      exact hchars char List.mem_cons_self
    have hcomment : (wasSpace && (ascii ";").contains char) = false := by
      rw [Bool.eq_false_iff]
      intro hboth
      rw [Bool.and_eq_true, List.contains_iff_mem] at hboth
      have hsemicolon : char = 59 := List.mem_singleton.mp hboth.2
      exact hhead hboth.1 text (by rw [hsemicolon])
    have hstep : findStep chars wasSpace char = some (isspace char) := by
      rw [findStep, hchar, hcomment]
      rfl
    have hnext := ih (isspace char) (fun other hother => hchars other (List.mem_cons_of_mem char hother))
      (hfree.of_suffix (List.suffix_cons char text)) (fun hspace back heq => by
        have hplain := hfree [] char back (by rw [heq]; rfl)
        rw [hspace] at hplain
        cases hplain)
    simp only [List.cons_append, scanned, hstep, hnext]

/-- A text that contains no stop is passed over as a whole. -/
theorem upTo_append {chars text rest : Bytes} (hchars : ∀ char ∈ text, char ∉ chars)
    (hfree : CommentFree text) (hrest : ∀ char ∈ rest.head?, char ∈ chars) :
    upTo chars (text ++ rest) = text :=
  scanned_append hrest text false hchars hfree (fun h => absurd h (by decide))

theorem upTo_self {text : Bytes} (hfree : CommentFree text) : upTo [] text = text := by
  have hwhole := @upTo_append [] text [] (fun _ _ => List.not_mem_nil) hfree (by simp)
  rwa [List.append_nil] at hwhole

/-! ### Reading back -/

theorem headingOf_heading {sectionName : Bytes} (hfree : CommentFree sectionName)
    (hclosed : 93 ∉ sectionName) : headingOf (sectionName ++ [93]) = .heading sectionName := by
  have hup : upTo (ascii "]") (sectionName ++ [93]) = sectionName := by
    apply upTo_append _ hfree
    · intro char hchar
      obtain rfl : 93 = char := by simpa using hchar
      decide
    · intro char hchar hmem
      obtain rfl : char = 93 := List.mem_singleton.mp hmem
      exact hclosed hchar
  rw [headingOf, hup, List.drop_left]
  rfl

theorem settingOf_entry {entry : Entry} (h : WritableEntry entry) :
    settingOf (entryLine entry) = .setting entry.name entry.value := by
  have hup : upTo (ascii "=:") (entry.name ++ 61 :: entry.value) = entry.name := by
    apply upTo_append _ h.name.commentFree
    · intro char hchar
      obtain rfl : 61 = char := by simpa using hchar
      decide
    · intro char hchar hmem
      have hstop : char = 61 ∨ char = 58 := by
        have hmem' : char ∈ [61, 58] := hmem
        simpa using hmem'
      rcases hstop with rfl | rfl
      · exact h.nameSplit.1 hchar
      · exact h.nameSplit.2 hchar
  rw [settingOf, entryLine, hup, List.drop_left]
  simp only [true_or, if_true, upTo_self h.value.commentFree, h.valueTrimmed.1, h.valueTrimmed.2,
    h.nameTrimmed.2]

theorem eventsFrom_line {reading : Reading} {lineno : Nat} {line : Bytes}
    (hnul : (0 : UInt8) ∉ line) (hnewline : newline ∉ line) (hlength : line.length ≤ 198)
    (hstart : trimStart line = line) (hend : trimEnd line = line) (hline : line ≠ [])
    (hbom : bomLength (lineno + 1 = 1) (line ++ [newline]) = 0) (rest : Bytes) :
    eventsFrom reading lineno (rawLines (line ++ newline :: rest)) =
      (readKind reading (classify (reading.prevName ≠ []) false line)).2.map
          (fun event => (lineno + 1, event)) ++
        eventsFrom (readKind reading (classify (reading.prevName ≠ []) false line)).1 (lineno + 1)
          (rawLines rest) := by
  rw [rawLines_line hnul hnewline hlength, eventsFrom, kindOf_line hstart hend hline hbom]
  rfl

theorem eventsFrom_heading {part : Part} (h : WritablePart part) (reading : Reading) (lineno : Nat)
    (rest : Bytes) :
    eventsFrom reading lineno (rawLines (headingLine part.sectionName ++ newline :: rest)) =
      eventsFrom ⟨part.sectionName, []⟩ (lineno + 1) (rawLines rest) := by
  have hkind : classify (reading.prevName ≠ []) false (headingLine part.sectionName) =
      .heading part.sectionName := by
    rw [headingLine, classify, if_neg (by decide), Bool.and_false, if_neg (by decide), if_pos rfl,
      headingOf_heading h.sectionName.commentFree h.closed]
  have hnul : (0 : UInt8) ∉ headingLine part.sectionName := by
    simp [headingLine, h.sectionName.noNul]
  have hnewline : newline ∉ headingLine part.sectionName := by
    have hname := h.sectionName.noNewline
    simp only [newline] at hname
    simp [headingLine, newline, hname]
  have hlength : (headingLine part.sectionName).length ≤ 198 := by
    have hname := h.length
    simp only [headingLine, List.length_cons, List.length_append, List.length_nil]
    omega
  have hstart : trimStart (headingLine part.sectionName) = headingLine part.sectionName := rfl
  have hend : trimEnd (headingLine part.sectionName) = headingLine part.sectionName := by
    rw [headingLine, ← List.cons_append]
    exact List.rdropWhile_concat_neg _ _ _ (by decide)
  rw [eventsFrom_line hnul hnewline hlength hstart hend (List.cons_ne_nil _ _) (by simp [bomLength, headingLine]),
    hkind, readKind, List.take_of_length_le h.length]
  rfl

theorem eventsFrom_entry {entry : Entry} (h : WritableEntry entry) (reading : Reading) {lineno : Nat}
    (hlineno : 0 < lineno) (rest : Bytes) :
    eventsFrom reading lineno (rawLines (entryLine entry ++ newline :: rest)) =
      (lineno + 1, some (setting reading.sectionName entry.name entry.value)) ::
        eventsFrom ⟨reading.sectionName, entry.name.take 49⟩ (lineno + 1) (rawLines rest) := by
  have hfirst : ∀ char ∈ (entryLine entry).head?, isspace char = false ∧ char ∉ ascii ";#[" := by
    intro char hchar
    rw [entryLine] at hchar
    rcases hname : entry.name with _ | ⟨first, name⟩
    · rw [hname] at hchar
      obtain rfl : 61 = char := Option.some.inj hchar
      decide
    · have htrimmed := trimStart_eq_self_iff.mp h.nameTrimmed.1
      have hstart := h.nameStart
      rw [hname] at hchar htrimmed hstart
      exact ⟨htrimmed char hchar, hstart char hchar⟩
  have hne : entryLine entry ≠ [] := by simp [entryLine]
  have hkind : classify (reading.prevName ≠ []) false (entryLine entry) =
      .setting entry.name entry.value := by
    obtain ⟨char, tail, hline⟩ := List.exists_cons_of_ne_nil hne
    have hchar : char ∉ ascii ";#[" := (hfirst char (by rw [hline]; rfl)).2
    have hplain : ¬ (ascii ";#").contains char = true := by
      rw [List.contains_iff_mem]
      exact fun hmem => hchar (List.mem_append_left [91] hmem)
    have hbracket : char ≠ 91 := by
      rintro rfl
      exact hchar (by decide)
    rw [hline, classify, if_neg hplain, Bool.and_false, if_neg (by decide), if_neg hbracket, ← hline,
      settingOf_entry h]
  have hnul : (0 : UInt8) ∉ entryLine entry := by
    simp [entryLine, h.name.noNul, h.value.noNul]
  have hnewline : newline ∉ entryLine entry := by
    have hname := h.name.noNewline
    have hvalue := h.value.noNewline
    simp only [newline] at hname hvalue
    simp [entryLine, newline, hname, hvalue]
  have hlength : (entryLine entry).length ≤ 198 := by
    have hboth := h.length
    simp only [entryLine, List.length_cons, List.length_append]
    omega
  have hend : trimEnd (entryLine entry) = entryLine entry := by
    have hvalue := trimEnd_eq_self_iff.mp h.valueTrimmed.2
    rw [trimEnd_eq_self_iff]
    intro char hchar
    rw [entryLine, List.getLast?_append_cons] at hchar
    rcases htext : entry.value with _ | ⟨first, value⟩
    · rw [htext] at hchar
      obtain rfl : 61 = char := Option.some.inj hchar
      decide
    · rw [htext] at hchar hvalue
      exact hvalue char hchar
  have hstart : trimStart (entryLine entry) = entryLine entry :=
    trimStart_eq_self_iff.mpr fun char hchar => (hfirst char hchar).1
  have hlater : ¬ lineno + 1 = 1 := by omega
  have hbom : bomLength (lineno + 1 = 1) (entryLine entry ++ [newline]) = 0 := by
    rw [bomLength, decide_eq_false hlater]
    rfl
  rw [eventsFrom_line hnul hnewline hlength hstart hend hne hbom, hkind, readKind]
  rfl

theorem eventsFrom_entries {entries : List Entry} (h : ∀ entry ∈ entries, WritableEntry entry)
    (reading : Reading) {lineno : Nat} (hlineno : 0 < lineno) (rest : Bytes) :
    ∃ reading' lineno', 0 < lineno' ∧
      (eventsFrom reading lineno (rawLines (renderEntries entries ++ rest))).map Prod.snd =
        entries.map (fun entry => some (setting reading.sectionName entry.name entry.value)) ++
          (eventsFrom reading' lineno' (rawLines rest)).map Prod.snd := by
  induction entries generalizing reading lineno with
  | nil => exact ⟨reading, lineno, hlineno, rfl⟩
  | cons entry entries ih =>
    obtain ⟨reading', lineno', hpos, hrest⟩ := ih
      (fun other hother => h other (List.mem_cons_of_mem entry hother))
      ⟨reading.sectionName, entry.name.take 49⟩ (Nat.succ_pos lineno)
    refine ⟨reading', lineno', hpos, ?_⟩
    rw [renderEntries, List.append_assoc, List.cons_append,
      eventsFrom_entry (h entry List.mem_cons_self) reading hlineno, List.map_cons, hrest]
    rfl

/-- The settings of a document. -/
def calls (parts : List Part) : List Setting :=
  parts.flatMap fun part => part.entries.map fun entry =>
    setting part.sectionName entry.name entry.value

/-- **The events of a rendered document are its settings.** -/
theorem eventsFrom_render {parts : List Part} (h : ∀ part ∈ parts, WritablePart part)
    (reading : Reading) (lineno : Nat) :
    (eventsFrom reading lineno (rawLines (render parts))).map Prod.snd = (calls parts).map some := by
  induction parts generalizing reading lineno with
  | nil =>
    rw [render, rawLines, dif_pos rfl]
    rfl
  | cons part parts ih =>
    have hpart := h part List.mem_cons_self
    obtain ⟨reading', lineno', -, hentries⟩ := eventsFrom_entries hpart.entries
      ⟨part.sectionName, []⟩ (Nat.succ_pos lineno) (render parts)
    rw [render, eventsFrom_heading hpart, hentries,
      ih (fun other hother => h other (List.mem_cons_of_mem part hother)), calls, calls,
      List.flatMap_cons, List.map_append, List.map_map]
    rfl

/-! ### The handler's view -/

section Handler

variable {υ : Type} (accept : υ → Setting → υ)

/-- A handler that accepts every setting. -/
def accepting : IniHandler υ := fun user sectionName name value =>
  .ok (1, accept user ⟨sectionName, name, value⟩)

theorem perform_accepting (user : υ) {list : List (Nat × Event)} {settings : List Setting}
    (h : list.map Prod.snd = settings.map some) :
    perform (accepting accept) 0 user list = .ok (0, settings.foldl accept user) := by
  induction settings generalizing user list with
  | nil =>
    rw [List.map_nil, List.map_eq_nil_iff] at h
    rw [h]
    rfl
  | cons call settings ih =>
    cases list with
    | nil => cases h
    | cons event list =>
      obtain ⟨line, kind⟩ := event
      obtain ⟨rfl, hrest⟩ := List.cons.inj h
      exact ih (accept user call) hrest

/-- **A document that is written down is read back**: the handler gets the settings of
    the document in order, and the parser returns 0. -/
theorem iniParseFile_render {parts : List Part} (h : ∀ part ∈ parts, WritablePart part)
    (user : υ) :
    iniParseFile (accepting accept) (render parts) user =
      .ok (0, (calls parts).foldl accept user) := by
  rw [iniParseFile, iniParseStream_performs _ fileReader_readsAs rfl]
  exact perform_accepting accept user (eventsFrom_render h _ _)

end Handler

/-- A section with two settings, the second one with an empty value. -/
def sampleDocument : List Part := [⟨ascii "a b", [⟨ascii "k", ascii "v; w=1"⟩, ⟨ascii "e", []⟩]⟩]

theorem printable_of_length {text : Bytes} (h : (0 : UInt8) ∉ text ∧ newline ∉ text)
    (hfree : ∀ index < text.length, isspace (text.getD index 0) = true →
      text.getD (index + 1) 0 ≠ 59) : Printable text := by
  refine ⟨h.1, h.2, ?_⟩
  rintro front space back rfl
  rw [Bool.eq_false_iff]
  intro hspace
  have hindex := hfree front.length (by simp)
  simp only [List.getD_eq_getElem?_getD] at hindex
  simp [hspace] at hindex

theorem writable_sampleDocument : ∀ part ∈ sampleDocument, WritablePart part := by
  intro part hpart
  obtain rfl := List.mem_singleton.mp hpart
  refine ⟨printable_of_length (by decide) (by decide), by decide, by decide, fun entry hentry => ?_⟩
  rcases List.mem_pair.mp hentry with rfl | rfl
  · refine ⟨printable_of_length (by decide) (by decide), printable_of_length (by decide) (by decide),
      by decide, by decide, ?_, by decide, by decide⟩
    rintro char ⟨⟩
    decide
  · refine ⟨printable_of_length (by decide) (by decide), printable_of_length (by decide) (by decide),
      by decide, by decide, ?_, by decide, by decide⟩
    rintro char ⟨⟩
    decide

theorem iniParseFile_sampleDocument :
    iniParseFile (accepting fun count _ => count + 1) (render sampleDocument) 0 = .ok (0, 2) ∧
      render sampleDocument = ascii "[a b]\nk=v; w=1\ne=\n" :=
  ⟨iniParseFile_render (fun count _ => count + 1) writable_sampleDocument 0, by decide⟩

end Cdht.IniRoundTrip
