/-
  Cdht/IniGrammar.lean
  ====================
  **What a configuration file says**, on texts and without buffers.

  A file is a sequence of lines (`rawLines`), each of a kind of its own (`classify`).
  Reading them in order, with the section and the last name in mind, gives the events of
  the file (`events`): a setting for the handler, or a mistake, each with its line.  What
  a handler makes of the events (`perform`) is independent of how they came about.

  `IniRefinement.lean` proves that `ini_parse_stream` performs these events.  The limits
  of the source are part of the description: lines are cut at 199 characters, section
  names and remembered names at 49, and a line ends for the parser at its first NUL.
-/
import Cdht.Ini
import Mathlib.Data.List.DropRight

namespace Cdht.IniGrammar

open Cdht.Memory Cdht.Format Cdht.Strings Cdht.TextBuffer Cdht.Ini
open Cdht.Settings (isspace Setting)

/-! ### Lines -/

theorem length_rest_of_line {file : Bytes} (hfile : file ≠ []) :
    (fgetsChunk 199 file).2.length < file.length := fgetsChunk_lt (by decide) hfile

theorem length_rest_of_piece {file : Bytes} (hfile : file ≠ []) :
    (fgetsChunk 15 file).2.length < file.length := fgetsChunk_lt (by decide) hfile

/-- What is left of the file behind a line that does not fit: the loop of the source
    takes pieces of 15 characters and looks for a newline at the end of the string that
    a piece makes. -/
def afterLong (file : Bytes) : Bytes :=
  if hfile : file = [] then []
  else if (cstr (fgetsChunk 15 file).1).getLast? = some newline then (fgetsChunk 15 file).2
  else
    have := length_rest_of_piece hfile
    afterLong (fgetsChunk 15 file).2
termination_by file.length

/-- The text of a line, and whether some of the line did not fit. -/
structure RawLine where
  text : Bytes
  overlong : Bool
deriving DecidableEq

def fills (text : Bytes) : Bool := text.length = 199 && text.getLast? ≠ some newline

theorem length_afterLong_le (file : Bytes) : (afterLong file).length ≤ file.length := by
  rw [afterLong]
  split
  · exact Nat.zero_le _
  · rename_i hfile
    have hlt := length_rest_of_piece hfile
    split
    · exact Nat.le_of_lt hlt
    · exact Nat.le_trans (length_afterLong_le _) (Nat.le_of_lt hlt)
termination_by file.length

def rawLines (file : Bytes) : List RawLine :=
  if hfile : file = [] then []
  else
    have := length_rest_of_line hfile
    have := length_afterLong_le (fgetsChunk 199 file).2
    if fills (cstr (fgetsChunk 199 file).1) then
      ⟨cstr (fgetsChunk 199 file).1, (fgetsChunk 199 file).2 ≠ []⟩ ::
        rawLines (afterLong (fgetsChunk 199 file).2)
    else ⟨cstr (fgetsChunk 199 file).1, false⟩ :: rawLines (fgetsChunk 199 file).2
termination_by file.length

theorem rawLines_eq {file : Bytes} (hfile : file ≠ []) :
    rawLines file =
      if fills (cstr (fgetsChunk 199 file).1) then
        ⟨cstr (fgetsChunk 199 file).1, (fgetsChunk 199 file).2 ≠ []⟩ ::
          rawLines (afterLong (fgetsChunk 199 file).2)
      else ⟨cstr (fgetsChunk 199 file).1, false⟩ :: rawLines (fgetsChunk 199 file).2 := by
  rw [rawLines, dif_neg hfile]

/-! ### Kinds of lines -/

def trimStart (text : Bytes) : Bytes := text.dropWhile isspace

def trimEnd (text : Bytes) : Bytes := text.rdropWhile isspace

/-- The text before the first of `chars` and before an inline comment, which is a `;`
    behind white space. -/
def upTo (chars text : Bytes) : Bytes := scanned (findStep chars) false text

inductive LineKind where
  | blank
  | continuation (value : Bytes)
  | heading (name : Bytes)
  | setting (name value : Bytes)
  | malformed
deriving DecidableEq

def headingOf (text : Bytes) : LineKind :=
  if (text.drop (upTo (ascii "]") text).length).head? = some 93 then
    .heading (upTo (ascii "]") text)
  else .malformed

def settingOf (text : Bytes) : LineKind :=
  match text.drop (upTo (ascii "=:") text).length with
  | [] => .malformed
  | stop :: value =>
      if stop = 61 ∨ stop = 58 then
        .setting (trimEnd (upTo (ascii "=:") text)) (trimEnd (trimStart (upTo [] value)))
      else .malformed

/-- The kind of a line with the given text, which is indented or not, where `continues`
    says that there is a setting to continue. -/
def classify (continues indented : Bool) : Bytes → LineKind
  | [] => .blank
  | char :: rest =>
      if (ascii ";#").contains char then .blank
      else if continues && indented then .continuation (trimEnd (upTo [] (char :: rest)))
      else if char = 91 then headingOf rest
      else settingOf (char :: rest)

/-! ### Events -/

/-- What is remembered from one line to the next. -/
structure Reading where
  sectionName : Bytes
  prevName : Bytes

def setting (sectionName name value : Bytes) : Setting :=
  ⟨CString.ofBuffer sectionName, CString.ofBuffer name, CString.ofBuffer value⟩

/-- The length of a byte order mark at the beginning of the first line. -/
def bomLength (first : Bool) (text : Bytes) : Nat :=
  if first && [0xEF, 0xBB, 0xBF].isPrefixOf text then 3 else 0

/-- The white space before the text of a line, with a byte order mark. -/
def indent (first : Bool) (text : Bytes) : Nat :=
  bomLength first text + ((text.drop (bomLength first text)).takeWhile isspace).length

def kindOf (reading : Reading) (first : Bool) (text : Bytes) : LineKind :=
  classify (reading.prevName ≠ []) (0 < indent first text)
    (trimEnd (trimStart (text.drop (bomLength first text))))

/-- A setting for the handler, or a mistake (`none`). -/
abbrev Event := Option Setting

/-- What a line of some kind adds to the reading, and the event it causes. -/
def readKind (reading : Reading) : LineKind → Reading × List Event
  | .blank => (reading, [])
  | .continuation value => (reading, [some (setting reading.sectionName reading.prevName value)])
  | .heading name => (⟨name.take 49, []⟩, [])
  | .setting name value =>
      (⟨reading.sectionName, name.take 49⟩, [some (setting reading.sectionName name value)])
  | .malformed => (reading, [none])

/-- The events of the lines from the line `lineno + 1` on. -/
def eventsFrom (reading : Reading) (lineno : Nat) : List RawLine → List (Nat × Event)
  | [] => []
  | raw :: raws =>
      let result := readKind reading (kindOf reading (lineno + 1 = 1) raw.text)
      ((if raw.overlong then [none] else []) ++ result.2).map (fun event => (lineno + 1, event)) ++
        eventsFrom result.1 (lineno + 1) raws

def events (file : Bytes) : List (Nat × Event) := eventsFrom ⟨[], []⟩ 0 (rawLines file)

section Perform

variable {υ : Type} (handler : IniHandler υ)

/-- Only the first mistake is remembered. -/
def flagged (error lineno : Nat) : Nat := if error = 0 then lineno else error

/-- One event: the error and the user's data after it. -/
def performEvent (error : Nat) (user : υ) : Nat × Event → Exec (Nat × υ)
  | (lineno, none) => .ok (flagged error lineno, user)
  | (lineno, some setting) => do
      let (code, user) ← handler user setting.sectionName setting.name setting.value
      return (if code = 0 then flagged error lineno else error, user)

def perform (error : Nat) (user : υ) : List (Nat × Event) → Exec (Nat × υ)
  | [] => .ok (error, user)
  | event :: events => do
      let (error, user) ← performEvent handler error user event
      perform error user events

theorem perform_append (error : Nat) (user : υ) (left right : List (Nat × Event)) :
    perform handler error user (left ++ right) = (do
      let (error, user) ← perform handler error user left
      perform handler error user right) := by
  induction left generalizing error user with
  | nil => rfl
  | cons event left ih =>
    rw [List.cons_append, perform, perform]
    rcases performEvent handler error user event with fault | ⟨error', user'⟩
    · rfl
    · exact ih error' user'

end Perform

end Cdht.IniGrammar
