/-
  Cdht/Ini.lean
  =============
  **The vendored INI parser** (`src/helpers/ini.c`, `include/helpers/ini.h`).

  The model has the switches that `ini.h` sets: a line buffer of 200 bytes on the
  stack, continuation lines, a byte order mark, inline comments behind `;`, no stop at
  the first error.  `char` arrays are blocks whose bytes start unwritten and pointers
  are indices, so a read of stale or missing bytes would be a fault.  The line number
  and the error, `int`s in the source, are natural numbers.

  A reader fills a buffer with the next piece of its stream, as `fgets` does; that it
  gets on with each call is part of its type, since the loops of the parser end for no
  other reason.
-/
import Cdht.Settings
import Cdht.TextBuffer

namespace Cdht.Ini

open Cdht.Memory Cdht.Format Cdht.Strings Cdht.TextBuffer
open Cdht.Settings (isspace)

def newline : UInt8 := 10

/-! ### Readers -/

/-- The bytes that `fgets` takes: up to a newline, which is included, and no more than
    the given number. -/
def fgetsChunk : Nat → Bytes → Bytes × Bytes
  | 0, file => ([], file)
  | _ + 1, [] => ([], [])
  | n + 1, char :: file =>
      if char = newline then ([char], file)
      else (char :: (fgetsChunk n file).1, (fgetsChunk n file).2)

/-- `fgets`, on the bytes of the file that are left; `none` for NULL. -/
def fgets (str : Block) (num : Nat) (file : Bytes) : Exec (Option (Block × Bytes)) :=
  if file = [] then .ok none else do
    let str ← store str 0 ((fgetsChunk (num - 1) file).1 ++ [0])
    return some (str, (fgetsChunk (num - 1) file).2)

/-- `ini_parse_string_ctx`, with the object that `ptr` points into. -/
structure StringCtx where
  string : Bytes
  ptr : Nat
  numLeft : Nat

/-- The loop of `ini_reader_string`, whose `num` is `room + 1`: the buffer, the place of
    the NUL and the context after it. -/
def readerStringLoop : (room : Nat) → Block → Nat → StringCtx → Exec (Block × Nat × StringCtx)
  | 0, str, strp, ctx => .ok (str, strp, ctx)
  | room + 1, str, strp, ctx =>
      if ctx.numLeft = 0 then .ok (str, strp, ctx) else do
        let c ← readByte ctx.string ctx.ptr
        let str ← store str strp [c]
        let ctx := { ctx with ptr := ctx.ptr + 1, numLeft := ctx.numLeft - 1 }
        if c = newline then return (str, strp + 1, ctx)
        else readerStringLoop room str (strp + 1) ctx

def iniReaderString (str : Block) (num : Nat) (ctx : StringCtx) :
    Exec (Option (Block × StringCtx)) :=
  if ctx.numLeft = 0 ∨ num < 2 then .ok none else do
    let (str, strp, ctx) ← readerStringLoop (num - 1) str 0 ctx
    let str ← putNul str strp
    return some (str, ctx)

/-- `ini_reader`. -/
structure IniReader (σ : Type) where
  read : Block → Nat → σ → Exec (Option (Block × σ))
  left : σ → Nat
  progress : ∀ {str num stream str' stream'}, 2 ≤ num →
    read str num stream = .ok (some (str', stream')) → left stream' < left stream

theorem length_fgetsChunk (n : Nat) (file : Bytes) :
    (fgetsChunk n file).1.length + (fgetsChunk n file).2.length = file.length := by
  induction n generalizing file with
  | zero => exact Nat.zero_add _
  | succ n ih =>
    cases file with
    | nil => rfl
    | cons char file =>
      rw [fgetsChunk]
      split
      · exact Nat.add_comm _ _
      · have hrest := ih file
        simp only [List.length_cons]
        omega

theorem fgetsChunk_pos {n : Nat} {file : Bytes} (hn : 0 < n) (hfile : file ≠ []) :
    0 < (fgetsChunk n file).1.length := by
  match n, file with
  | n + 1, char :: file =>
    rw [fgetsChunk]
    split
    · exact Nat.one_pos
    · exact Nat.succ_pos _

theorem fgetsChunk_lt {n : Nat} {file : Bytes} (hn : 0 < n) (hfile : file ≠ []) :
    (fgetsChunk n file).2.length < file.length := by
  have hlength := length_fgetsChunk n file
  have hpos := fgetsChunk_pos hn hfile
  omega

theorem fgets_progress {str str' : Block} {num : Nat} {file file' : Bytes} (hnum : 2 ≤ num)
    (h : fgets str num file = .ok (some (str', file'))) : file'.length < file.length := by
  rw [fgets] at h
  split at h
  · cases h
  · rename_i hfile
    obtain ⟨filled, -, h⟩ := bind_eq_ok h
    cases h
    exact fgetsChunk_lt (by omega) hfile

/-- The reader of `ini_parse_file`. -/
def fileReader : IniReader Bytes := ⟨fgets, List.length, fgets_progress⟩

theorem readerStringLoop_left {room : Nat} {str : Block} {strp : Nat} {ctx : StringCtx}
    {result : Block × Nat × StringCtx} (h : readerStringLoop room str strp ctx = .ok result) :
    result.2.2.numLeft ≤ ctx.numLeft := by
  induction room generalizing str strp ctx with
  | zero =>
    cases h
    exact Nat.le_refl _
  | succ room ih =>
    rw [readerStringLoop] at h
    split at h
    · cases h
      exact Nat.le_refl _
    · obtain ⟨c, -, h⟩ := bind_eq_ok h
      obtain ⟨filled, -, h⟩ := bind_eq_ok h
      split at h
      · cases h
        exact Nat.sub_le _ _
      · exact Nat.le_trans (ih h) (Nat.sub_le _ _)

theorem iniReaderString_progress {str str' : Block} {num : Nat} {ctx ctx' : StringCtx}
    (hnum : 2 ≤ num) (h : iniReaderString str num ctx = .ok (some (str', ctx'))) :
    ctx'.numLeft < ctx.numLeft := by
  obtain ⟨room, hroom⟩ : ∃ room, num - 1 = room + 1 := ⟨num - 2, by omega⟩
  rw [iniReaderString, hroom] at h
  split at h
  · cases h
  · rename_i hready
    obtain ⟨⟨filled, strp, after⟩, hloop, h⟩ := bind_eq_ok h
    obtain ⟨str'', -, h⟩ := bind_eq_ok h
    cases h
    -- the first iteration takes a byte, and the others put none back
    rw [readerStringLoop, if_neg (by omega)] at hloop
    obtain ⟨c, -, hloop⟩ := bind_eq_ok hloop
    obtain ⟨filled', -, hloop⟩ := bind_eq_ok hloop
    have hfirst : ctx.numLeft - 1 < ctx.numLeft := by omega
    split at hloop
    · cases hloop
      exact hfirst
    · exact Nat.lt_of_le_of_lt (readerStringLoop_left hloop) hfirst

/-- The reader of `ini_parse_string_length`. -/
def stringReader : IniReader StringCtx := ⟨iniReaderString, StringCtx.numLeft, iniReaderString_progress⟩

/-! ### Helpers on strings -/

/-- `ini_rstrip`, on the pointers `s` and `end`. -/
def iniRstrip (s : Nat) : (stop : Nat) → Block → Exec Block
  | 0, line => .ok line
  | stop + 1, line =>
      if s < stop + 1 then do
        let char ← charAt line stop
        if isspace char then
          let line ← putNul line stop
          iniRstrip s stop line
        else return line
      else .ok line

def iniLskip (line : Block) (s : Nat) : Exec Nat :=
  scan (fun (_ : Unit) char => if isspace char then some () else none) () s (line.drop s)

/-- One step of the loop of `ini_find_chars_or_comment`, whose state is `was_space`. -/
def findStep (chars : Bytes) (wasSpace : Bool) (char : UInt8) : Option Bool :=
  if chars.contains char || (wasSpace && (ascii ";").contains char) then none
  else some (isspace char)

/-- `ini_find_chars_or_comment`; no characters stand for a NULL `chars`. -/
def iniFindCharsOrComment (line : Block) (s : Nat) (chars : Bytes) : Exec Nat :=
  scan (findStep chars) false s (line.drop s)

/-- The loop of `ini_strncpy0`, with `n` iterations to go before `size - 1`. -/
def strncpy0Loop (line : Block) (src : Nat) : (n i : Nat) → Block → Exec Block
  | 0, i, dest => putNul dest i
  | n + 1, i, dest => do
      let char ← charAt line (src + i)
      if char ≠ 0 then
        let dest ← store dest i [char]
        strncpy0Loop line src n (i + 1) dest
      else putNul dest i

def iniStrncpy0 (dest line : Block) (src size : Nat) : Exec Block :=
  strncpy0Loop line src (size - 1) 0 dest

/-! ### One line -/

abbrev IniHandler (υ : Type) := υ → CString → CString → CString → Exec (Int × υ)

/-- The local variables of `ini_parse_stream`. -/
structure Parser (υ : Type) where
  line : Block
  sectionName : Block
  prevName : Block
  lineno : Nat
  error : Nat
  user : υ

/-- `if (!error) error = lineno;`. -/
def Parser.flag {υ : Type} (parser : Parser υ) : Parser υ :=
  if parser.error = 0 then { parser with error := parser.lineno } else parser

/-- A `char *` argument of the handler. -/
def stringArg (block : Block) (index : Nat) : Exec CString := do
  let chars ← stringAt index (block.drop index)
  return CString.ofBuffer chars

section Lines

variable {υ : Type} (handler : IniHandler υ)

/-- `if (!HANDLER(user, section, name, value) && !error) error = lineno;`. -/
def callHandler (parser : Parser υ) (name value : CString) : Exec (Parser υ) := do
  let sectionName ← stringArg parser.sectionName 0
  let (code, user) ← handler parser.user sectionName name value
  let parser := { parser with user := user }
  return if code = 0 then parser.flag else parser

/-- Non-blank line with leading whitespace, a continuation of the previous name's
    value. -/
def parseContinuation (parser : Parser υ) (start : Nat) : Exec (Parser υ) := do
  let stop ← iniFindCharsOrComment parser.line start []
  let line ← putNul parser.line stop
  let line ← iniRstrip start stop line
  let parser := { parser with line := line }
  let name ← stringArg parser.prevName 0
  let value ← stringArg line start
  callHandler handler parser name value

/-- A "[section]" line. -/
def parseHeading (parser : Parser υ) (start : Nat) : Exec (Parser υ) := do
  let stop ← iniFindCharsOrComment parser.line (start + 1) (ascii "]")
  let char ← charAt parser.line stop
  if char = 93 then
    let line ← putNul parser.line stop
    let sectionName ← iniStrncpy0 parser.sectionName line (start + 1) 50
    let prevName ← putNul parser.prevName 0
    return { parser with line := line, sectionName := sectionName, prevName := prevName }
  else return parser.flag

/-- Not a comment, must be a name[=:]value pair. -/
def parsePair (parser : Parser υ) (start : Nat) : Exec (Parser υ) := do
  let stop ← iniFindCharsOrComment parser.line start (ascii "=:")
  let char ← charAt parser.line stop
  if char = 61 ∨ char = 58 then
    let line ← putNul parser.line stop
    let line ← iniRstrip start stop line
    let value := stop + 1
    let stop ← iniFindCharsOrComment line value []
    let line ← putNul line stop
    let value ← iniLskip line value
    let line ← iniRstrip value stop line
    let prevName ← iniStrncpy0 parser.prevName line start 50
    let parser := { parser with line := line, prevName := prevName }
    let name ← stringArg line start
    let value ← stringArg line value
    callHandler handler parser name value
  else return parser.flag

/-- The first character behind a byte order mark on the first line. -/
def skipBom (parser : Parser υ) : Exec Nat := do
  if parser.lineno ≠ 1 then return 0
  let first ← charAt parser.line 0
  if first ≠ 0xEF then return 0
  let second ← charAt parser.line 1
  if second ≠ 0xBB then return 0
  let third ← charAt parser.line 2
  return if third ≠ 0xBF then 0 else 3

/-- The body of the loop of `ini_parse_stream` for a line of `offset` characters.  The
    search for a comment character finds the end of a blank line, too. -/
def parseLine (parser : Parser υ) (offset : Nat) : Exec (Parser υ) := do
  let start ← skipBom parser
  let start ← iniLskip parser.line start
  let line ← iniRstrip start offset parser.line
  let parser := { parser with line := line }
  let char ← charAt line start
  if char = 0 ∨ (ascii ";#").contains char then return parser
  let prev ← charAt parser.prevName 0
  if prev ≠ 0 ∧ char ≠ 0 ∧ 0 < start then parseContinuation handler parser start
  else if char = 91 then parseHeading parser start
  else if char ≠ 0 then parsePair handler parser start
  else return parser

end Lines

/-! ### The loop over the lines -/

section Stream

variable {σ υ : Type} (reader : IniReader σ)

/-- `offset == max_line - 1 && line[offset - 1] != '\n'`. -/
def exceeds (line : Block) (offset : Nat) : Exec Bool :=
  if offset = 199 then do
    let last ← charAt line (offset - 1)
    return last ≠ newline
  else .ok false

/-- `abyss_len > 0 && abyss[abyss_len - 1] == '\n'`. -/
def endsLine (abyss : Block) (abyssLen : Nat) : Exec Bool :=
  if 0 < abyssLen then do
    let last ← charAt abyss (abyssLen - 1)
    return last = newline
  else .ok false

/-- The loop that consumes the rest of a line that is too long, in pieces of 15
    characters: the error and the stream after it. -/
def discardLine (lineno error : Nat) (abyss : Block) (stream : σ) : Exec (Nat × σ) :=
  match hread : reader.read abyss 16 stream with
  | .error fault => .error fault
  | .ok none => .ok (error, stream)
  | .ok (some (abyss, rest)) => do
      have := reader.progress (by decide) hread
      let error := if error = 0 then lineno else error
      let text ← stringAt 0 abyss
      let ends ← endsLine abyss text.length
      if ends then return (error, rest)
      else discardLine lineno error abyss rest
termination_by reader.left stream

theorem discardLine_left {lineno error error' : Nat} {abyss : Block} {stream stream' : σ}
    (h : discardLine reader lineno error abyss stream = .ok (error', stream')) :
    reader.left stream' ≤ reader.left stream := by
  unfold discardLine at h
  split at h
  · cases h
  · cases h
    exact Nat.le_refl _
  · rename_i abyss' rest hread
    have hless := reader.progress (by decide) hread
    obtain ⟨text, -, h⟩ := bind_eq_ok h
    obtain ⟨ends, -, h⟩ := bind_eq_ok h
    split at h
    · cases h
      exact Nat.le_of_lt hless
    · exact Nat.le_trans (discardLine_left h) (Nat.le_of_lt hless)
termination_by reader.left stream

/-- What the loop does before it looks at the text of a line: it reads the line, counts
    it, and discards what does not fit.  The result has the length of the line and the
    stream behind it; `none` at the end of the stream. -/
def nextLine (parser : Parser υ) (stream : σ) : Exec (Option (Parser υ × Nat × σ)) := do
  match ← reader.read parser.line 200 stream with
  | none => return none
  | some (line, stream) =>
      let text ← stringAt 0 line
      let offset := text.length
      let parser := { parser with line := line, lineno := parser.lineno + 1 }
      let long ← exceeds line offset
      if long then
        let (error, stream) ← discardLine reader parser.lineno parser.error (malloc 16) stream
        return some ({ parser with error := error }, offset, stream)
      else return some (parser, offset, stream)

theorem nextLine_left {parser parser' : Parser υ} {stream stream' : σ} {offset : Nat}
    (h : nextLine reader parser stream = .ok (some (parser', offset, stream'))) :
    reader.left stream' < reader.left stream := by
  obtain ⟨piece, hread, h⟩ := bind_eq_ok h
  rcases piece with _ | ⟨line, rest⟩
  · cases h
  have hless := reader.progress (by decide) hread
  obtain ⟨text, -, h⟩ := bind_eq_ok h
  obtain ⟨long, -, h⟩ := bind_eq_ok h
  split at h
  · obtain ⟨⟨error, stream''⟩, hdiscard, h⟩ := bind_eq_ok h
    cases h
    exact Nat.lt_of_le_of_lt (discardLine_left reader hdiscard) hless
  · cases h
    exact hless

variable (handler : IniHandler υ)

/-- The loop of `ini_parse_stream`. -/
def parseLoop (parser : Parser υ) (stream : σ) : Exec (Parser υ) :=
  match hnext : nextLine reader parser stream with
  | .error fault => .error fault
  | .ok none => .ok parser
  | .ok (some (parser, offset, rest)) => do
      have := nextLine_left reader hnext
      let parser ← parseLine handler parser offset
      parseLoop parser rest
termination_by reader.left stream

/-- `ini_parse_stream`: the returned line number, and the user's data afterwards. -/
def iniParseStream (stream : σ) (user : υ) : Exec (Nat × υ) := do
  let parser ← parseLoop reader handler
    ⟨malloc 200, List.replicate 50 (some 0), List.replicate 50 (some 0), 0, 0, user⟩ stream
  return (parser.error, parser.user)

end Stream

section Entry

variable {υ : Type} (handler : IniHandler υ)

def iniParseFile (file : Bytes) (user : υ) : Exec (Nat × υ) :=
  iniParseStream fileReader handler file user

/-- `ini_parse`, where `file` is `none` if it cannot be opened. -/
def iniParse (file : Option Bytes) (user : υ) : Exec (Int × υ) :=
  match file with
  | none => .ok (-1, user)
  | some file => do
      let (error, user) ← iniParseFile handler file user
      return (error, user)

def iniParseStringLength (string : Bytes) (length : Nat) (user : υ) : Exec (Nat × υ) :=
  iniParseStream stringReader handler ⟨string, 0, length⟩ user

/-- `ini_parse_string`, on the object that begins at `string`. -/
def iniParseString (string : CString) (user : υ) : Exec (Nat × υ) :=
  iniParseStringLength handler string.chars string.strlen user

end Entry

end Cdht.Ini
